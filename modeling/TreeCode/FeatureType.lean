/-! # Feature types

The numeric type of the feature vector that a generated predict function takes. -/

namespace TreeCode

inductive FeatureType where
  | float
  | double
  | int
  | short
  | signedChar
  | unsignedChar
  | unsignedShort
  | unsignedInt
deriving DecidableEq, Repr

namespace FeatureType

/-- The keyword of the type in tree texts. -/
def keyword : FeatureType → String
  | float => "float"
  | double => "double"
  | int => "int"
  | short => "short"
  | signedChar => "signed_char"
  | unsignedChar => "unsigned_char"
  | unsignedShort => "unsigned_short"
  | unsignedInt => "unsigned_int"

/-- The name of the type in C. -/
def cName : FeatureType → String
  | float => "float"
  | double => "double"
  | int => "int"
  | short => "short"
  | signedChar => "signed char"
  | unsignedChar => "unsigned char"
  | unsignedShort => "unsigned short"
  | unsignedInt => "unsigned int"

def all : List FeatureType :=
  [float, double, int, short, signedChar, unsignedChar, unsignedShort, unsignedInt]

def ofKeyword? (word : String) : Option FeatureType :=
  all.find? (·.keyword == word)

/-- The signed integer types. -/
def isSigned : FeatureType → Bool
  | int => true
  | short => true
  | signedChar => true
  | _ => false

theorem mem_all (t : FeatureType) : t ∈ all := by cases t <;> decide

theorem ofKeyword?_keyword (t : FeatureType) : ofKeyword? t.keyword = some t := by
  cases t <;> decide

end FeatureType

end TreeCode
