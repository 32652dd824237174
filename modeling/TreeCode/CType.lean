import TreeCode.Number.Plain
import TreeCode.Tree.Basic

/-! # C types of generated fields

The fields of a table entry get the narrowest types that hold their values. A table index and a
feature index are unsigned; the type of the thresholds follows their range and the type of the
features. -/

namespace TreeCode

/-! ### Widths -/

/-- Widths of integer types. -/
inductive Width where
  | w8
  | w16
  | w32
deriving DecidableEq, Repr

/-- Number of binary digits; zero has one. -/
def bitsNeeded (n : Nat) : Nat := if n = 0 then 1 else n.log2 + 1

/-- Number of binary digits of a word of 64 bits, found by its leading zeros. -/
def bitsOfWord (n : UInt64) : Nat := max (64 - n.toBitVec.clz.toNat) 1

namespace Width

def bits : Width → Nat
  | w8 => 8
  | w16 => 16
  | w32 => 32

/-- The narrowest width of at least so many bits, or the widest there is. -/
def ofBits (bits : Nat) : Width :=
  if bits ≤ 8 then w8 else if bits ≤ 16 then w16 else w32

/-- The width of an unsigned type for numbers up to `bound`. -/
def forUnsigned (bound : Nat) : Width := ofBits (bitsNeeded bound)

/-- The width of a signed type for numbers of at most this magnitude; one bit holds the sign. -/
def forSigned (magnitude : Nat) : Width := ofBits (bitsNeeded magnitude + 1)

end Width

/-! ### Types -/

inductive CType where
  | unsigned (width : Width)
  | signed (width : Width)
  | float
  | double
deriving DecidableEq, Repr

namespace CType

def name : CType → String
  | unsigned .w8 => "unsigned char"
  | unsigned .w16 => "unsigned short"
  | unsigned .w32 => "unsigned int"
  | signed .w8 => "signed char"
  | signed .w16 => "short"
  | signed .w32 => "int"
  | float => "float"
  | double => "double"

/-- The type for an index up to `bound`. -/
def forIndex (bound : Nat) : CType := unsigned (.forUnsigned bound)

/-- The integer type for thresholds in the given range. -/
def forRange : Option (Float × Float) → CType
  | none => unsigned .w8
  | some (low, high) =>
      if 0 ≤ low then unsigned (.forUnsigned (integerPart high).toNat)
      else signed (.forSigned (max (-integerPart low) (integerPart high)).toNat)

/-- Signed features are not compared with thresholds of type `unsigned int`: it is the one
unsigned type that C does not promote to `int`, and negative features would count as large. -/
def avoidConversion (featureType : FeatureType) : CType → CType
  | unsigned .w32 => if featureType.isSigned then signed .w32 else unsigned .w32
  | type => type

/-- The type of the thresholds of a tree. Where one has a fractional part it is a floating-point
type, the one of the features if that is `double`. -/
def ofThresholds (t : Tree) : CType :=
  if t.containsFloat then
    match t.featureType with
    | .double => double
    | _ => float
  else avoidConversion t.featureType (forRange t.thresholdRange?)

/-- The type of the thresholds of a tree, found by going by the numbers of its nodes. -/
def ofThresholdsByNumbers (t : Tree) : CType :=
  if t.containsFloatByNumbers then
    match t.featureType with
    | .double => double
    | _ => float
  else avoidConversion t.featureType (forRange t.thresholdRangeByNumbers?)

/-! ### Literals -/

/-- A text without a point gets one. -/
def withPoint (text : List Char) : List Char :=
  if text.contains '.' then text else text ++ ['.', '0']

/-- The literal of the type that stands for `x`. -/
def literal (x : Float) : CType → List Char
  | unsigned _ => intText (integerPart x)
  | signed _ => intText (integerPart x)
  | float => withPoint (singleText x) ++ ['f']
  | double => withPoint (doubleText x)

end CType

/-- The types of the fields of a table entry. -/
structure RecordLayout where
  feature : CType
  threshold : CType
  index : CType
deriving DecidableEq, Repr

/-- The layout for the entries of a tree whose table has so many of them. -/
def RecordLayout.ofTree (t : Tree) (tableSize : Nat) : RecordLayout :=
  ⟨.forIndex t.dim.toNat, .ofThresholds t, .forIndex tableSize⟩

end TreeCode
