import TreeCode.Text.Escaped
import TreeCode.Tree.Draft

/-! # Faults in tree texts

Reading a tree text stops at the first place where the text cannot go on as it does, at the
second definition of a name, at a name without a definition, or because the nodes do not form a
tree. A fault of the first kind is reported with the line that reading has come to. -/

namespace TreeCode.TreeText

/-- The numbers that have to fit in 32 bits. -/
inductive Field where
  | dimension
  | prediction
  | feature
deriving DecidableEq, Repr

def Field.name : Field → String
  | dimension => "dimension"
  | prediction => "prediction"
  | feature => "feature index"

/-- What is wrong with the text at some place. -/
inductive Cause where
  | expectedKeyword (keyword found : String)
  | expectedIdentifier (found : Option Char)
  | expectedChar (char : Char) (found : Option Char)
  | expectedSign (sign : String)
  | expectedUnsigned (found : String)
  | expectedNumber (found : String)
  | tooWide (field : Field) (value : Nat)
  | unknownFeatureType (word : String)
  | unknownRule (word : String)
  | unclosed
  | trailing
deriving DecidableEq, Repr

def Cause.message : Cause → String
  | expectedKeyword keyword found => s!"expected '{keyword}' but found '{found}'"
  | expectedIdentifier (some c) => s!"expected identifier but found '{c}'"
  | expectedIdentifier none => "expected identifier but found end of input"
  | expectedChar c found => s!"expected '{c}' but found {Text.foundText found}"
  | expectedSign sign => s!"expected '{sign}'"
  | expectedUnsigned found => s!"expected unsigned integer but found '{found}'"
  | expectedNumber found => s!"expected number but found '{found}'"
  | tooWide field value => s!"{field.name} {value} does not fit in 32 bits"
  | unknownFeatureType word => s!"unknown feature type '{word}'"
  | unknownRule word => s!"expected 'leaf' or 'split' but found '{word}'"
  | unclosed => "expected '\x7d' but found end of input"
  | trailing => "unexpected input after tree"

/-- Why reading stops before the end, with the input that is left at a fault. -/
inductive Stop where
  | fault (cause : Cause) (rest : List Char)
  | duplicate (name : String)
deriving DecidableEq, Repr

/-- Why a text is not a tree. -/
inductive Error where
  | malformed (line : Nat) (cause : Cause)
  | undefined (name : String)
  | duplicate (name : String)
  | invalid (error : TreeError)
deriving DecidableEq, Repr

def Error.message : Error → String
  | malformed line cause => s!"line {line}: {cause.message}"
  | undefined name => s!"undefined node '{name}'"
  | duplicate name => s!"node '{name}' is defined twice"
  | invalid error => error.message

/-- The line in which `rest` begins, when it is what is left of the text. -/
def lineOf (text rest : List Char) : Nat :=
  text.count '\n' - rest.count '\n' + 1

/-- The error to report for a text. -/
def Stop.toError (text : List Char) : Stop → Error
  | fault cause rest => .malformed (lineOf text rest) cause
  | duplicate name => .duplicate name

end TreeCode.TreeText
