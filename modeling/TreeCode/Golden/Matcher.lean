import TreeCode.Event
import TreeCode.Golden.Spec

/-! # Matching outputs

The directives of a golden test are matched one after the other against the lines of an output.
A cursor stands at the line that the next directive starts from; each match moves it behind the
line that was matched. Comments match without moving it. -/

namespace TreeCode.Golden

/-- Why a directive does not match. -/
inductive Mismatch where
  | notFound (directive pattern : String) (cursor : Nat)
  | nextDiffers (pattern line : String)
  | nextMissing (pattern : String)
  | notEmpty (line : String)
  /-- Matching looked for lines behind the end of the output. -/
  | fault (fault : Fault)
deriving DecidableEq, Repr

def Mismatch.message : Mismatch → String
  | notFound directive pattern cursor =>
      s!"{directive}: '{pattern}' not found after line {cursor}"
  | nextDiffers pattern line => s!"CHECK-NEXT: expected '{pattern}' but got '{line}'"
  | nextMissing pattern => s!"CHECK-NEXT: output ended before '{pattern}'"
  | notEmpty line => s!"CHECK-EMPTY: expected empty line but got '{line}'"
  | fault f => f.message

/-- The line contains the pattern. -/
def holdsPattern (pattern : String) (line : List Char) : Bool :=
  Text.occursIn pattern.toList line

/-- The lines from a position on, which may be the end but not lie behind it. -/
def linesFrom (lines : List (List Char)) (start : Nat) : Except Fault (List (List Char)) :=
  if start ≤ lines.length then .ok (lines.drop start) else .error (.missingLine start)

/-- Find the pattern in a line from the cursor on. A cursor behind the end of the output stands for
the end. -/
def search (lines : List (List Char)) (cursor : Nat) (d : Directive) (pattern : String) :
    Except Mismatch Nat :=
  match linesFrom lines (min cursor lines.length) with
  | .error f => .error (.fault f)
  | .ok ahead =>
      match ahead.findIdx? (holdsPattern pattern) with
      | some i => .ok (cursor + i + 1)
      | none => .error (.notFound d.name pattern cursor)

/-- The cursor after a directive. -/
def step (lines : List (List Char)) (cursor : Nat) : Directive → Except Mismatch Nat
  | .comment _ => .ok cursor
  | .check pattern => search lines cursor (.check pattern) pattern
  | .checkLabel pattern => search lines cursor (.checkLabel pattern) pattern
  | .checkNext pattern =>
      match lines[cursor]? with
      | none => .error (.nextMissing pattern)
      | some line =>
          if holdsPattern pattern line then .ok (cursor + 1)
          else .error (.nextDiffers pattern (String.ofList line))
  | .checkEmpty =>
      match lines[cursor]? with
      | none => .ok (cursor + 1)
      | some line =>
          if (Text.trim line).isEmpty then .ok (cursor + 1)
          else .error (.notEmpty (String.ofList line))

/-- The events of matching the directives from the cursor on, and the mismatch that ends it. -/
def follow (lines : List (List Char)) : Nat → List Directive → List Event × Except Mismatch Unit
  | _, [] => ([], .ok ())
  | cursor, d :: ds =>
      match step lines cursor d with
      | .error e => ([], .error e)
      | .ok next =>
          let (events, result) := follow lines next ds
          (.matched d.name next :: events, result)

/-- Match an output against directives. -/
def validate (output : String) (ds : List Directive) : List Event × Except Mismatch Unit :=
  follow (Text.lines output.toList) 0 ds

end TreeCode.Golden
