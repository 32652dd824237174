import TreeCode.Text.Lines

/-! # Golden test files

A golden test is a tree text with directives in comment lines: run lines say how to compile the
tree, and check lines say what to expect in the output. Every line of the file is a run line, a
check line or a line of the tree text. -/

namespace TreeCode.Golden

/-! ### Directives -/

inductive Directive where
  /-- Some line from here on contains the pattern. -/
  | check (pattern : String)
  | checkLabel (pattern : String)
  /-- The line here contains the pattern. -/
  | checkNext (pattern : String)
  /-- The line here is blank, or there is none. -/
  | checkEmpty
  | comment (text : String)
deriving DecidableEq, Repr

def Directive.name : Directive → String
  | check _ => "CHECK"
  | checkLabel _ => "CHECK-LABEL"
  | checkNext _ => "CHECK-NEXT"
  | checkEmpty => "CHECK-EMPTY"
  | comment _ => "COM"

/-- How to compile the tree, and whether that is expected to fail. -/
structure RunLine where
  expectFailure : Bool
  command : String
  args : List String
deriving DecidableEq, Repr

/-- A run line names no command. -/
inductive SpecError where
  | missingCommand (line : String)
deriving DecidableEq, Repr

def SpecError.message : SpecError → String
  | missingCommand line => s!"RUN directive without a command: '{line}'"

/-! ### Lines of a file -/

/-- What a line of a golden test is for. -/
inductive Item where
  | run (r : RunLine)
  | directive (d : Directive)
  | tree (line : List Char)
deriving DecidableEq, Repr

/-- A run line from its words. -/
def RunLine.ofWords? : List (List Char) → Option RunLine
  | [] => none
  | w :: ws =>
      if w = "not".toList then
        match ws with
        | [] => none
        | c :: args => some ⟨true, String.ofList c, args.map String.ofList⟩
      else some ⟨false, String.ofList w, ws.map String.ofList⟩

/-- The pattern of a directive. -/
def patternText (cs : List Char) : String := String.ofList (Text.trim cs)

/-- The check line that a trimmed line is, if it is one. -/
def directive? (line : List Char) : Option Directive :=
  match Text.after? "; CHECK-LABEL:".toList line with
  | some rest => some (.checkLabel (patternText rest))
  | none =>
      match Text.after? "; CHECK-NEXT:".toList line with
      | some rest => some (.checkNext (patternText rest))
      | none =>
          match Text.after? "; CHECK-EMPTY".toList line with
          | some _ => some .checkEmpty
          | none =>
              match Text.after? "; CHECK:".toList line with
              | some rest => some (.check (patternText rest))
              | none =>
                  (Text.after? "; COM:".toList line).map fun rest => .comment (patternText rest)

def readItem (line : List Char) : Except SpecError Item :=
  let trimmed := Text.trim line
  match Text.after? "; RUN:".toList trimmed with
  | some rest =>
      match RunLine.ofWords? (Text.words rest) with
      | some r => .ok (.run r)
      | none => .error (.missingCommand (String.ofList trimmed))
  | none =>
      match directive? trimmed with
      | some d => .ok (.directive d)
      | none => .ok (.tree line)

/-! ### Files -/

structure Spec where
  runs : List RunLine
  directives : List Directive
  treeText : String
deriving DecidableEq, Repr

namespace Spec

def runOf? : Item → Option RunLine
  | .run r => some r
  | _ => none

def directiveOf? : Item → Option Directive
  | .directive d => some d
  | _ => none

def treeLineOf? : Item → Option (List Char)
  | .tree line => some line
  | _ => none

def ofItems (items : List Item) : Spec :=
  ⟨items.filterMap runOf?, items.filterMap directiveOf?,
    String.ofList (['\n'].intercalate (items.filterMap treeLineOf?))⟩

/-- The golden test in a file. -/
def parse (content : String) : Except SpecError Spec :=
  ofItems <$> (Text.lines content.toList).mapM readItem

end Spec

end TreeCode.Golden
