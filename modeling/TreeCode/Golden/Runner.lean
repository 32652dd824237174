import TreeCode.Golden.Matcher
import TreeCode.Number.Numeral
import TreeCode.Session
import TreeCode.TreeText.Parse

/-! # Running golden tests

Each run line compiles the tree of the test with the options in its arguments, and the output,
or the message of the failure if one is expected, is matched against the directives. The first
run line that does not go as expected decides the test. -/

namespace TreeCode.Golden

/-! ### Options -/

/-- What a run line prints. -/
inductive Artifact where
  | both
  | declaration
  | definition
  | table
  | stats
deriving DecidableEq, Repr

def Artifact.ofName? : String → Option Artifact
  | "declaration" => some declaration
  | "definition" => some definition
  | "table" => some table
  | "stats" => some stats
  | _ => none

/-- The settings of a run line. -/
structure Options where
  architecture : String
  budget : Option Nat
  kernelSize : Option Nat
  treeId : UInt32
  artifact : Artifact
deriving DecidableEq, Repr

def Options.default : Options := ⟨"arm", none, none, 0, .both⟩

/-- Why an argument of a run line is refused. -/
inductive OptionError where
  | badBudget (value : String)
  | badKernelSize (value : String)
  | badTreeId (value : String)
  | unknownArtifact (value : String)
  | unknownArgument (arg : String)
deriving DecidableEq, Repr

def OptionError.message : OptionError → String
  | badBudget value => s!"bad budget '{value}'"
  | badKernelSize value => s!"bad kernel size '{value}'"
  | badTreeId value => s!"bad tree id '{value}'"
  | unknownArtifact value => s!"unknown --emit value '{value}'"
  | unknownArgument arg => s!"unknown RUN argument '{arg}'"

namespace Options

/-- The options of a run line, by the name in front of the equals sign. -/
inductive Key where
  | architecture
  | budget
  | kernelSize
  | treeId
  | artifact
deriving DecidableEq, Repr

def Key.lead : Key → String
  | architecture => "--arch="
  | budget => "--budget="
  | kernelSize => "--kernel-size="
  | treeId => "--tree-id="
  | artifact => "--emit="

def keys : List Key := [.architecture, .budget, .kernelSize, .treeId, .artifact]

/-- The option that an argument sets, and the value. -/
def key? (arg : String) : Option (Key × String) :=
  keys.findSome? fun k =>
    (Text.after? k.lead.toList arg.toList).map fun value => (k, String.ofList value)

def set (o : Options) (value : String) : Key → Except OptionError Options
  | .architecture => .ok { o with architecture := value }
  | .budget =>
      match readUnsigned? UInt32.size value.toList with
      | some n => .ok { o with budget := some n }
      | none => .error (.badBudget value)
  | .kernelSize =>
      match readUnsigned? UInt64.size value.toList with
      | some n => .ok { o with kernelSize := some n }
      | none => .error (.badKernelSize value)
  | .treeId =>
      match readUnsigned? UInt32.size value.toList with
      | some n => .ok { o with treeId := UInt32.ofNat n }
      | none => .error (.badTreeId value)
  | .artifact =>
      match Artifact.ofName? value with
      | some a => .ok { o with artifact := a }
      | none => .error (.unknownArtifact value)

/-- Take in one argument; `%s` stands for the test file and sets nothing. -/
def add (o : Options) (arg : String) : Except OptionError Options :=
  match key? arg with
  | some (k, value) => o.set value k
  | none => if arg = "%s" then .ok o else .error (.unknownArgument arg)

def parse (args : List String) : Except OptionError Options := args.foldlM add default

/-- The configuration that options ask for. -/
def config (o : Options) : Except CompileError Config :=
  Config.ofSettings o.architecture o.budget o.kernelSize

end Options

/-! ### Run lines -/

/-- Why a run line has no output. -/
inductive RunError where
  | unknownCommand (command : String)
  | options (e : OptionError)
  | compile (e : CompileError)
  | tree (e : TreeText.Error)
deriving DecidableEq, Repr

def RunError.message : RunError → String
  | unknownCommand command => s!"unknown RUN command '{command}'"
  | options e => e.message
  | compile e => e.message
  | tree e => e.message

def Artifact.text (p : Program) (s : Stats) : Artifact → String
  | .both => p.declaration ++ "\n" ++ p.definition
  | .declaration => p.declaration
  | .definition => p.definition
  | .table => p.table.text
  | .stats => s.text

/-- The output of compiling a tree with options, and the events of the compilation. -/
def Options.compile (o : Options) (c : Config) (t : Tree) :
    Except RunError (String × List Event) := do
  let (s, result) := Session.empty.lower c t o.treeId
  let p ← result.mapError .compile
  pure (o.artifact.text p s.stats, p.events)

/-- The output of compiling a tree text with options. -/
def Options.execute (v : Overflow) (o : Options) (treeText : String) :
    Except Fault (Except RunError (String × List Event)) :=
  match o.config with
  | .error e => .ok (.error (.compile e))
  | .ok c => do
      match ← Tree.parseIn v treeText with
      | .error e => pure (.error (.tree e))
      | .ok t => pure (o.compile c t)

def RunLine.execute (v : Overflow) (r : RunLine) (treeText : String) :
    Except Fault (Except RunError (String × List Event)) :=
  if r.command ≠ "%treegen" then .ok (.error (.unknownCommand r.command))
  else
    match Options.parse r.args with
    | .error e => .ok (.error (.options e))
    | .ok o => o.execute v treeText

/-! ### Tests -/

/-- Why a golden test fails. -/
inductive Failure where
  | noRunLine
  | unexpectedSuccess
  | compilation (e : RunError)
  | mismatch (e : Mismatch)
deriving DecidableEq, Repr

def Failure.message : Failure → String
  | noRunLine => "no RUN directive"
  | unexpectedSuccess => "expected compilation to fail but it succeeded"
  | compilation e => s!"compilation failed: {e.message}"
  | mismatch e => e.message

/-- The text that a run line gives to match, or why it does not go as expected. -/
def RunLine.outcome (v : Overflow) (r : RunLine) (treeText : String) :
    Except Fault (List Event × Except Failure String) := do
  match ← r.execute v treeText, r.expectFailure with
  | .ok (output, events), false => pure (events, .ok output)
  | .ok (_, events), true => pure (events, .error .unexpectedSuccess)
  | .error e, true => pure ([], .ok e.message)
  | .error e, false => pure ([], .error (.compilation e))

namespace Spec

/-- Run a test with the given run lines. -/
def runLines (v : Overflow) (s : Spec) :
    List RunLine → Except Fault (List Event × Except Failure Unit)
  | [] => .ok ([], .ok ())
  | r :: rs => do
      match ← r.outcome v s.treeText with
      | (events, .error e) => pure (events, .error e)
      | (events, .ok output) =>
          match validate output s.directives with
          | (matched, .error e) => pure (events ++ matched, .error (.mismatch e))
          | (matched, .ok ()) =>
              let (later, result) ← s.runLines v rs
              pure (events ++ matched ++ later, result)

/-- Run a test: the events, and whether it passes. -/
def run (v : Overflow) (s : Spec) : Except Fault (List Event × Except Failure Unit) :=
  if s.runs.isEmpty then .ok ([], .error .noRunLine) else s.runLines v s.runs

end Spec

end TreeCode.Golden
