import TreeCode.Command.Action
import TreeCode.Command.Arguments
import TreeCode.Session
import TreeCode.TreeText.Parse

/-! # The compile command

The configuration is checked before any input is read. The declaration and the definition of the
compiled tree go to their files, or to the standard output where no file is named, and the
statistics of the session to the standard error if they are asked for. -/

namespace TreeCode.Command

/-- The configuration that the settings ask for. -/
def Settings.config (s : Settings) : Except CompileError Config :=
  Config.ofSettings (s.architecture.getD "arm") s.budget s.kernelSize

def fail (message : String) : Action := .printError s!"Error: {message}\n" (.exit 1)

/-- Go on with a result, or fail with its message. -/
def orFail {ε α : Type} (message : ε → String) (next : α → Action) : Except ε α → Action
  | .ok a => next a
  | .error e => fail (message e)

/-- Read the input; a dash names the standard input. -/
def readSource (input : String) (next : String → Action) : Action :=
  if input = "-" then .readInput (orFail FileError.message next)
  else .readFile input (orFail FileError.message next)

/-- Write a text to a file if one is named, and print it otherwise. -/
def deliver (path : Option String) (text : String) (next : Action) : Action :=
  match path with
  | some path => .writeFile path text (orFail FileError.message fun _ => next)
  | none => .print text next

namespace Settings

variable (o : Settings)

/-- The definition, behind an empty line when the declaration was printed before it. -/
def definitionText (p : Program) : String :=
  if o.header.isNone && o.source.isNone then "\n" ++ p.definition else p.definition

/-- Deliver a compiled program and end. -/
def finish (p : Program) (stats : Stats) : Action :=
  deliver o.header p.declaration <| deliver o.source (o.definitionText p) <|
    if o.stats then .printError stats.text (.exit 0) else .exit 0

/-- Compile a tree. -/
def compileTree (c : Config) (t : Tree) : Action :=
  let (s, result) := Session.empty.lower c t (o.treeId.getD 0)
  orFail CompileError.message (o.finish · s.stats) result

/-- Compile a tree text. -/
def compileText (v : Overflow) (c : Config) (text : String) : Action :=
  match Tree.parseIn v text with
  | .ok result => orFail TreeText.Error.message (o.compileTree c) result
  | .error fault => .breakOff fault

end Settings

def Options.compile (v : Overflow) (o : Options) : Action :=
  orFail CompileError.message (fun c => readSource o.input (o.settings.compileText v c))
    o.settings.config

/-- What the command does for the given arguments; `misuse` is what it says when they are not
usable. -/
def action (misuse : String) (args : List String) : Action :=
  match parseArguments args with
  | .compile o => o.compile .wraps
  | .version => .print "treegen 0.1.0\n" (.exit 0)
  | .misuse => .printError misuse (.exit 2)

end TreeCode.Command
