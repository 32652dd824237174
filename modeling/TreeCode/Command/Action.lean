import TreeCode.Command.Disk
import TreeCode.Evaluation

/-! # Actions

What a command does to its surroundings is a tree of actions: an action that gets an answer goes
on with one that depends on it. It can be performed on a model of the surroundings, with the
standard input, the standard outputs and the files of a disk. The standard streams are pipes there,
so a text that is written to the device of one follows what has been printed to it; a stream that
leads to a file would be opened anew and lose that. -/

namespace TreeCode.Command

inductive Action where
  | readInput (next : Except FileError String → Action)
  | readFile (path : String) (next : Except FileError String → Action)
  | writeFile (path text : String) (next : Except FileError Unit → Action)
  | print (text : String) (next : Action)
  | printError (text : String) (next : Action)
  | exit (code : UInt8)
  /-- A fault ends the command where it is. -/
  | breakOff (fault : Fault)

/-! ### Performing -/

/-- The surroundings of a command. -/
structure Surroundings where
  input : String
  disk : Disk
deriving DecidableEq, Repr

/-- What a command leaves behind. -/
structure Effect where
  code : UInt8
  output : String
  errors : String
  disk : Disk
deriving DecidableEq, Repr

/-- What is read from a file; a device other than the input gives nothing. -/
def Surroundings.read (s : Surroundings) (path : String) : Except FileError String :=
  (s.disk.read path).map fun
    | .text content => content
    | .input => s.input
    | _ => ""

namespace Action

/-- Perform an action after `output` and `errors` have been printed. -/
def performAfter (output errors : String) (s : Surroundings) : Action → Except Fault Effect
  | readInput next => (next (.ok s.input)).performAfter output errors s
  | readFile path next => (next (s.read path)).performAfter output errors s
  | writeFile path text next =>
      match s.disk.sink path with
      | .error e => (next (.error e)).performAfter output errors s
      | .ok .output => (next (.ok ())).performAfter (output ++ text) errors s
      | .ok .errors => (next (.ok ())).performAfter output (errors ++ text) s
      | .ok .nowhere => (next (.ok ())).performAfter output errors s
      | .ok (.place p) =>
          (next (.ok ())).performAfter output errors { s with disk := s.disk.store p text }
  | print text next => next.performAfter (output ++ text) errors s
  | printError text next => next.performAfter output (errors ++ text) s
  | exit code => .ok ⟨code, output, errors, s.disk⟩
  | breakOff fault => .error fault

def perform (a : Action) (s : Surroundings) : Except Fault Effect := a.performAfter "" "" s

end Action

end TreeCode.Command
