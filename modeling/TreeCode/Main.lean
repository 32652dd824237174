import TreeCode.Command.Compile

/-! # The command line

Performs the actions of the command on the real files and streams. -/

namespace TreeCode.Command

/-- The failure with the number that the system gives it; some operations turn the sign of the
number. -/
def FileError.ofNumber? (code : UInt32) : Option FileError :=
  match min code.toNat (0 - code).toNat with
  | 6 => some .noDevice
  | 13 => some .denied
  | 20 => some .notDirectory
  | 21 => some .isDirectory
  | 28 => some .noSpace
  | 36 => some .nameTooLong
  | _ => none

/-- Why a file operation failed. -/
def FileError.ofError (e : IO.Error) : FileError :=
  let known : Option FileError := match e with
    | .noFileOrDirectory .. => some .notFound
    | .inappropriateType _ code _ => ofNumber? code
    | .invalidArgument _ code _ => ofNumber? code
    | .noSuchThing _ code _ => ofNumber? code
    | .resourceExhausted _ code _ => ofNumber? code
    | .permissionDenied _ code _ => ofNumber? code
    | _ => none
  known.getD (.other e.toString)

/-- The answer of an operation on files. -/
def answer {α : Type} (op : IO α) : IO (Except FileError α) := do
  try
    return .ok (← op)
  catch e =>
    return .error (.ofError e)

/-- The text that bytes encode. -/
def decoded (bytes : ByteArray) : Except FileError String :=
  match String.fromUTF8? bytes with
  | some text => .ok text
  | none => .error (.other "stream did not contain valid UTF-8")

/-- Write a text to a file, up to the last byte. -/
def writeText (path text : String) : IO Unit :=
  IO.FS.withFile path .write fun file => do
    file.putStr text
    file.flush

/-- Perform an action; the result is the exit code. -/
def Action.run : Action → IO UInt32
  | readInput next => do
      let bytes ← answer (do (← IO.getStdin).readBinToEnd)
      (next (bytes.bind decoded)).run
  | readFile path next => do
      let bytes ← answer (IO.FS.readBinFile path)
      (next (bytes.bind decoded)).run
  | writeFile path text next => do
      (next (← answer (writeText path text))).run
  | print text next => do
      IO.print text
      next.run
  | printError text next => do
      IO.eprint text
      next.run
  | exit code => pure code.toUInt32
  | breakOff fault => do
      IO.eprintln fault.message
      pure 101

end TreeCode.Command

def main (args : List String) : IO UInt32 :=
  (TreeCode.Command.action "Usage: [OPTIONS] INPUT\n" args).run
