import TreeCode.Number.Numeral
import TreeCode.Text.Lines

/-! # Command-line arguments

A flag is given once, with its value behind an equals sign or as the next argument; the one
argument that is not a flag is the input. Two dashes end the flags. -/

namespace TreeCode.Command

/-- What the flags say; what is not given is absent. -/
structure Settings where
  architecture : Option String
  budget : Option Nat
  kernelSize : Option Nat
  treeId : Option UInt32
  header : Option String
  source : Option String
  /-- Statistics are asked for. -/
  stats : Bool
deriving DecidableEq, Repr

/-- A compilation that the command line asks for. -/
structure Options where
  /-- A path, or a dash for the standard input. -/
  input : String
  settings : Settings
deriving DecidableEq, Repr

inductive Request where
  | compile (o : Options)
  | version
  /-- The arguments are not usable. -/
  | misuse
deriving DecidableEq, Repr

/-! ### Flags -/

/-- Flags with a value. -/
inductive Flag where
  | architecture
  | budget
  | kernelSize
  | treeId
  | header
  | source
deriving DecidableEq, Repr

def Flag.name : Flag → String
  | architecture => "arch"
  | budget => "budget"
  | kernelSize => "kernel-size"
  | treeId => "tree-id"
  | header => "header"
  | source => "source"

def Flag.all : List Flag := [.architecture, .budget, .kernelSize, .treeId, .header, .source]

/-- A path is not empty. -/
def path? (text : String) : Option String := if text.isEmpty then none else some text

/-- Set what is not set yet. -/
def once {α : Type} (old new : Option α) : Option (Option α) :=
  match old, new with
  | none, some a => some (some a)
  | _, _ => none

namespace Settings

def empty : Settings := ⟨none, none, none, none, none, none, false⟩

/-- Set a flag; a second value and a bad one are refused. -/
def set (s : Settings) (value : String) : Flag → Option Settings
  | .architecture => do
      return { s with architecture := ← once s.architecture (some value) }
  | .budget => do
      return { s with budget := ← once s.budget (readSigned? UInt32.size value.toList) }
  | .kernelSize => do
      return { s with kernelSize := ← once s.kernelSize (readUnsigned? UInt64.size value.toList) }
  | .treeId => do
      let id := (readSigned? UInt32.size value.toList).map UInt32.ofNat
      return { s with treeId := ← once s.treeId id }
  | .header => do
      return { s with header := ← once s.header (path? value) }
  | .source => do
      return { s with source := ← once s.source (path? value) }

def setStats (s : Settings) : Option Settings :=
  if s.stats then none else some { s with stats := true }

end Settings

/-! ### Arguments -/

/-- An argument for a flag name, with the value behind the equals sign if there is one. -/
def splitFlag (cs : List Char) : String × Option String :=
  let name := String.ofList (cs.takeWhile (· != '='))
  match cs.dropWhile (· != '=') with
  | [] => (name, none)
  | _ :: value => (name, some (String.ofList value))

/-- The argument starts with a dash and is not a dash alone. -/
def looksLikeFlag (arg : String) : Bool :=
  match arg.toList with
  | '-' :: _ :: _ => true
  | _ => false

/-- The argument asks for the version; the letter for it needs no blank before what follows. -/
def asksVersion (arg : String) : Bool :=
  arg == "--version" || (Text.after? ['-', 'V'] arg.toList).isSome

/-- The arguments taken in so far. -/
structure Given where
  input : Option String
  settings : Settings
deriving DecidableEq, Repr

namespace Given

def empty : Given := ⟨none, .empty⟩

def setInput (g : Given) (value : String) : Option Given := do
  return { g with input := ← once g.input (path? value) }

def setFlag (g : Given) (name value : String) : Option Given := do
  let flag ← Flag.all.find? (·.name == name)
  return { g with settings := ← g.settings.set value flag }

def setStats (g : Given) : Option Given := do
  return { g with settings := ← g.settings.setStats }

def request (g : Given) : Request :=
  match g.input with
  | some input => .compile ⟨input, g.settings⟩
  | none => .misuse

/-- Take in arguments that are not flags. -/
def readInputs (g : Given) : List String → Request
  | [] => g.request
  | arg :: args =>
      match g.setInput arg with
      | some g => g.readInputs args
      | none => .misuse

/-- Go on with what has been taken in, if it could be. -/
def orMisuse (g : Option Given) (next : Given → Request) : Request :=
  match g with
  | some g => next g
  | none => .misuse

/-- Take in arguments. -/
def read (g : Given) : List String → Request
  | [] => g.request
  | arg :: args =>
      if arg = "--" then g.readInputs args
      else if asksVersion arg then .version
      else
        match Text.after? ['-', '-'] arg.toList with
        | none =>
            if looksLikeFlag arg then .misuse else orMisuse (g.setInput arg) (·.read args)
        | some body =>
            match splitFlag body, args with
            | ("stats", none), args => orMisuse g.setStats (·.read args)
            | (name, some value), args => orMisuse (g.setFlag name value) (·.read args)
            | (_, none), [] => .misuse
            | (name, none), value :: args =>
                if looksLikeFlag value then .misuse
                else orMisuse (g.setFlag name value) (·.read args)

end Given

/-- What the arguments ask for. -/
def parseArguments (args : List String) : Request := Given.empty.read args

end TreeCode.Command
