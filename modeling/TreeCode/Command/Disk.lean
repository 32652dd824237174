import TreeCode.Text.Lines

/-! # Disks

A disk is a tree of directories with files at some of its places. A file holds a text or is a
device: the standard streams are there under names of their own. A path is followed name by name;
what stops it is the reason why the file cannot be read or written. -/

namespace TreeCode.Command

/-- Why a file cannot be read or written. -/
inductive FileError where
  | notFound
  | noDevice
  | denied
  | notDirectory
  | isDirectory
  | noSpace
  | nameTooLong
  | other (message : String)
deriving DecidableEq, Repr

def FileError.message : FileError → String
  | notFound => "No such file or directory (os error 2)"
  | noDevice => "No such device or address (os error 6)"
  | denied => "Permission denied (os error 13)"
  | notDirectory => "Not a directory (os error 20)"
  | isDirectory => "Is a directory (os error 21)"
  | noSpace => "No space left on device (os error 28)"
  | nameTooLong => "File name too long (os error 36)"
  | other message => message

inductive File where
  | text (content : String)
  /-- The standard input. -/
  | input
  /-- The standard output. -/
  | output
  /-- The standard error. -/
  | errors
  /-- Takes any text and keeps none. -/
  | null
  /-- Has no room for any text. -/
  | full
  /-- A device that is not connected. -/
  | detached
deriving DecidableEq, Repr

/-- Names from the root down. -/
abbrev Path := List String

structure Disk where
  directories : List Path
  /-- Directories in which no file can be made, with the reason. -/
  fixed : List (Path × FileError)
  files : List (Path × File)
  /-- Where relative paths start. -/
  current : Path
deriving DecidableEq, Repr

namespace Disk

def isDirectory (d : Disk) (p : Path) : Bool := p.isEmpty || d.directories.contains p

def file? (d : Disk) (p : Path) : Option File := d.files.lookup p

/-! ### Following paths -/

/-- Greatest number of bytes in a name. -/
def nameLimit : Nat := 255

/-- Greatest number of bytes in the text of a path. -/
def pathLimit : Nat := 4095

/-- Go on from a place by names; every place that is left on the way is a directory. -/
def walk (d : Disk) (place : Path) : List String → Except FileError Path
  | [] => .ok place
  | name :: names =>
      if d.isDirectory place then
        if name = "" ∨ name = "." then d.walk place names
        else if name = ".." then d.walk place.dropLast names
        else if nameLimit < name.utf8ByteSize then .error .nameTooLong
        else d.walk (place ++ [name]) names
      else if (d.file? place).isSome then .error .notDirectory
      else .error .notFound

/-- The names in the text of a path; the last one is empty behind a slash. -/
def names (path : String) : List String :=
  (Text.pieces (· == '/') path.toList).map String.ofList

/-- Go by names from the place where a path starts. -/
def go (d : Disk) (path : String) (names : List String) : Except FileError Path :=
  if pathLimit < path.utf8ByteSize then .error .nameTooLong
  else d.walk (if path.toList.head? = some '/' then [] else d.current) names

/-- The place that a path leads to. -/
def locate (d : Disk) (path : String) : Except FileError Path := d.go path (names path)

/-- The names before the last one that is not empty. -/
def parentNames (names : List String) : List String :=
  ((names.reverse.dropWhile String.isEmpty).drop 1).reverse

/-- The place of a file to write. A name in front of a slash is one of a directory, whether it is
there or not. -/
def locateFile (d : Disk) (path : String) : Except FileError Path :=
  if (names path).getLast? = some "" then do
    let _ ← d.go path (parentNames (names path) ++ [""])
    throw .isDirectory
  else d.locate path

/-! ### Reading and writing -/

def read (d : Disk) (path : String) : Except FileError File := do
  let p ← d.locate path
  if d.isDirectory p then throw .isDirectory
  match d.file? p with
  | none => throw .notFound
  | some .detached => throw .noDevice
  | some file => pure file

/-- Where a written text goes. -/
inductive Sink where
  | place (p : Path)
  | output
  | errors
  | nowhere
deriving DecidableEq, Repr

/-- Where a text goes that is written to a path. -/
def sink (d : Disk) (path : String) : Except FileError Sink := do
  let p ← d.locateFile path
  if d.isDirectory p then throw .isDirectory
  match d.file? p with
  | none =>
      match d.fixed.lookup p.dropLast with
      | some e => throw e
      | none => pure (.place p)
  | some (.text _) => pure (.place p)
  | some .output => pure .output
  | some .errors => pure .errors
  | some .input => pure .nowhere
  | some .null => pure .nowhere
  | some .full => throw .noSpace
  | some .detached => throw .noDevice

/-- Put a text in place of what a file held before. -/
def put (files : List (Path × File)) (p : Path) (text : String) : List (Path × File) :=
  match files with
  | [] => [(p, .text text)]
  | (q, old) :: rest => if q = p then (p, .text text) :: rest else (q, old) :: put rest p text

/-- The disk with a text at a place. -/
def store (d : Disk) (p : Path) (text : String) : Disk := { d with files := put d.files p text }

end Disk

end TreeCode.Command
