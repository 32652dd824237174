import TreeCode.Program.Listing

/-! # Sessions

Trees are compiled one after the other in a session. It keeps statistics of the trees compiled,
every generated name once, and the name of the tree that is being compiled; a failing
compilation leaves that name behind, and nothing else. -/

namespace TreeCode

/-! ### Statistics -/

structure Stats where
  treesCompiled : Nat
  tableEntries : Nat
  inlineBranches : Nat
  fallbackSites : Nat
  inlineSize : Nat
  largestTreeEntries : Nat
  /-- The first tree with the largest table; empty before there is any. -/
  largestTreeName : String
deriving DecidableEq, Repr

namespace Stats

def empty : Stats := ⟨0, 0, 0, 0, 0, 0, ""⟩

/-- Count a compiled tree. -/
def record (s : Stats) (name : String) (r : Report) : Stats :=
  let larger := decide (s.largestTreeEntries < r.tableEntries)
  { treesCompiled := s.treesCompiled + 1
    tableEntries := s.tableEntries + r.tableEntries
    inlineBranches := s.inlineBranches + r.inlineBranches
    fallbackSites := s.fallbackSites + r.fallbackSites
    inlineSize := s.inlineSize + r.inlineSize
    largestTreeEntries := if larger then r.tableEntries else s.largestTreeEntries
    largestTreeName := if larger then name else s.largestTreeName }

def lines (s : Stats) : List String :=
  ["Compilation Session Statistics:",
    s!"  Trees compiled: {s.treesCompiled}",
    s!"  Table entries: {s.tableEntries}",
    s!"  Inline branches: {s.inlineBranches}",
    s!"  Fallback sites: {s.fallbackSites}",
    s!"  Inline size: {s.inlineSize} units"] ++
  if s.largestTreeName.isEmpty then []
  else [s!"  Largest tree: {s.largestTreeName} ({s.largestTreeEntries} entries)"]

def text (s : Stats) : String := renderLines (s.lines.map fun l => ⟨0, l⟩)

end Stats

/-! ### Interned names -/

/-- Texts in the order in which they came first. -/
abbrev Interned := List String

/-- The position of a text, and the texts with it. -/
def Interned.intern (texts : Interned) (text : String) : Interned × Nat :=
  match texts.findIdx? (· == text) with
  | some i => (texts, i)
  | none => (texts ++ [text], texts.length)

/-- An interned text, by its position. -/
structure Handle where
  text : String
  position : Nat
deriving DecidableEq, Repr

/-! ### Sessions -/

structure Session where
  stats : Stats
  interned : Interned
  current : Option String
deriving DecidableEq, Repr

namespace Session

def empty : Session := ⟨.empty, [], none⟩

variable (s : Session)

def setCurrent (name : String) : Session := { s with current := some name }

def clearCurrent : Session := { s with current := none }

def record (name : String) (r : Report) : Session := { s with stats := s.stats.record name r }

/-- Intern a text; equal positions mean equal texts. -/
def intern (text : String) : Session × Handle :=
  let (texts, i) := s.interned.intern text
  ({ s with interned := texts }, ⟨text, i⟩)

/-- Intern the names of a tree. -/
def symbols (name : String) (treeId : UInt32) : Session × Symbols Handle :=
  let symbols := Symbols.ofTree name treeId
  let (s, record) := s.intern symbols.record
  let (s, table) := s.intern symbols.table
  let (s, predict) := s.intern symbols.predict
  let (s, fallback) := s.intern symbols.fallback
  (s, ⟨record, table, predict, fallback⟩)

/-- Lower a tree within the session; the handles of its names come with the program. -/
def lowerNamed (c : Config) (t : Tree) (treeId : UInt32) :
    Session × Except CompileError (Program × Symbols Handle) :=
  let s := s.setCurrent t.name
  match Program.lower c t treeId with
  | .error e => (s, .error e)
  | .ok p =>
      let (s, handles) := s.symbols t.name treeId
      ((s.record handles.predict.text p.report).clearCurrent, .ok (p, handles))

/-- Lower a tree within the session. -/
def lower (c : Config) (t : Tree) (treeId : UInt32) : Session × Except CompileError Program :=
  let (s, result) := s.lowerNamed c t treeId
  (s, result.map Prod.fst)

/-- Lower a tree within the session, and write the program out. -/
def compile (c : Config) (t : Tree) (treeId : UInt32) :
    Session × Except CompileError GeneratedCode :=
  let (s, result) := s.lower c t treeId
  (s, result.map Program.assemble)

/-! ### Whole runs -/

/-- What can be done with a session. -/
inductive Step where
  | setCurrent (name : String)
  | clearCurrent
  | record (name : String) (report : Report)
  | intern (text : String)
  | symbols (name : String) (treeId : UInt32)
  | lower (c : Config) (t : Tree) (treeId : UInt32)
  | compile (c : Config) (t : Tree) (treeId : UInt32)

/-- The session after a step. -/
def after : Step → Session
  | .setCurrent name => s.setCurrent name
  | .clearCurrent => s.clearCurrent
  | .record name report => s.record name report
  | .intern text => (s.intern text).1
  | .symbols name treeId => (s.symbols name treeId).1
  | .lower c t treeId => (s.lower c t treeId).1
  | .compile c t treeId => (s.compile c t treeId).1

/-- The session after some steps. -/
def run (steps : List Step) : Session := steps.foldl after s

/-- The handles that are given out for the names of a tree. -/
structure Naming where
  name : String
  treeId : UInt32
  handles : Symbols Handle
deriving DecidableEq, Repr

/-- The naming of a tree that a step comes with. -/
def naming? : Step → Option Naming
  | .symbols name treeId => some ⟨name, treeId, (s.symbols name treeId).2⟩
  | .lower c t treeId | .compile c t treeId =>
      match (s.lowerNamed c t treeId).2 with
      | .ok (_, handles) => some ⟨t.name, treeId, handles⟩
      | .error _ => none
  | _ => none

/-- All namings of a run, in the order of its steps. -/
def namings (s : Session) : List Step → List Naming
  | [] => []
  | step :: steps => (s.naming? step).toList ++ (s.after step).namings steps

end Session

end TreeCode
