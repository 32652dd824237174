/-! # Generated names

The names that are defined for a tree are put together from its own name, the kind of thing that
is named, and the number of the tree. -/

namespace TreeCode

/-- Something for each kind of name of a tree: the C identifiers themselves, or handles of them. -/
structure Symbols (α : Type) where
  record : α
  table : α
  predict : α
  fallback : α
deriving DecidableEq, Repr

namespace Symbols

def ofTree (name : String) (treeId : UInt32) : Symbols String :=
  ⟨s!"{name}_Node{treeId}", s!"{name}_tree{treeId}", s!"{name}_predict{treeId}",
    s!"{name}_fallback{treeId}"⟩

def toList {α : Type} (s : Symbols α) : List α := [s.record, s.table, s.predict, s.fallback]

end Symbols

end TreeCode
