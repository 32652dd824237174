import TreeCode.Event

/-! # Tables

The whole tree is laid out in a flat table. An entry holds the rule of its node, with the
children of a split given by their positions in the table. A small loop can walk the table from
any entry on. -/

namespace TreeCode

/-- The fields of an entry; those that an entry does not use are zero. -/
structure Entry where
  isLeaf : Bool
  prediction : UInt32
  feature : UInt32
  threshold : Float
  left : Nat
  right : Nat
deriving DecidableEq

/-- The positions of nodes; of two pairs for one node the first counts. -/
abbrev IndexMap := List (NodeId × Nat)

structure Table where
  /-- The name of the tree. -/
  name : String
  entries : Array Entry
  index : IndexMap
  /-- Number of runs in which the entries were laid out. -/
  runs : Nat
  /-- What happened while the entries were laid out. -/
  events : List Event

namespace Table

def size (t : Table) : Nat := t.entries.size

/-- The position of a node's entry. -/
def index? (t : Table) (node : NodeId) : Option Nat := t.index.lookup node

/-! ### Walking -/

/-- One round of the loop, at the entry at position `i`: the position of the child to go on at,
or the prediction of a leaf. -/
def visit (t : Table) (x : FeatureVector) (i : Nat) : Except Fault (Nat ⊕ UInt32) :=
  match t.entries[i]? with
  | none => .error (.missingEntry i)
  | some e =>
      if e.isLeaf then .ok (.inr e.prediction)
      else do
        let v ← x.read e.feature
        pure (.inl (if v ≤ e.threshold then e.left else e.right))

/-- Walk from the entry at position `start` to a leaf. -/
def walk (t : Table) (start : Nat) (x : FeatureVector) : Except Fault UInt32 :=
  repeatM (t.visit x) start

/-! ### Texts -/

def entryText (i : Nat) (e : Entry) : String :=
  if e.isLeaf then s!"{i}: leaf {e.prediction}"
  else s!"{i}: split x[{e.feature}] <= {String.ofList (doubleText e.threshold)} ? {e.left} : {e.right}"

/-- A line for the table, one for each entry and one for the end. -/
def text (t : Table) : String :=
  s!"Table for {t.name} ({t.size} entries, {t.runs} runs)\n" ++
    String.join (t.entries.toList.zipIdx.map fun (e, i) => entryText i e ++ "\n") ++ "End Table\n"

end Table

end TreeCode
