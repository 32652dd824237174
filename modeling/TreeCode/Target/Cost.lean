import TreeCode.Target.Architecture
import TreeCode.Target.Failure

/-! # Cost of inline code

The size of an inline split is estimated in bytes: the compare and branch with their loads,
the return of each child that is a leaf, and room for a jump when the right child is a split. -/

namespace TreeCode

/-- What the comparisons of a tree work on. -/
inductive Operand where
  | int
  | float
deriving DecidableEq, Repr

/-- Floating-point comparisons are needed when some threshold has a fractional part. -/
def Tree.operand (t : Tree) : Operand := if t.containsFloat then .float else .int

/-- The parts of the cost of a split. -/
structure CostRow where
  /-- Loads, compare and branch. -/
  base : Nat
  /-- Added for each child that is a leaf. -/
  leafChild : Nat
  /-- Added when the right child is a split. -/
  gotoSlot : Nat
deriving DecidableEq, Repr

namespace CostRow

def ofTarget : Architecture → Operand → CostRow
  | .arm, .int => ⟨20, 8, 4⟩
  | .arm, .float => ⟨32, 8, 4⟩
  | .intel, .int => ⟨28, 10, 5⟩
  | .intel, .float => ⟨17, 10, 5⟩

variable (row : CostRow)

/-- Cost of a split with these children. -/
def split (l r : Node) : Nat :=
  row.base + (if l.isLeaf then row.leafChild else 0) +
    (if r.isLeaf then row.leafChild else row.gotoSlot)

/-- Cost of a node, which must be a split. -/
def cost : Node → Except CompileError Nat
  | .leaf m _ => .error (.notASplit m.id)
  | .split _ _ _ l r => .ok (row.split l r)

/-- Cost of all splits from a node down. -/
def total : Node → Nat
  | .leaf .. => 0
  | .split _ _ _ l r => row.split l r + total l + total r

/-- What a node adds to the cost: a leaf adds nothing. -/
def own : Node → Nat
  | .leaf .. => 0
  | .split _ _ _ l r => row.split l r

end CostRow

/-- The costs that apply to a tree. -/
def Tree.costRow (t : Tree) (a : Architecture) : CostRow := .ofTarget a t.operand

/-- Cost of all splits of a tree, added up in the order of their numbers. -/
def Tree.totalCostByNumbers (t : Tree) (a : Architecture) : Nat :=
  t.nodes.foldl (fun total n => total + (t.costRow a).own n) 0

end TreeCode
