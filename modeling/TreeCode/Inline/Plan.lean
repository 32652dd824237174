import TreeCode.Event
import TreeCode.Inline.Statement

/-! # Inlining under a budget

Going down from a node with the hotter child of each split first, a split becomes an inline
branch when its cost still fits into the budget, after everything that has been spent before it
on the way; otherwise the split and all below it are left to the table. A plan holds these
decisions. It does not depend on the table; linking a plan to a table gives its statements, and
fails where the table has no entry for a node that was left to it. -/

namespace TreeCode

inductive Plan where
  | ret (prediction : UInt32)
  /-- An inline branch with its cost and the size spent so far, its own cost included. -/
  | inline (node : NodeId) (test : Test) (cost size : Nat) (hot cold : Plan)
  /-- A split left to the table at the size spent so far. -/
  | defer (node : NodeId) (size : Nat)
deriving DecidableEq

namespace Plan

/-! ### Decisions -/

/-- Cost of all inline branches. -/
def cost : Plan → Nat
  | inline _ _ c _ hot cold => c + hot.cost + cold.cost
  | _ => 0

/-- The plan for a node when `spent` has been spent before. -/
def ofNode (row : CostRow) (budget : Nat) : Node → Nat → Plan
  | .leaf _ p, _ => ret p
  | .split m f t l r, spent =>
      let c := row.split l r
      let size := spent + c
      if budget < size then defer m.id spent
      else if l.LeftHot r then
        let hot := ofNode row budget l size
        inline m.id ⟨f, .lessEqual, t⟩ c size hot (ofNode row budget r (size + hot.cost))
      else
        let hot := ofNode row budget r size
        inline m.id ⟨f, .greater, t⟩ c size hot (ofNode row budget l (size + hot.cost))

/-- Make this plan, asking the cost model for the cost of each split that is met. -/
def make (row : CostRow) (budget : Nat) : Node → Nat → Except CompileError Plan
  | .leaf _ p, _ => .ok (ret p)
  | .split m f t l r, spent => do
      let c ← row.cost (.split m f t l r)
      let size := spent + c
      if budget < size then pure (defer m.id spent)
      else if l.LeftHot r then
        let hot ← make row budget l size
        let cold ← make row budget r (size + hot.cost)
        pure (inline m.id ⟨f, .lessEqual, t⟩ c size hot cold)
      else
        let hot ← make row budget r size
        let cold ← make row budget l (size + hot.cost)
        pure (inline m.id ⟨f, .greater, t⟩ c size hot cold)

/-- Only splits are asked for their costs. -/
theorem make_eq_ok (row : CostRow) (budget : Nat) (n : Node) (spent : Nat) :
    make row budget n spent = .ok (ofNode row budget n spent) := by
  induction n generalizing spent with
  | leaf m p => rfl
  | split m f t l r ihl ihr =>
      simp only [make, CostRow.cost, bind, Except.bind, ihl, ihr]
      rw [ofNode]
      split
      · rfl
      · split <;> rfl

/-! ### Linking -/

/-- The statements of a plan, given the table positions of nodes. -/
def link (index : NodeId → Option Nat) : Plan → Except CompileError Statement
  | ret p => .ok (.ret p)
  | inline node test _ _ hot cold => do
      let a ← hot.link index
      let b ← cold.link index
      pure (.branch node test a b)
  | defer node _ =>
      match index node with
      | some entry => .ok (.fallback node entry)
      | none => .error (.missingEntry node)

/-! ### Events -/

/-- The splits of a plan in the order of their decisions; a split left to the table comes with
its position. -/
def decisions (index : NodeId → Option Nat) : Plan → List (Option Event)
  | ret _ => []
  | inline node _ c size hot cold =>
      some (.inlined node c size) :: (hot.decisions index ++ cold.decisions index)
  | defer node size => [(index node).map fun entry => .deferred node entry size]

/-- The events of linking a plan, up to the first node without an entry. -/
def events (index : NodeId → Option Nat) (p : Plan) : List Event :=
  ((p.decisions index).takeWhile Option.isSome).filterMap id

end Plan

end TreeCode
