import TreeCode.Inline.Plan

/-! # Emission

Sizes of inline code are numbers of 32 bits. The statements of a node are emitted in one go: the
size spent so far goes down into the hotter side of a split, and what it has become there goes on
into the colder side. For the comparison with the budget a sum that is too large is the greatest
number instead; every other sum has to fit. -/

namespace TreeCode

/-- Why no statements are emitted. -/
inductive EmissionError where
  | compile (e : CompileError)
  /-- The sum of two sizes has more than 32 bits. -/
  | overflow (a b : UInt32)
deriving DecidableEq, Repr

/-! ### Sizes -/

/-- The sum of two sizes, or the greatest size if that is too large. -/
def saturatingSum (a b : UInt32) : UInt32 :=
  if a.toNat + b.toNat < UInt32.size then a + b else .ofNat (UInt32.size - 1)

/-- The sum of two sizes, if it is not too large. -/
def exactSum (a b : UInt32) : Except EmissionError UInt32 :=
  if a.toNat + b.toNat < UInt32.size then .ok (a + b) else .error (.overflow a b)

/-- The cost of a split with these children, added up part by part. -/
def CostRow.splitSum (row : CostRow) (l r : Node) : Except EmissionError UInt32 := do
  let base := UInt32.ofNat row.base
  let size ← if l.isLeaf then exactSum base (.ofNat row.leafChild) else pure base
  exactSum size (if r.isLeaf then .ofNat row.leafChild else .ofNat row.gotoSlot)

/-! ### Statements -/

/-- Emit the statements of a node when `spent` has been spent before. They come with what has been
spent after them. -/
def Statement.emit (row : CostRow) (budget : UInt32) (index : NodeId → Option Nat) :
    Node → UInt32 → Except EmissionError (Statement × UInt32)
  | .leaf _ p, spent => .ok (.ret p, spent)
  | .split m f t l r, spent => do
      let c ← row.splitSum l r
      if budget < saturatingSum spent c then
        match index m.id with
        | some entry => .ok (.fallback m.id entry, spent)
        | none => .error (.compile (.missingEntry m.id))
      else
        let size ← exactSum spent c
        if l.LeftHot r then
          let (a, size) ← emit row budget index l size
          let (b, size) ← emit row budget index r size
          pure (.branch m.id ⟨f, .lessEqual, t⟩ a b, size)
        else
          let (a, size) ← emit row budget index r size
          let (b, size) ← emit row budget index l size
          pure (.branch m.id ⟨f, .greater, t⟩ a b, size)

end TreeCode
