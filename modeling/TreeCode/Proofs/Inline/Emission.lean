import TreeCode.Inline.Emission
import TreeCode.Proofs.Inline.Total
import TreeCode.Proofs.Program.Prediction

/-! # Emission in 32 bits

Under a budget that is not the greatest size the comparison is exact although its sum saturates:
where it saturates, the budget is exceeded anyway. So what is added afterwards always fits, and the
statements that are emitted are those of the plan, with the size that the plan spends
(`emit_eq`). Under the greatest size as the budget everything is inlined, so a sum is too large
exactly if the splits cost too much together (`emit_eq_overflow_iff`). -/

namespace TreeCode

open Statement (emit)

/-! ### Sums -/

section sums

variable {a b budget : UInt32}

theorem exactSum_ofNat {a b : Nat} (h : a + b < UInt32.size) :
    exactSum (.ofNat a) (.ofNat b) = .ok (.ofNat (a + b)) := by
  have ha : (UInt32.ofNat a).toNat = a := UInt32.toNat_ofNat_of_lt' (by omega)
  have hb : (UInt32.ofNat b).toNat = b := UInt32.toNat_ofNat_of_lt' (by omega)
  rw [exactSum, ha, hb, if_pos h, UInt32.ofNat_add]

/-- A saturated sum exceeds every budget but the greatest one. -/
theorem lt_saturatingSum_iff
    (h : budget.toNat < UInt32.size - 1 ∨ a.toNat + b.toNat < UInt32.size) :
    budget < saturatingSum a b ↔ budget.toNat < a.toNat + b.toNat := by
  rw [saturatingSum, UInt32.lt_iff_toNat_lt]
  split_ifs with hfits
  · rw [UInt32.toNat_add, Nat.mod_eq_of_lt hfits]
  · rw [UInt32.toNat_ofNat_of_lt' (by decide)]
    constructor <;> intro hlt <;> omega

/-- Nothing exceeds the greatest budget. -/
theorem not_lt_saturatingSum (h : UInt32.size - 1 ≤ budget.toNat) (a b : UInt32) :
    ¬budget < saturatingSum a b := by
  rw [UInt32.lt_iff_toNat_lt]
  have := (saturatingSum a b).toNat_lt_size
  omega

end sums

namespace CostRow

/-- The costs of all splits have 32 bits. -/
def Fits (row : CostRow) : Prop := row.base + 2 * row.leafChild + row.gotoSlot < UInt32.size

theorem fits_ofTarget (a : Architecture) (o : Operand) : (ofTarget a o).Fits := by
  cases a <;> cases o <;> simp [Fits, ofTarget, UInt32.size]

variable {row : CostRow} (h : row.Fits)
include h

theorem Fits.split_lt (l r : Node) : row.split l r < UInt32.size := by
  rw [Fits] at h
  rw [split]
  split_ifs <;> omega

/-- No part of the cost of a split is too large to be added. -/
theorem Fits.splitSum_eq (l r : Node) : row.splitSum l r = .ok (.ofNat (row.split l r)) := by
  rw [Fits] at h
  have hslot : exactSum (.ofNat row.base) (.ofNat row.gotoSlot) = _ := exactSum_ofNat (by omega)
  have hleaf : exactSum (.ofNat row.base) (.ofNat row.leafChild) = _ := exactSum_ofNat (by omega)
  have hleafSlot : exactSum (.ofNat (row.base + row.leafChild)) (.ofNat row.gotoSlot) = _ :=
    exactSum_ofNat (by omega)
  have hleaves : exactSum (.ofNat (row.base + row.leafChild)) (.ofNat row.leafChild) = _ :=
    exactSum_ofNat (by omega)
  rw [splitSum, split]
  cases l.isLeaf <;> cases r.isLeaf <;>
    simp only [reduceIte, Bool.false_eq_true, bind, Except.bind, pure, Except.pure, Nat.add_zero,
      hslot, hleaf, hleafSlot, hleaves]

end CostRow

/-- No sum of sizes at and below a node is too large: the budget is not the greatest size, or all
splits together have a cost of 32 bits. -/
def CostRow.Within (row : CostRow) (budget spent : Nat) (n : Node) : Prop :=
  budget < UInt32.size - 1 ∨ spent + row.total n < UInt32.size

namespace CostRow.Within

variable {row : CostRow} {budget spent : Nat} {m : Mark} {f : UInt32} {t : Float} {l r : Node}

theorem hotter (h : row.Within budget spent (.split m f t l r)) :
    row.Within budget (spent + row.split l r) (l.hotter r) := by
  rw [Within, total_split] at h
  rw [Within]
  omega

theorem sum (h : row.Within budget spent (.split m f t l r)) :
    budget < UInt32.size - 1 ∨ spent + row.split l r < UInt32.size := by
  rw [Within, total_split] at h
  omega

theorem colder (h : row.Within budget spent (.split m f t l r)) :
    row.Within budget (spent + row.split l r +
      (Plan.ofNode row budget (l.hotter r) (spent + row.split l r)).cost) (l.colder r) := by
  have hcost := Plan.cost_le_total row budget (l.hotter r) (spent + row.split l r)
  rw [Within, total_split] at h
  rw [Within]
  omega

end CostRow.Within

/-! ### Statements -/

/-- The condition under which the hotter child of a split comes next. -/
def Node.hotTest (l : Node) (f : UInt32) (t : Float) (r : Node) : Test :=
  ⟨f, if l.LeftHot r then .lessEqual else .greater, t⟩

theorem Plan.ofNode_of_le {row : CostRow} {m : Mark} {f : UInt32} {t : Float} {l r : Node}
    {budget spent : Nat} (h : spent + row.split l r ≤ budget) :
    ofNode row budget (.split m f t l r) spent =
      inline m.id (l.hotTest f t r) (row.split l r) (spent + row.split l r)
        (ofNode row budget (l.hotter r) (spent + row.split l r))
        (ofNode row budget (l.colder r) (spent + row.split l r +
          (ofNode row budget (l.hotter r) (spent + row.split l r)).cost)) := by
  rw [ofNode, Node.hotter, Node.colder, Node.hotTest]
  by_cases hhot : l.LeftHot r
  · simp only [if_neg (Nat.not_lt.2 h), if_pos hhot]
  · simp only [if_neg (Nat.not_lt.2 h), if_neg hhot]

namespace Plan

variable {row : CostRow} {index : NodeId → Option Nat}

/-- Nothing is spent once more than the budget has been spent. -/
theorem add_cost_le_max (row : CostRow) (budget spent : Nat) (n : Node) :
    spent + (ofNode row budget n spent).cost ≤ max spent budget := by
  rcases Nat.lt_or_ge budget spent with hlt | hle
  · have hzero : (ofNode row budget n spent).cost = 0 := by
      cases n with
      | leaf m p => rfl
      | split m f t l r =>
          rw [ofNode_of_lt (by omega)]
          rfl
    omega
  · have hspent : spent + (ofNode row budget n spent).cost ≤ budget := add_cost_le n hle
    omega

/-- What a plan emits when `spent` has been spent before it. -/
def emitted (index : NodeId → Option Nat) (spent : Nat) (p : Plan) :
    Except EmissionError (Statement × UInt32) :=
  match p.link index with
  | .ok s => .ok (s, .ofNat (spent + p.cost))
  | .error e => .error (.compile e)

/-- The two arms of a branch are emitted one after the other. -/
theorem emitted_inline {node : NodeId} {test : Test} {c size spent : Nat} {hot cold : Plan} :
    (inline node test c size hot cold).emitted index spent = (do
      let (a, _) ← hot.emitted index (spent + c)
      let (b, size) ← cold.emitted index (spent + c + hot.cost)
      pure (.branch node test a b, size)) := by
  unfold emitted
  rw [link]
  cases hot.link index with
  | error e => rfl
  | ok a =>
      cases cold.link index with
      | error e => rfl
      | ok b =>
          have hsize : spent + (inline node test c size hot cold).cost =
              spent + c + hot.cost + cold.cost := by
            rw [cost]
            omega
          rw [hsize]
          rfl

theorem emitted_arms {node : NodeId} {test : Test} {c size spent : Nat} {hot cold : Plan}
    {first second : UInt32 → Except EmissionError (Statement × UInt32)} {afterCost : UInt32}
    (hhot : first afterCost = hot.emitted index (spent + c))
    (hcold : second (.ofNat (spent + c + hot.cost)) = cold.emitted index (spent + c + hot.cost)) :
    (do
      let (a, size) ← first afterCost
      let (b, size) ← second size
      pure (Statement.branch node test a b, size)) =
      (inline node test c size hot cold).emitted index spent := by
  rw [emitted_inline, hhot, ← hcold]
  unfold emitted
  cases hot.link index <;> rfl

end Plan

namespace Statement

variable {row : CostRow} (hrow : row.Fits) {budget spent : UInt32} {index : NodeId → Option Nat}

section split

variable {m : Mark} {f : UInt32} {t : Float} {l r : Node}
include hrow

theorem emit_of_lt (h : budget < saturatingSum spent (.ofNat (row.split l r))) :
    emit row budget index (.split m f t l r) spent =
      (Plan.defer m.id spent.toNat).emitted index spent.toNat := by
  rw [emit, hrow.splitSum_eq]
  simp only [bind, Except.bind, if_pos h, Plan.emitted, Plan.link, Plan.cost]
  cases index m.id <;> simp

theorem emit_of_not_lt (h : ¬budget < saturatingSum spent (.ofNat (row.split l r))) :
    emit row budget index (.split m f t l r) spent = (do
      let size ← exactSum spent (.ofNat (row.split l r))
      let (a, size) ← emit row budget index (l.hotter r) size
      let (b, size) ← emit row budget index (l.colder r) size
      pure (.branch m.id (l.hotTest f t r) a b, size)) := by
  rw [emit, hrow.splitSum_eq, Node.hotter, Node.colder, Node.hotTest]
  by_cases hhot : l.LeftHot r
  · simp only [bind, Except.bind, if_neg h, if_pos hhot]
  · simp only [bind, Except.bind, if_neg h, if_neg hhot]

end split

include hrow

/-- Emission gives the statements of the plan, and no sum is too large, as long as the splits
can be paid for in 32 bits or the budget stops before. -/
theorem emit_eq_of_within {n : Node} (h : row.Within budget.toNat spent.toNat n) :
    emit row budget index n spent =
      (Plan.ofNode row budget.toNat n spent.toNat).emitted index spent.toNat := by
  induction n using Node.hotterRec generalizing spent with
  | leaf m p => simp [emit, Plan.ofNode, Plan.emitted, Plan.link, Plan.cost]
  | split m f t l r ihhot ihcold =>
      have hcost : (UInt32.ofNat (row.split l r)).toNat = row.split l r :=
        UInt32.toNat_ofNat_of_lt' (hrow.split_lt l r)
      have hover : budget < saturatingSum spent (.ofNat (row.split l r)) ↔
          budget.toNat < spent.toNat + row.split l r := by
        have hsum := h.sum
        rw [lt_saturatingSum_iff (by rwa [hcost]), hcost]
      by_cases hc : budget.toNat < spent.toNat + row.split l r
      · rw [emit_of_lt hrow (hover.2 hc), Plan.ofNode_of_lt hc]
      · -- the sum is within the budget, so it fits
        have hafter : (UInt32.ofNat (spent.toNat + row.split l r)).toNat =
            spent.toNat + row.split l r := by
          have := budget.toNat_lt_size
          exact UInt32.toNat_ofNat_of_lt' (by omega)
        have hsum : exactSum spent (.ofNat (row.split l r)) =
            .ok (.ofNat (spent.toNat + row.split l r)) := by
          have := budget.toNat_lt_size
          rw [← exactSum_ofNat (by omega), UInt32.ofNat_toNat]
        have hsecond : (UInt32.ofNat (spent.toNat + row.split l r +
            (Plan.ofNode row budget.toNat (l.hotter r) (spent.toNat + row.split l r)).cost)).toNat =
            spent.toNat + row.split l r +
              (Plan.ofNode row budget.toNat (l.hotter r) (spent.toNat + row.split l r)).cost := by
          have hspent := Plan.add_cost_le_max row budget.toNat (spent.toNat + row.split l r)
            (l.hotter r)
          have := budget.toNat_lt_size
          exact UInt32.toNat_ofNat_of_lt' (by omega)
        rw [emit_of_not_lt hrow fun hlt => hc (hover.1 hlt), hsum,
          Plan.ofNode_of_le (Nat.le_of_not_lt hc)]
        apply Plan.emitted_arms
        · rw [ihhot (by rw [hafter]; exact h.hotter), hafter]
        · rw [ihcold (by rw [hsecond]; exact h.colder), hsecond]

/-- **Emission** under a budget that is not the greatest size. -/
theorem emit_eq (hbudget : budget.toNat < UInt32.size - 1) (index : NodeId → Option Nat) (n : Node)
    (spent : UInt32) : emit row budget index n spent =
      (Plan.ofNode row budget.toNat n spent.toNat).emitted index spent.toNat :=
  emit_eq_of_within hrow (.inl hbudget)

/-- Everything is inlined if the budget allows it, whatever the positions. -/
theorem exists_emit_eq_ok (index : NodeId → Option Nat) {n : Node}
    (h : spent.toNat + row.total n ≤ budget.toNat) :
    ∃ s, emit row budget index n spent = .ok (s, .ofNat (spent.toNat + row.total n)) := by
  have hzero := Plan.deferred_eq_zero h
  obtain ⟨s, hs⟩ := Plan.exists_link_of_deferred_eq_zero index hzero
  have hwithin : row.Within budget.toNat spent.toNat n :=
    .inr (Nat.lt_of_le_of_lt h budget.toNat_lt_size)
  refine ⟨s, ?_⟩
  rw [emit_eq_of_within hrow hwithin, Plan.emitted, hs, Plan.cost_eq_total hzero]

/-- Under the greatest budget nothing is left to the table, and so some sum gets too large. -/
theorem exists_emit_eq_overflow {n : Node} (h : ¬row.Within budget.toNat spent.toNat n) :
    ∃ a b, emit row budget index n spent = .error (.overflow a b) := by
  induction n using Node.hotterRec generalizing spent with
  | leaf m p =>
      rw [CostRow.Within, CostRow.total] at h
      have := spent.toNat_lt_size
      omega
  | split m f t l r ihhot ihcold =>
      have hcost : (UInt32.ofNat (row.split l r)).toNat = row.split l r :=
        UInt32.toNat_ofNat_of_lt' (hrow.split_lt l r)
      have hbudget : UInt32.size - 1 ≤ budget.toNat := by
        rw [CostRow.Within] at h
        omega
      rw [emit_of_not_lt hrow (not_lt_saturatingSum hbudget _ _)]
      by_cases hfits : spent.toNat + row.split l r < UInt32.size
      · have hafter : (UInt32.ofNat (spent.toNat + row.split l r)).toNat =
            spent.toNat + row.split l r := UInt32.toNat_ofNat_of_lt' hfits
        have hsum : exactSum spent (.ofNat (row.split l r)) =
            .ok (.ofNat (spent.toNat + row.split l r)) := by
          rw [← exactSum_ofNat hfits, UInt32.ofNat_toNat]
        by_cases hhot : row.Within budget.toNat (spent.toNat + row.split l r) (l.hotter r)
        · -- the hotter side is inlined as a whole, so the sum that is too large comes after it
          have hfits : spent.toNat + row.split l r + row.total (l.hotter r) < UInt32.size := by
            rw [CostRow.Within] at hhot
            omega
          have hle : (UInt32.ofNat (spent.toNat + row.split l r)).toNat +
              row.total (l.hotter r) ≤ budget.toNat := by omega
          obtain ⟨s, hs⟩ := exists_emit_eq_ok hrow index hle
          have hcold : ¬row.Within budget.toNat
              (spent.toNat + row.split l r + row.total (l.hotter r)) (l.colder r) := by
            rw [CostRow.Within, CostRow.total_split] at h
            rw [CostRow.Within]
            omega
          rw [hafter] at hs
          rw [← UInt32.toNat_ofNat_of_lt' hfits] at hcold
          obtain ⟨a, b, herror⟩ := ihcold hcold
          exact ⟨a, b, by rw [hsum]; simp only [bind, Except.bind, hs, herror]⟩
        · obtain ⟨a, b, herror⟩ := ihhot (by rw [hafter]; exact hhot)
          exact ⟨a, b, by rw [hsum]; simp only [bind, Except.bind, herror]⟩
      · refine ⟨spent, .ofNat (row.split l r), ?_⟩
        rw [exactSum, hcost, if_neg hfits]
        rfl

/-- **A sum is too large** only under the greatest budget, whatever the positions. -/
theorem emit_eq_overflow_iff {n : Node} :
    (∃ a b, emit row budget index n spent = .error (.overflow a b)) ↔
      ¬row.Within budget.toNat spent.toNat n := by
  constructor
  · rintro ⟨a, b, herror⟩ hwithin
    rw [emit_eq_of_within hrow hwithin, Plan.emitted] at herror
    split at herror <;> cases herror
  · exact exists_emit_eq_overflow hrow

theorem within_of_ne_overflow {n : Node}
    (h : ∀ a b, emit row budget index n spent ≠ .error (.overflow a b)) :
    row.Within budget.toNat spent.toNat n := by
  by_contra hnot
  obtain ⟨a, b, herror⟩ := exists_emit_eq_overflow hrow hnot
  exact h a b herror

end Statement

/-- The body of a program is what is emitted for the root of the tree. -/
theorem Program.emit_root {c : Config} {t : Tree} {treeId : UInt32} {p : Program}
    (h : lower c t treeId = .ok p) (hbudget : c.budget < UInt32.size)
    (hwithin : (t.costRow c.architecture).Within c.budget 0 t.root) :
    emit (t.costRow c.architecture) (.ofNat c.budget) p.table.index? t.root 0 =
      .ok (p.body, .ofNat p.inlineSize) := by
  obtain ⟨-, hplan, hlink, -⟩ := lower_eq_ok h
  have hnat : (UInt32.ofNat c.budget).toNat = c.budget := UInt32.toNat_ofNat_of_lt' hbudget
  have hrow : (t.costRow c.architecture).Fits := CostRow.fits_ofTarget c.architecture t.operand
  have hzero : UInt32.toNat 0 = 0 := rfl
  rw [Statement.emit_eq_of_within hrow (by rwa [hnat]), hnat, hzero, ← hplan, Plan.emitted, hlink,
    Nat.zero_add]
  rfl

end TreeCode
