import TreeCode.Proofs.Inline.Spending

/-! # Inlining everything

What a plan spends is at most the cost of all splits. It spends all of that if it leaves nothing to
the table, and less if it leaves something. So the least budget that leaves nothing to the table is
the cost of all splits, on top of what was spent before (`deferred_eq_zero_iff`). -/

namespace TreeCode

namespace CostRow

theorem total_split {row : CostRow} {m : Mark} {f : UInt32} {t : Float} {l r : Node} :
    row.total (.split m f t l r) =
      row.split l r + row.total (l.hotter r) + row.total (l.colder r) := by
  rw [total]
  rcases Node.hotter_colder_cases l r with ⟨hh, hc⟩ | ⟨hh, hc⟩ <;> rw [hh, hc]
  omega

theorem split_pos_ofTarget (a : Architecture) (o : Operand) (l r : Node) :
    0 < (ofTarget a o).split l r := by
  have hbase : 0 < (ofTarget a o).base := by cases a <;> cases o <;> decide
  rw [split]
  omega

end CostRow

namespace Plan

variable {row : CostRow} {budget spent : Nat} {n : Node}

/-- A split is never paid for twice. -/
theorem cost_le_total (row : CostRow) (budget : Nat) (n : Node) (spent : Nat) :
    (ofNode row budget n spent).cost ≤ row.total n := by
  induction n using Node.hotterRec generalizing spent with
  | leaf m p => exact Nat.le_refl 0
  | split m f t l r ihhot ihcold =>
      by_cases hc : spent + row.split l r ≤ budget
      · obtain ⟨test, heq⟩ := exists_ofNode_of_le row m f t l r
        have hhot := ihhot (spent + row.split l r)
        have hcold := ihcold (spent + row.split l r +
          (ofNode row budget (l.hotter r) (spent + row.split l r)).cost)
        rw [heq hc, cost, CostRow.total_split]
        omega
      · rw [ofNode_of_lt (Nat.lt_of_not_le hc)]
        exact Nat.zero_le _

/-- If nothing is left to the table, all splits are paid for. -/
theorem cost_eq_total (h : (ofNode row budget n spent).deferred = 0) :
    (ofNode row budget n spent).cost = row.total n := by
  induction n using Node.hotterRec generalizing spent with
  | leaf m p => rfl
  | split m f t l r ihhot ihcold =>
      by_cases hc : spent + row.split l r ≤ budget
      · obtain ⟨test, heq⟩ := exists_ofNode_of_le row m f t l r
        rw [heq hc, deferred, Nat.add_eq_zero_iff] at h
        rw [heq hc, cost, ihcold h.2, ihhot h.1, CostRow.total_split]
      · rw [ofNode_of_lt (Nat.lt_of_not_le hc)] at h
        exact absurd h Nat.one_ne_zero

/-- What is left to the table is not paid for. -/
theorem cost_lt_total (hrow : ∀ l r, 0 < row.split l r)
    (h : 0 < (ofNode row budget n spent).deferred) :
    (ofNode row budget n spent).cost < row.total n := by
  induction n using Node.hotterRec generalizing spent with
  | leaf m p => exact absurd h (Nat.lt_irrefl 0)
  | split m f t l r ihhot ihcold =>
      by_cases hc : spent + row.split l r ≤ budget
      · obtain ⟨test, heq⟩ := exists_ofNode_of_le row m f t l r
        have hhot := cost_le_total row budget (l.hotter r) (spent + row.split l r)
        have hcold := cost_le_total row budget (l.colder r) (spent + row.split l r +
          (ofNode row budget (l.hotter r) (spent + row.split l r)).cost)
        rw [heq hc, deferred, Nat.add_pos_iff_pos_or_pos] at h
        rw [heq hc, cost, CostRow.total_split]
        rcases h with h | h
        · have := ihhot h
          omega
        · have := ihcold h
          omega
      · rw [ofNode_of_lt (Nat.lt_of_not_le hc), CostRow.total_split]
        have hpos := hrow l r
        show 0 < _
        omega

theorem deferred_eq_zero (h : spent + row.total n ≤ budget) :
    (ofNode row budget n spent).deferred = 0 := by
  induction n using Node.hotterRec generalizing spent with
  | leaf m p => rfl
  | split m f t l r ihhot ihcold =>
      rw [CostRow.total_split] at h
      have hc : spent + row.split l r ≤ budget := by omega
      obtain ⟨test, heq⟩ := exists_ofNode_of_le row m f t l r
      have hhot := cost_le_total row budget (l.hotter r) (spent + row.split l r)
      rw [heq hc, deferred, ihhot (by omega), ihcold (by omega)]

/-- **The least budget** that leaves nothing to the table. -/
theorem deferred_eq_zero_iff (h : spent ≤ budget) :
    (ofNode row budget n spent).deferred = 0 ↔ spent + row.total n ≤ budget := by
  constructor
  · intro hzero
    rw [← cost_eq_total hzero]
    exact add_cost_le n h
  · exact deferred_eq_zero

/-- A plan that leaves nothing to the table is linked whatever the positions. -/
theorem exists_link_of_deferred_eq_zero (index : NodeId → Option Nat) {p : Plan}
    (h : p.deferred = 0) : ∃ s, p.link index = .ok s := by
  induction p with
  | ret p => exact ⟨_, rfl⟩
  | inline node test c size hot cold ihhot ihcold =>
      rw [deferred, Nat.add_eq_zero_iff] at h
      obtain ⟨a, ha⟩ := ihhot h.1
      obtain ⟨b, hb⟩ := ihcold h.2
      exact ⟨_, link_inline_eq_ok_iff.2 ⟨a, b, ha, hb, rfl⟩⟩
  | defer node size => exact absurd h Nat.one_ne_zero

end Plan
end TreeCode
