import Mathlib.Algebra.BigOperators.Group.List.Basic
import TreeCode.Proofs.CType.Threshold
import TreeCode.Proofs.Tree.Numbers
import TreeCode.Target.Cost

/-! # The order of the nodes

A loop over all splits takes them in the order of their numbers, the recursion over the tree from
the top down. What such a loop finds does not depend on the order: whether some threshold has a
fractional part, the type for the range of the thresholds (`ofThresholdsByNumbers_eq`) and the
cost of all splits (`totalCostByNumbers_eq`). -/

namespace TreeCode

/-! ### Ranges -/

namespace Spans

variable {xs ys : List Float} {range range' : Option (Float × Float)}

/-- A number in the list is between the ends. -/
theorem between {x : Float} {p q v : ℚ} (hall : ∀ x ∈ xs, ∃ v, value? x = some v ∧ p ≤ v ∧ v ≤ q)
    (hx : x ∈ xs) (hv : value? x = some v) : p ≤ v ∧ v ≤ q := by
  obtain ⟨w, hw, hends⟩ := hall x hx
  obtain rfl := Option.some.inj (hw.symm.trans hv)
  exact hends

/-- Two ranges of the same integers have the same type. -/
theorem forRange_congr (h : Spans range xs) (h' : Spans range' ys) (hxy : xs.Perm ys)
    (hint : ∀ x ∈ xs, ∃ n : Int, value? x = some (n : ℚ)) :
    CType.forRange range = CType.forRange range' := by
  match range, range', h, h' with
  | none, none, _, _ => rfl
  | none, some (low, high), h, ⟨hlow, _⟩ =>
      obtain rfl : xs = [] := h
      cases hxy.mem_iff.2 hlow
  | some (low, high), none, ⟨hlow, _⟩, h' =>
      obtain rfl : ys = [] := h'
      cases hxy.mem_iff.1 hlow
  | some (low, high), some (low', high'), ⟨hlow, hhigh, p, q, hp, hq, hall⟩,
      ⟨hlow', hhigh', p', q', hp', hq', hall'⟩ =>
      -- each range holds the ends of the other
      have hp_eq : p = p' := le_antisymm (between hall (hxy.mem_iff.2 hlow') hp').1
        (between hall' (hxy.mem_iff.1 hlow) hp).1
      have hq_eq : q = q' := le_antisymm (between hall' (hxy.mem_iff.1 hhigh) hq).2
        (between hall (hxy.mem_iff.2 hhigh') hq').2
      obtain ⟨lo, hlo⟩ := hint low hlow
      obtain ⟨hi, hhi⟩ := hint high hhigh
      have hlo' : value? low' = some (lo : ℚ) := by rw [hp', ← hp_eq, ← hp, hlo]
      have hhi' : value? high' = some (hi : ℚ) := by rw [hq', ← hq_eq, ← hq, hhi]
      simp only [CType.forRange, le_iff_of_value? value?_zero hlo,
        le_iff_of_value? value?_zero hlo', integerPart_of_value? hlo, integerPart_of_value? hlo',
        integerPart_of_value? hhi, integerPart_of_value? hhi']

end Spans

/-! ### Thresholds and costs from the top down -/

theorem Node.filterMap_threshold?_subtrees (n : Node) :
    n.subtrees.filterMap threshold? = n.thresholds := by
  induction n with
  | leaf m p => rfl
  | split m f t l r ihl ihr =>
      rw [subtrees, List.filterMap_cons, List.filterMap_append, ihl, ihr]
      rfl

theorem CostRow.sum_own_subtrees (row : CostRow) (n : Node) :
    (n.subtrees.map row.own).sum = row.total n := by
  induction n with
  | leaf m p => rfl
  | split m f t l r ihl ihr =>
      rw [Node.subtrees, List.map_cons, List.map_append, List.sum_cons, List.sum_append, ihl, ihr,
        own, total, Nat.add_assoc]

/-- The cost of all splits, if the numbers give each node once. -/
theorem Tree.totalCostByNumbers_eq_total {t : Tree} (hnodes : t.nodes.Perm t.root.subtrees)
    (a : Architecture) : t.totalCostByNumbers a = (t.costRow a).total t.root := by
  have hsum : t.totalCostByNumbers a = (t.nodes.map (t.costRow a).own).sum := by
    rw [Tree.totalCostByNumbers, List.sum_eq_foldl, List.foldl_map]
  rw [hsum, ← CostRow.sum_own_subtrees]
  exact (hnodes.map _).sum_eq

/-! ### Trees that were built -/

namespace Draft

variable {d : Draft} {head : NodeId} {t : Tree}

theorem thresholdsByNumbers_perm (hb : d.build head = .ok t) :
    t.thresholdsByNumbers.Perm t.root.thresholds := by
  rw [← Node.filterMap_threshold?_subtrees]
  exact (nodes_perm hb).filterMap Node.threshold?

theorem containsFloatByNumbers_eq (hb : d.build head = .ok t) :
    t.containsFloatByNumbers = t.containsFloat :=
  (thresholdsByNumbers_perm hb).any_eq

theorem spans_thresholdRangeByNumbers? (hb : d.build head = .ok t) :
    Spans t.thresholdRangeByNumbers? t.thresholdsByNumbers :=
  Spans.foldl (show Spans none [] from rfl) fun _ hx =>
    exists_value?_iff.2 ((build_wellFormed hb).isFinite ((thresholdsByNumbers_perm hb).mem_iff.1 hx))

/-- **The type of the thresholds** does not depend on the order in which they come. -/
theorem ofThresholdsByNumbers_eq (hb : d.build head = .ok t) :
    CType.ofThresholdsByNumbers t = CType.ofThresholds t := by
  unfold CType.ofThresholdsByNumbers CType.ofThresholds
  rw [containsFloatByNumbers_eq hb]
  cases hfloat : t.containsFloat with
  | true => rfl
  | false =>
      rw [if_neg Bool.false_ne_true, if_neg Bool.false_ne_true]
      have hperm := thresholdsByNumbers_perm hb
      rw [(spans_thresholdRangeByNumbers? hb).forRange_congr (spans_thresholdRange? hb) hperm
        fun x hx => t.exists_int_of_mem_thresholds hfloat (hperm.mem_iff.1 hx)]

/-- **The cost of all splits** does not depend on the order in which they come. -/
theorem totalCostByNumbers_eq (hb : d.build head = .ok t) (a : Architecture) :
    t.totalCostByNumbers a = (t.costRow a).total t.root :=
  Tree.totalCostByNumbers_eq_total (nodes_perm hb) a

end Draft
end TreeCode
