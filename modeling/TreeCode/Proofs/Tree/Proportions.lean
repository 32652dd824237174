import TreeCode.Proofs.Number.Ranking
import TreeCode.Proofs.Tree.Assignment

/-! # Probabilities are proportions

The shares of the children of a split are proportions, whatever is known of their counts. So all
probabilities of an annotated tree are, and no child is more probable than its parent
(`Tree.prob_annotate_le`). Then no node comes before one above it in the total order either
(`Node.Cools.totalRank_le`). -/

namespace TreeCode

/-- The shares of two children are proportions if the sum of their counts fits. -/
theorem proportion_shares {a b : Option UInt64}
    (h : ∀ i ∈ a, ∀ j ∈ b, i.toNat + j.toNat < UInt64.size) :
    Proportion (shares a b).1 ∧ Proportion (shares a b).2 := by
  by_cases hcounted : ∃ i j, a = some i ∧ b = some j ∧ 0 < i + j
  · obtain ⟨i, j, rfl, rfl, hpos⟩ := hcounted
    have hfits : i.toNat + j.toNat < 2 ^ 64 := h i rfl j rfl
    have hsum : (i + j).toNat = i.toNat + j.toNat := by
      rw [UInt64.toNat_add, Nat.mod_eq_of_lt hfits]
    have hpos : 0 < i.toNat + j.toNat := hsum ▸ UInt64.lt_iff_toNat_lt.1 hpos
    rw [shares_counted ‹_›, hsum]
    exact ⟨proportion_div (Nat.le_add_right _ _) hpos (by omega),
      proportion_div (Nat.le_add_left _ _) hpos (by omega)⟩
  · rw [shares_even fun i j hi hj => by
      by_contra hne
      exact hcounted ⟨i, j, hi, hj, UInt64.pos_iff_ne_zero.2 hne⟩]
    exact ⟨proportion_half, proportion_half⟩

namespace Node

/-- All probabilities are proportions, and no child is more probable than its parent. -/
structure Cools (n : Node) : Prop where
  proportion : ∀ a ∈ n.subtrees, Proportion a.prob
  le : ∀ a ∈ n.subtrees, ∀ c ∈ a.children, c.prob ≤ a.prob

variable {n a b : Node} {p : Float}

/-- **Probabilities fall** from the root to the leaves. -/
theorem cools_annotate (h : n.CountsFit) (hp : Proportion p) : (n.annotate p).Cools := by
  induction n generalizing p with
  | leaf m v =>
      constructor
      · intro a ha
        obtain rfl := List.mem_singleton.1 ha
        exact hp
      · intro a ha c hc
        obtain rfl := List.mem_singleton.1 ha
        simp [children] at hc
  | split m f t l r ihl ihr =>
      obtain ⟨hself, hl, hr⟩ := h
      obtain ⟨hleft, hright⟩ := proportion_shares hself
      have hpl := hp.mul hleft
      have hpr := hp.mul hright
      have ihl := ihl hl hpl.1
      have ihr := ihr hr hpr.1
      constructor
      · intro a ha
        simp only [annotate, subtrees, List.mem_cons, List.mem_append] at ha
        rcases ha with rfl | ha | ha
        · exact hp
        · exact ihl.proportion a ha
        · exact ihr.proportion a ha
      · intro a ha c hc
        simp only [annotate, subtrees, List.mem_cons, List.mem_append] at ha
        rcases ha with rfl | ha | ha
        · simp only [children, List.mem_cons, List.not_mem_nil, or_false] at hc
          rcases hc with rfl | rfl
          · rw [prob_annotate]
            exact hpl.2
          · rw [prob_annotate]
            exact hpr.2
        · exact ihl.le a ha c hc
        · exact ihr.le a ha c hc

theorem Cools.of_mem (h : n.Cools) (ha : a ∈ n.subtrees) : a.Cools where
  proportion b hb := h.proportion b (mem_subtrees_trans hb ha)
  le b hb := h.le b (mem_subtrees_trans hb ha)

/-- What is below a node does not come before it in the total order. -/
theorem Cools.totalRank_le (h : n.Cools) (hb : b ∈ n.subtrees) :
    totalRank b.prob ≤ totalRank n.prob := by
  induction n with
  | leaf m v =>
      obtain rfl := List.mem_singleton.1 hb
      exact Int.le_refl _
  | split m f t l r ihl ihr =>
      have hself := mem_subtrees_self (split m f t l r)
      have child {c : Node} (hc : c ∈ (split m f t l r).children) :
          totalRank c.prob ≤ totalRank (split m f t l r).prob :=
        ((h.proportion c (mem_subtrees_of_mem_children hc)).totalRank_le_iff
          (h.proportion _ hself)).2 (h.le _ hself c hc)
      simp only [subtrees, List.mem_cons, List.mem_append] at hb
      rcases hb with rfl | hb | hb
      · exact Int.le_refl _
      · exact (ihl (h.of_mem left_mem_subtrees) hb).trans (child (by simp [children]))
      · exact (ihr (h.of_mem right_mem_subtrees) hb).trans (child (by simp [children]))

end Node

/-- **Probabilities** of an annotated tree are between 0 and 1, and no child is more probable than
its parent. -/
theorem Tree.prob_annotate_le {t : Tree} (h : t.root.CountsFit) :
    ∀ n ∈ t.annotate.root.subtrees,
      0 ≤ n.prob ∧ n.prob ≤ 1 ∧ ∀ c ∈ n.children, c.prob ≤ n.prob := by
  have hcools : t.annotate.root.Cools := Node.cools_annotate h proportion_one
  intro n hn
  have hproportion := hcools.proportion n hn
  exact ⟨hproportion.zero_le, hproportion.le_one, hcools.le n hn⟩

end TreeCode
