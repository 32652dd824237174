import TreeCode.Proofs.Inline.Spending
import TreeCode.Proofs.Tree.Built

/-! # Numbers of branches and jumps

No split costs as much as two others together (`CostRow.split_lt_two_mul`). So where two budgets
part, all that the smaller one can inline in place of the split that it lacks is a single other
one, and the larger budget has at least as many branches (`length_costs_mono`). In a tree whose
splits form a chain at most one split is left to the table (`deferred_le_one`). -/

namespace TreeCode

/-! ### Counting branches -/

/-- In every row the dearest split costs less than twice the cheapest. -/
theorem CostRow.split_lt_two_mul (a : Architecture) (o : Operand) (l r l' r' : Node) :
    (ofTarget a o).split l r < 2 * (ofTarget a o).split l' r' := by
  cases a <;> cases o <;> simp only [split, ofTarget] <;> split_ifs <;> omega

namespace Plan

variable {row : CostRow} {budget budget' spent : Nat} {n : Node} {a : Architecture} {o : Operand}

/-- After the parting there is at most one branch that only the smaller budget has inlined. -/
theorem length_costs_le_of_parts
    (h : Parts budget spent (ofNode (.ofTarget a o) budget n spent)
      (ofNode (.ofTarget a o) budget' n spent)) (hle : spent ≤ budget) :
    (ofNode (.ofTarget a o) budget n spent).costs.length ≤
      (ofNode (.ofTarget a o) budget' n spent).costs.length := by
  obtain ⟨common, c, rest, rest', hp, hp', hlt⟩ := h.sum_lt (add_cost_le n hle)
  have hc : c ∈ (ofNode (.ofTarget a o) budget' n spent).costs := by
    rw [hp']
    simp
  obtain ⟨l, r, rfl⟩ := exists_split_of_mem_costs hc
  have hrest : ∀ k ∈ rest, (CostRow.ofTarget a o).split l r < 2 * k := by
    intro k hk
    have hk : k ∈ (ofNode (.ofTarget a o) budget n spent).costs := by
      rw [hp]
      simp [hk]
    obtain ⟨l', r', rfl⟩ := exists_split_of_mem_costs hk
    exact CostRow.split_lt_two_mul a o l r l' r'
  rw [hp, hp', List.length_append, List.length_append, List.length_cons]
  match rest, hrest, hlt with
  | [], _, _ => simp
  | [k], _, _ => simp
  | k :: k' :: rest, hrest, hlt =>
      have := hrest k (by simp)
      have := hrest k' (by simp)
      simp only [List.sum_cons] at hlt
      omega

/-- **A larger budget** inlines at least as many splits. -/
theorem length_costs_mono (h : budget ≤ budget') (hle : spent ≤ budget) :
    (ofNode (.ofTarget a o) budget n spent).costs.length ≤
      (ofNode (.ofTarget a o) budget' n spent).costs.length := by
  rcases ofNode_eq_or_parts h n spent with heq | hparts
  · exact Nat.le_of_eq (by rw [heq])
  · exact length_costs_le_of_parts hparts hle

end Plan

/-! ### Chains of splits -/

namespace Node

/-- Every split has a leaf on at least one side. -/
def isCaterpillar : Node → Bool
  | leaf .. => true
  | split _ _ _ l r => (l.isLeaf || r.isLeaf) && (l.isCaterpillar && r.isCaterpillar)

theorem isLeaf_annotate (p : Float) (n : Node) : (n.annotate p).isLeaf = n.isLeaf := by
  cases n <;> rfl

theorem isCaterpillar_annotate (p : Float) (n : Node) :
    (n.annotate p).isCaterpillar = n.isCaterpillar := by
  induction n generalizing p with
  | leaf m v => rfl
  | split m f t l r ihl ihr => simp only [annotate, isCaterpillar, isLeaf_annotate, ihl, ihr]

end Node

namespace Plan

variable {row : CostRow} {budget budget' spent : Nat} {n : Node}

theorem deferred_of_isLeaf (h : n.isLeaf = true) : (ofNode row budget n spent).deferred = 0 := by
  cases n with
  | leaf m p => rfl
  | split m f t l r => cases h

/-- Only one side of a split can have a jump to the table. -/
theorem deferred_le_one (h : n.isCaterpillar = true) :
    (ofNode row budget n spent).deferred ≤ 1 := by
  induction n using Node.hotterRec generalizing spent with
  | leaf m p => exact Nat.zero_le 1
  | split m f t l r ihhot ihcold =>
      by_cases hc : spent + row.split l r ≤ budget
      · obtain ⟨test, heq⟩ := exists_ofNode_of_le row m f t l r
        rw [heq hc, deferred]
        simp only [Node.isCaterpillar, Bool.and_eq_true, Bool.or_eq_true] at h
        obtain ⟨hleaf, hl, hr⟩ := h
        have hside : (l.hotter r).isLeaf = true ∨ (l.colder r).isLeaf = true := by
          rcases Node.hotter_colder_cases l r with ⟨h₁, h₂⟩ | ⟨h₁, h₂⟩ <;> rw [h₁, h₂]
          · exact hleaf
          · exact hleaf.symm
        rcases hside with hside | hside
        · rw [deferred_of_isLeaf hside, Nat.zero_add]
          refine ihcold ?_
          rcases Node.hotter_colder_cases l r with ⟨-, h⟩ | ⟨-, h⟩ <;> rw [h] <;> assumption
        · rw [deferred_of_isLeaf hside, Nat.add_zero]
          refine ihhot ?_
          rcases Node.hotter_colder_cases l r with ⟨h, -⟩ | ⟨h, -⟩ <;> rw [h] <;> assumption
      · rw [ofNode_of_lt (Nat.lt_of_not_le hc)]
        exact Nat.le_refl 1

theorem deferred_anti (hn : n.isCaterpillar = true) (h : budget ≤ budget') :
    (ofNode row budget' n spent).deferred ≤ (ofNode row budget n spent).deferred := by
  rcases ofNode_eq_or_parts h n spent with heq | hparts
  · exact Nat.le_of_eq (by rw [heq])
  · exact Nat.le_trans (deferred_le_one hn) hparts.deferred_pos

end Plan

end TreeCode
