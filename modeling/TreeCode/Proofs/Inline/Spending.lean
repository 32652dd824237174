import Mathlib.Algebra.GroupWithZero.Nat
import TreeCode.Proofs.Inline.Correspondence
import TreeCode.Proofs.Tree.HotChains

/-! # What inlining spends

A plan decides on one split after the other, the hotter side of a split before the colder one,
and what the hotter side spends is missing on the colder one. So a larger budget may inline a
split early on and then lack the size for a later one that a smaller budget inlines. But the two
plans are the same up to the first split that only the larger budget can pay for
(`ofNode_eq_or_parts`), and from there on the smaller budget has less left than that split costs
(`Parts.sum_lt`). -/

namespace TreeCode

namespace Plan

variable {row : CostRow} {budget budget' spent : Nat} {n : Node} {m : Mark} {f : UInt32} {t : Float}
  {l r : Node}

theorem ofNode_of_lt (h : budget < spent + row.split l r) :
    ofNode row budget (.split m f t l r) spent = defer m.id spent := by
  rw [ofNode]
  exact if_pos h

/-- Whichever side is the hotter one, it decides on the comparison only. -/
theorem exists_ofNode_of_le (row : CostRow) (m : Mark) (f : UInt32) (t : Float) (l r : Node) :
    ∃ test, ∀ {budget spent}, spent + row.split l r ≤ budget →
      ofNode row budget (.split m f t l r) spent =
        inline m.id test (row.split l r) (spent + row.split l r)
          (ofNode row budget (l.hotter r) (spent + row.split l r))
          (ofNode row budget (l.colder r) (spent + row.split l r +
            (ofNode row budget (l.hotter r) (spent + row.split l r)).cost)) := by
  by_cases hhot : l.LeftHot r
  · refine ⟨⟨f, .lessEqual, t⟩, fun h => ?_⟩
    rw [ofNode, Node.hotter, Node.colder]
    simp only [if_neg (Nat.not_lt.2 h), if_pos hhot]
  · refine ⟨⟨f, .greater, t⟩, fun h => ?_⟩
    rw [ofNode, Node.hotter, Node.colder]
    simp only [if_neg (Nat.not_lt.2 h), if_neg hhot]

/-! ### Costs -/

/-- The costs of the inline branches, in the order of their decisions. -/
def costs : Plan → List Nat
  | inline _ _ c _ hot cold => c :: (hot.costs ++ cold.costs)
  | _ => []

/-- Number of splits that are left to the table. -/
def deferred : Plan → Nat
  | ret _ => 0
  | inline _ _ _ _ hot cold => hot.deferred + cold.deferred
  | defer .. => 1

theorem cost_eq_sum (p : Plan) : p.cost = p.costs.sum := by
  induction p with
  | inline node test c size hot cold ihhot ihcold =>
      rw [cost, costs, List.sum_cons, List.sum_append, ihhot, ihcold, Nat.add_assoc]
  | _ => rfl

/-- Every inline branch costs what some split does. -/
theorem exists_split_of_mem_costs {c : Nat} (h : c ∈ (ofNode row budget n spent).costs) :
    ∃ l r, c = row.split l r := by
  induction n using Node.hotterRec generalizing spent with
  | leaf m p => simp [ofNode, costs] at h
  | split m f t l r ihhot ihcold =>
      by_cases hc : spent + row.split l r ≤ budget
      · obtain ⟨test, heq⟩ := exists_ofNode_of_le row m f t l r
        rw [heq hc, costs, List.mem_cons, List.mem_append] at h
        rcases h with h | h | h
        · exact ⟨l, r, h⟩
        · exact ihhot h
        · exact ihcold h
      · rw [ofNode_of_lt (Nat.lt_of_not_le hc)] at h
        simp [costs] at h

/-- A budget is never overspent. -/
theorem add_cost_le (n : Node) (h : spent ≤ budget) :
    spent + (ofNode row budget n spent).cost ≤ budget := by
  induction n using Node.hotterRec generalizing spent with
  | leaf m p => exact h
  | split m f t l r ihhot ihcold =>
      by_cases hc : spent + row.split l r ≤ budget
      · obtain ⟨test, heq⟩ := exists_ofNode_of_le row m f t l r
        have := ihcold (ihhot hc)
        rw [heq hc, cost]
        omega
      · rw [ofNode_of_lt (Nat.lt_of_not_le hc)]
        exact h

/-! ### Two budgets -/

/-- Two plans that start at the same size inline the same splits, until the second one inlines a
split of a cost that `budget` does not reach any more. The first one has left it to the table. -/
def Parts (budget spent : Nat) (p p' : Plan) : Prop :=
  ∃ common c rest rest', p.costs = common ++ rest ∧ p'.costs = common ++ c :: rest' ∧
    budget < spent + common.sum + c ∧ 0 < p.deferred

section arms

variable {node : NodeId} {test : Test} {c size : Nat} {hot hot' cold cold' : Plan}

theorem Parts.of_hot (h : Parts budget (spent + c) hot hot') :
    Parts budget spent (inline node test c size hot cold) (inline node test c size hot' cold') := by
  obtain ⟨common, k, rest, rest', hp, hp', hlt, hd⟩ := h
  refine ⟨c :: common, k, rest ++ cold.costs, rest' ++ cold'.costs, ?_, ?_, ?_, ?_⟩
  · rw [costs, hp, List.cons_append, List.append_assoc]
  · rw [costs, hp', List.cons_append, List.append_assoc, List.cons_append]
  · rw [List.sum_cons]
    omega
  · rw [deferred]
    omega

theorem Parts.of_cold (h : Parts budget (spent + c + hot.cost) cold cold') :
    Parts budget spent (inline node test c size hot cold) (inline node test c size hot cold') := by
  obtain ⟨common, k, rest, rest', hp, hp', hlt, hd⟩ := h
  refine ⟨c :: (hot.costs ++ common), k, rest, rest', ?_, ?_, ?_, ?_⟩
  · rw [costs, hp, List.cons_append, List.append_assoc]
  · rw [costs, hp', List.cons_append, List.append_assoc]
  · rw [List.sum_cons, List.sum_append, ← cost_eq_sum]
    omega
  · rw [deferred]
    omega

end arms

/-- **Plans under two budgets** are the same, or they part where the smaller budget does not reach
any more. -/
theorem ofNode_eq_or_parts (h : budget ≤ budget') (n : Node) (spent : Nat) :
    ofNode row budget n spent = ofNode row budget' n spent ∨
      Parts budget spent (ofNode row budget n spent) (ofNode row budget' n spent) := by
  induction n using Node.hotterRec generalizing spent with
  | leaf m p => exact .inl rfl
  | split m f t l r ihhot ihcold =>
      obtain ⟨test, heq⟩ := exists_ofNode_of_le row m f t l r
      by_cases hc : spent + row.split l r ≤ budget
      · rw [heq hc, heq (Nat.le_trans hc h)]
        rcases ihhot (spent + row.split l r) with hhot | hhot
        · -- the hotter sides are the same, so the colder sides start at the same size
          rw [← hhot]
          rcases ihcold (spent + row.split l r +
            (ofNode row budget (l.hotter r) (spent + row.split l r)).cost) with hcold | hcold
          · rw [← hcold]
            exact .inl rfl
          · exact .inr hcold.of_cold
        · exact .inr hhot.of_hot
      · rw [ofNode_of_lt (Nat.lt_of_not_le hc)]
        by_cases hc' : spent + row.split l r ≤ budget'
        · -- only the larger budget pays for this split
          rw [heq hc']
          refine .inr ⟨[], row.split l r, [], _, rfl, rfl, ?_, Nat.one_pos⟩
          simpa using hc
        · rw [ofNode_of_lt (Nat.lt_of_not_le hc')]
          exact .inl rfl

namespace Parts

variable {p p' : Plan} (h : Parts budget spent p p')
include h

/-- The second plan spends more than the smaller budget has. -/
theorem lt_cost : budget < spent + p'.cost := by
  obtain ⟨common, c, rest, rest', -, hp', hlt, -⟩ := h
  rw [cost_eq_sum, hp', List.sum_append, List.sum_cons]
  omega

/-- What the first plan spends after the parting is less than the cost of the split there. -/
theorem sum_lt (hle : spent + p.cost ≤ budget) : ∃ common c rest rest',
    p.costs = common ++ rest ∧ p'.costs = common ++ c :: rest' ∧ rest.sum < c := by
  obtain ⟨common, c, rest, rest', hp, hp', hlt, -⟩ := h
  refine ⟨common, c, rest, rest', hp, hp', ?_⟩
  rw [cost_eq_sum, hp, List.sum_append] at hle
  omega

theorem deferred_pos : 0 < p.deferred := by
  obtain ⟨-, -, -, -, -, -, -, hd⟩ := h
  exact hd

end Parts

/-! ### Linking -/

variable {index : NodeId → Option Nat} {p : Plan} {s : Statement}

theorem inlineBranches_link (h : p.link index = .ok s) : s.inlineBranches = p.costs.length := by
  induction p generalizing s with
  | ret p =>
      cases h
      rfl
  | inline node test c size hot cold ihhot ihcold =>
      obtain ⟨a, b, ha, hb, rfl⟩ := link_inline_eq_ok_iff.1 h
      rw [Statement.inlineBranches, ihhot ha, ihcold hb, costs, List.length_cons,
        List.length_append]
  | defer node size =>
      obtain ⟨entry, -, rfl⟩ := link_defer_eq_ok_iff.1 h
      rfl

theorem fallbackSites_link (h : p.link index = .ok s) : s.fallbackSites = p.deferred := by
  induction p generalizing s with
  | ret p =>
      cases h
      rfl
  | inline node test c size hot cold ihhot ihcold =>
      obtain ⟨a, b, ha, hb, rfl⟩ := link_inline_eq_ok_iff.1 h
      rw [Statement.fallbackSites, ihhot ha, ihcold hb, deferred]
  | defer node size =>
      obtain ⟨entry, -, rfl⟩ := link_defer_eq_ok_iff.1 h
      rfl

end Plan
end TreeCode
