import TreeCode.Proofs.Inline.Branches
import TreeCode.Proofs.Program.Prediction

/-! # Programs under different budgets

A larger budget gives the same program as a smaller one, or one whose inline code is larger than
the smaller budget allows. So the size of the inline code does not shrink when the budget grows,
and the budget may be lowered to that size without any change (`same_or_larger`). The number of
inline branches does not shrink either; the number of jumps to the table does not grow if the
splits form a chain, and is never more than one then (`branches_mono`). -/

namespace TreeCode

/-! ### Parts of a program -/

namespace Program

variable {c : Config} {t : Tree} {treeId : UInt32} {p p' : Program}

/-- The plan decides: programs with the same plan differ in their budgets only. -/
theorem eq_of_plan_eq {b b' : Nat} (h : lower (c.withBudget b) t treeId = .ok p)
    (h' : lower (c.withBudget b') t treeId = .ok p') (hplan : p.plan = p'.plan) :
    p = { p' with config := c.withBudget b } := by
  obtain ⟨hpack, -, hlink, heq⟩ := lower_eq_ok h
  obtain ⟨hpack', -, hlink', heq'⟩ := lower_eq_ok h'
  have htable : p.table = p'.table := Except.ok.inj (hpack.symm.trans hpack')
  have hbody : p.body = p'.body := by
    rw [hplan, htable] at hlink
    exact Except.ok.inj (hlink.symm.trans hlink')
  rw [heq, heq', htable, hplan, hbody]

end Program

/-! ### Trees that were built -/

namespace Draft

variable {d : Draft} {head : NodeId} {t : Tree}

/-- **Two budgets** give the same inline code, or the larger one gives inline code of a size that
the smaller one does not reach. So the size never shrinks when the budget grows, and every budget
from the size of the inline code on gives the same program. -/
theorem same_or_larger (hb : d.build head = .ok t) (c : Config) (treeId : UInt32) {b b' : Nat}
    (h : b ≤ b') :
    ∃ p p', Program.lower (c.withBudget b) t.annotate treeId = .ok p ∧
      Program.lower (c.withBudget b') t.annotate treeId = .ok p' ∧
      (p.body = p'.body ∧ p.inlineSize = p'.inlineSize ∨ b < p'.inlineSize) ∧
      p.inlineSize ≤ p'.inlineSize ∧
      (p'.inlineSize ≤ b → p = { p' with config := c.withBudget b }) := by
  have hroot := root_wellFormed_annotate hb
  obtain ⟨p, hp, -⟩ :=
    Program.exists_lower (t := t.annotate) hroot.distinct rfl (c.withBudget b) treeId
  obtain ⟨p', hp', -⟩ :=
    Program.exists_lower (t := t.annotate) hroot.distinct rfl (c.withBudget b') treeId
  have hplan : p.plan = Plan.ofNode (t.annotate.costRow c.architecture) b t.annotate.root 0 :=
    (Program.lower_eq_ok hp).2.1
  have hplan' : p'.plan = Plan.ofNode (t.annotate.costRow c.architecture) b' t.annotate.root 0 :=
    (Program.lower_eq_ok hp').2.1
  have hsame (heq : p.plan = p'.plan) := Program.eq_of_plan_eq hp hp' heq
  refine ⟨p, p', hp, hp', ?_⟩
  rcases Plan.ofNode_eq_or_parts h t.annotate.root 0 with heq | hparts
  · rw [← hplan, ← hplan'] at heq
    have hsize : p.inlineSize = p'.inlineSize := congrArg Plan.cost heq
    refine ⟨.inl ⟨?_, hsize⟩, Nat.le_of_eq hsize, fun _ => hsame heq⟩
    rw [hsame heq]
  · rw [← hplan, ← hplan'] at hparts
    have hlt := hparts.lt_cost
    rw [Nat.zero_add] at hlt
    have hle : 0 + (Plan.ofNode (t.annotate.costRow c.architecture) b t.annotate.root 0).cost ≤ b :=
      Plan.add_cost_le t.annotate.root (Nat.zero_le b)
    rw [← hplan, Nat.zero_add] at hle
    exact ⟨.inr hlt, Nat.le_trans hle (Nat.le_of_lt hlt), fun h => absurd hlt (Nat.not_lt.2 h)⟩

/-- The first split costs 44 and the second one 48: the budget 91 buys what 44 does, and 92 more. -/
theorem same_or_larger_lopsided : lopsided.build 0 = .ok lopsidedTree ∧ 44 ≤ 91 ∧ 91 ≤ 92 ∧
    ∃ p p' p'',
      Program.lower ((Config.ofArchitecture .arm).withBudget 44) lopsidedTree.annotate 0 = .ok p ∧
      Program.lower ((Config.ofArchitecture .arm).withBudget 91) lopsidedTree.annotate 0 = .ok p' ∧
      Program.lower ((Config.ofArchitecture .arm).withBudget 92) lopsidedTree.annotate 0 =
        .ok p'' ∧
      p'.inlineSize = 44 ∧ p = { p' with config := (Config.ofArchitecture .arm).withBudget 44 } ∧
      91 < p''.inlineSize ∧ p''.inlineSize = 92 := by
  have hsizes : (Program.lower ((Config.ofArchitecture .arm).withBudget 91)
        lopsidedTree.annotate 0).map Program.inlineSize = .ok 44 ∧
      (Program.lower ((Config.ofArchitecture .arm).withBudget 92)
        lopsidedTree.annotate 0).map Program.inlineSize = .ok 92 := by decide +kernel
  obtain ⟨p, p', hp, hp', -, -, hsame⟩ :=
    same_or_larger build_lopsided (.ofArchitecture .arm) 0 (show 44 ≤ 91 by decide)
  obtain ⟨q, p'', hq, hp'', hlarger, -⟩ :=
    same_or_larger build_lopsided (.ofArchitecture .arm) 0 (show 91 ≤ 92 by decide)
  obtain rfl : p' = q := Except.ok.inj (hp'.symm.trans hq)
  rw [hp', hp''] at hsizes
  have h44 : p'.inlineSize = 44 := Except.ok.inj hsizes.1
  have h92 : p''.inlineSize = 92 := Except.ok.inj hsizes.2
  rcases hlarger with ⟨-, hequal⟩ | hlarger
  · omega
  · exact ⟨build_lopsided, by decide, by decide, p, p', p'', hp, hp', hp'', h44,
      hsame (Nat.le_of_eq h44), hlarger, h92⟩

/-- **A larger budget** never gives fewer inline branches, whatever the comparisons work on. If the
splits of the tree form a chain, there is at most one jump to the table, and not one more under a
larger budget. -/
theorem branches_mono (hb : d.build head = .ok t) (a : Architecture) (o : Operand)
    {kernelSize b b' : Nat} (hk : 0 < kernelSize) (h : b ≤ b') :
    ∃ table s s', Table.pack t.annotate kernelSize = .ok table ∧
      (Plan.ofNode (.ofTarget a o) b t.annotate.root 0).link table.index? = .ok s ∧
      (Plan.ofNode (.ofTarget a o) b' t.annotate.root 0).link table.index? = .ok s' ∧
      s.inlineBranches ≤ s'.inlineBranches ∧
      (t.root.isCaterpillar = true →
        s.fallbackSites ≤ 1 ∧ s'.fallbackSites ≤ s.fallbackSites) := by
  have hroot := root_wellFormed_annotate hb
  obtain ⟨table, hpack, htable⟩ := Table.exists_pack hroot.distinct rfl hk
  have hindex : ∀ n ∈ t.annotate.root.subtrees, ∃ i, table.index? n.id = some i := by
    intro n hn
    obtain ⟨i, -, hi⟩ := htable.exists_index n hn
    exact ⟨i, hi⟩
  obtain ⟨s, hs, -⟩ := Plan.exists_link (.ofTarget a o) b hindex 0
  obtain ⟨s', hs', -⟩ := Plan.exists_link (.ofTarget a o) b' hindex 0
  refine ⟨table, s, s', hpack, hs, hs', ?_, fun hchain => ?_⟩
  · rw [Plan.inlineBranches_link hs, Plan.inlineBranches_link hs']
    exact Plan.length_costs_mono h (Nat.zero_le b)
  · have hchain : t.annotate.root.isCaterpillar = true := by
      rw [Tree.annotate, Node.isCaterpillar_annotate]
      exact hchain
    rw [Plan.fallbackSites_link hs, Plan.fallbackSites_link hs']
    exact ⟨Plan.deferred_le_one hchain, Plan.deferred_anti hchain h⟩

theorem branches_mono_lopsided : lopsided.build 0 = .ok lopsidedTree ∧ 0 < 8 ∧ 60 ≤ 92 ∧
    lopsidedTree.root.isCaterpillar = true ∧
    ∃ table s s', Table.pack lopsidedTree.annotate 8 = .ok table ∧
      (Plan.ofNode (.ofTarget .arm .float) 60 lopsidedTree.annotate.root 0).link table.index? =
        .ok s ∧
      (Plan.ofNode (.ofTarget .arm .float) 92 lopsidedTree.annotate.root 0).link table.index? =
        .ok s' ∧
      s.inlineBranches ≤ s'.inlineBranches ∧ s.inlineBranches = 1 ∧ s'.inlineBranches = 2 ∧
      s'.fallbackSites ≤ s.fallbackSites ∧ s.fallbackSites = 1 ∧ s'.fallbackSites = 0 := by
  have hchain : lopsidedTree.root.isCaterpillar = true := by decide
  obtain ⟨table, s, s', hpack, hs, hs', hle, hsites⟩ :=
    branches_mono build_lopsided .arm .float (show 0 < 8 by decide) (show 60 ≤ 92 by decide)
  have hbranches : s.inlineBranches = 1 ∧ s'.inlineBranches = 2 := by
    rw [Plan.inlineBranches_link hs, Plan.inlineBranches_link hs']
    decide
  have hjumps : s.fallbackSites = 1 ∧ s'.fallbackSites = 0 := by
    rw [Plan.fallbackSites_link hs, Plan.fallbackSites_link hs']
    decide
  exact ⟨build_lopsided, by decide, by decide, hchain, table, s, s', hpack, hs, hs', hle,
    hbranches.1, hbranches.2, (hsites hchain).2, hjumps.1, hjumps.2⟩

end Draft
end TreeCode
