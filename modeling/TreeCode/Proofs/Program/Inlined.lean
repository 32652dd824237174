import TreeCode.Proofs.CType.Order
import TreeCode.Proofs.Inline.Emission
import TreeCode.Proofs.Program.Decoding
import TreeCode.Proofs.Program.Report
import TreeCode.Proofs.Table.Runs

/-! # Programs that are inlined as a whole

The cost of all splits is the least budget under which nothing is left to the table. From there on
the function has a branch for every split, always ends in a return, and has none of the lines that
belong to the loop; under any smaller budget it has a jump (`Draft.inlined_iff`). -/

namespace TreeCode

/-! ### Running -/

namespace Statement

variable {s : Statement} {x : FeatureVector}

/-- Code for a node runs to its end on a vector that is long enough. -/
theorem CodeFor.exists_execute {index : NodeId → Option Nat} {n : Node} {dim : UInt32}
    (h : s.CodeFor index n) (hwf : n.WellFormed dim) (hx : dim.toNat ≤ x.size) :
    ∃ o, s.execute x = .ok o := by
  have hread {m : Mark} {f : UInt32} {t : Float} {l r : Node}
      (hwf : (Node.split m f t l r).WellFormed dim) : ∃ v, x.read f = .ok v := by
    have hf := UInt32.lt_iff_toNat_lt.1 (hwf.split (Node.mem_subtrees_self _)).1
    exact ⟨_, FeatureVector.read_of_lt (by omega)⟩
  induction h with
  | ret => exact ⟨_, rfl⟩
  | fallback hi => exact ⟨_, rfl⟩
  | leftFirst hhot ha hb iha ihb =>
      obtain ⟨v, hv⟩ := hread hwf
      rw [execute_of_read hv]
      split_ifs
      · exact iha (hwf.of_mem_subtrees Node.left_mem_subtrees)
      · exact ihb (hwf.of_mem_subtrees Node.right_mem_subtrees)
  | rightFirst hhot ha hb iha ihb =>
      obtain ⟨v, hv⟩ := hread hwf
      rw [execute_of_read hv]
      split_ifs
      · exact iha (hwf.of_mem_subtrees Node.right_mem_subtrees)
      · exact ihb (hwf.of_mem_subtrees Node.left_mem_subtrees)

theorem exists_ret_of_execute (h : s.fallbackSites = 0) {o : Outcome}
    (ho : s.execute x = .ok o) : ∃ v, o = .ret v := by
  induction s with
  | ret v =>
      cases ho
      exact ⟨v, rfl⟩
  | branch node test a b iha ihb =>
      rw [fallbackSites, Nat.add_eq_zero_iff] at h
      obtain ⟨v, -, ho⟩ := bind_eq_ok_iff.1 ho
      split at ho
      · exact iha h.1 ho
      · exact ihb h.2 ho
  | fallback node entry => exact absurd h Nat.one_ne_zero

end Statement

/-! ### Lines of the loop -/

/-- The lines that a function has for the sake of its loop: the cursor is declared, set before each
jump, and read where the loop starts. -/
inductive CursorText (label : String) : String → Prop
  | declare (type : CType) : CursorText label s!"{type.name} subroot;"
  | set (entry : Nat) : CursorText label s!"subroot = {entry};"
  | jump : CursorText label s!"goto {label};"
  | read (type : CType) : CursorText label s!"{type.name} i = subroot;"

/-- Not a statement, or a return. -/
def Quiet (s : String) : Prop :=
  s.toList.getLast? ≠ some ';' ∨ s.toList.head? = some 'r' ∨ s.toList.head? = some '\x7d'

instance (s : String) : Decidable (Quiet s) := inferInstanceAs (Decidable (_ ∨ _))

theorem quiet_append {s last : String} {c : Char} (hlast : last.toList.getLast? = some c)
    (hc : c ≠ ';') : Quiet (s ++ last) := by
  refine .inl ?_
  rw [String.toList_append, List.getLast?_append, hlast]
  simpa using hc

theorem not_quiet_of_eq {s : String} {c : Char} {cs : List Char}
    (hs : s.toList = (c :: cs) ++ [';']) (hc : c ≠ 'r' ∧ c ≠ '}') : ¬Quiet s := by
  rw [Quiet, hs, List.getLast?_append]
  simp [hc]

/-- No name of a type starts as a return does. -/
theorem CType.exists_name_eq (type : CType) :
    ∃ c cs, type.name.toList = c :: cs ∧ c ≠ 'r' ∧ c ≠ '\x7d' := by
  cases type with
  | unsigned w => cases w <;> exact ⟨_, _, rfl, by decide⟩
  | signed w => cases w <;> exact ⟨_, _, rfl, by decide⟩
  | float => exact ⟨_, _, rfl, by decide⟩
  | double => exact ⟨_, _, rfl, by decide⟩

theorem CursorText.not_quiet {label s : String} (h : CursorText label s) : ¬Quiet s := by
  cases h with
  | declare type =>
      obtain ⟨c, cs, hname, hc⟩ := type.exists_name_eq
      have htext : (s!"{type.name} subroot;").toList =
          (c :: (cs ++ " subroot".toList)) ++ [';'] := by
        simp [toString_string, hname]
      exact not_quiet_of_eq htext hc
  | set entry =>
      have htext : (s!"subroot = {entry};").toList =
          ('s' :: ("ubroot = ".toList ++ natText entry)) ++ [';'] := by
        simp only [String.toList_append, toList_toString_nat]
        rfl
      exact not_quiet_of_eq htext (by decide)
  | jump =>
      have htext : (s!"goto {label};").toList =
          ('g' :: ("oto ".toList ++ label.toList)) ++ [';'] := by
        simp [toString_string]
      exact not_quiet_of_eq htext (by decide)
  | read type =>
      obtain ⟨c, cs, hname, hc⟩ := type.exists_name_eq
      have htext : (s!"{type.name} i = subroot;").toList =
          (c :: (cs ++ " i = subroot".toList)) ++ [';'] := by
        simp [toString_string, hname]
      exact not_quiet_of_eq htext hc

theorem Statement.quiet_listing {s : Statement} (h : s.fallbackSites = 0) (type : CType)
    (label : String) (d : Nat) : ∀ l ∈ s.listing type label d, Quiet l.text := by
  induction s generalizing d with
  | ret v =>
      intro l hl
      obtain rfl := List.mem_singleton.1 hl
      have htext : (s!"return {v};").toList =
          'r' :: ("eturn ".toList ++ natText v.toNat ++ [';']) := by
        simp only [String.toList_append, toList_toString_uint32]
        rfl
      exact .inr (.inl (by rw [htext]; rfl))
  | branch node test a b iha ihb =>
      rw [fallbackSites, Nat.add_eq_zero_iff] at h
      have hif : Quiet (s!"if ({test.condition type}) " ++ "\x7b") := quiet_append rfl (by decide)
      intro l hl
      simp only [listing, List.cons_append, List.mem_cons, List.mem_append, List.not_mem_nil,
        or_false] at hl
      rcases hl with rfl | (hl | rfl | hl) | rfl
      · exact hif
      · exact iha h.1 (d + 1) l hl
      · exact show Quiet "\x7d else \x7b" by decide
      · exact ihb h.2 (d + 1) l hl
      · exact show Quiet "\x7d" by decide
  | fallback node entry => exact absurd h Nat.one_ne_zero

namespace Program

variable {p : Program} (h : p.body.fallbackSites = 0)
include h

theorem definitionLines_eq : p.definitionLines =
    p.titleLine :: (p.rowLines ++ (p.middleLines ++ (p.inlineLines ++ [⟨0, "\x7d"⟩]))) := by
  have htail : p.tailLines = [⟨0, "\x7d"⟩] := by simp [tailLines, hasFallback, h]
  rw [definitionLines_eq_append, htail]

theorem quiet_definitionLines : ∀ l ∈ p.definitionLines, Quiet l.text := by
  have hcursor : p.cursorLines = [] := by simp [cursorLines, hasFallback, h]
  rw [definitionLines_eq h, inlineLines, hcursor]
  intro l hl
  simp only [List.mem_cons, List.mem_append, List.nil_append, List.not_mem_nil, or_false] at hl
  rcases hl with rfl | hl | hl | hl | rfl
  · exact quiet_append rfl (by decide)
  · obtain ⟨e, -, rfl⟩ := List.mem_map.1 hl
    exact quiet_append rfl (by decide)
  · simp only [middleLines, List.mem_cons, List.not_mem_nil, or_false] at hl
    rcases hl with rfl | rfl | rfl
    · exact show Quiet "\x7d;" by decide
    · exact show Quiet "" by decide
    · exact quiet_append rfl (by decide)
  · exact Statement.quiet_listing h _ _ _ l hl
  · exact show Quiet "\x7d" by decide

/-- **Nothing in the text** of a definition without jumps belongs to a loop. -/
theorem not_cursorText_of_mem_readLines (hname : Inline p.tree.name) :
    ∀ l ∈ readLines p.definition.toList, ¬CursorText p.symbols.fallback l.text := by
  have hplain : ∀ l ∈ p.definitionLines, l.Plain := by
    rw [definitionLines_eq h]
    intro l hl
    simp only [List.mem_cons, List.mem_append, List.not_mem_nil, or_false] at hl
    rcases hl with rfl | hl | hl | hl | rfl
    · exact plain_titleLine hname
    · exact plain_rowLines l hl
    · exact plain_middleLines hname l hl
    · exact (plain_inlineLines hname l hl).1
    · exact show Inline "\x7d" by decide
  have hlines : readLines p.definition.toList = p.definitionLines ++ [⟨0, ""⟩] := by
    have hread := readLines_append hplain []
    rw [List.append_nil] at hread
    exact hread
  intro l hl hcursor
  rw [hlines, List.mem_append, List.mem_singleton] at hl
  rcases hl with hl | rfl
  · exact hcursor.not_quiet (quiet_definitionLines h l hl)
  · exact hcursor.not_quiet (show Quiet "" by decide)

end Program

/-! ### Trees that were built -/

namespace Draft

open Statement (emit)

variable {d : Draft} {head : NodeId} {t : Tree}

/-- **The least budget for the whole tree** is the cost of all splits. From there on the program has
no jump to the table: its inline code costs just that, has a branch for each split, always returns,
and no line of the definition belongs to the loop. Under a smaller budget there is a jump, and the
inline code costs less. These are the statements that are emitted in 32 bits. -/
theorem inlined_iff (hb : d.build head = .ok t) (c : Config) (treeId : UInt32) :
    ∃ p, Program.lower c t.annotate treeId = .ok p ∧
      (p.body.fallbackSites = 0 ↔ t.annotate.totalCostByNumbers c.architecture ≤ c.budget) ∧
      (t.annotate.totalCostByNumbers c.architecture ≤ c.budget →
        p.inlineSize = t.annotate.totalCostByNumbers c.architecture ∧
        p.body.inlineBranches = t.annotate.nodes.countP (!·.isLeaf) ∧
        (∀ x : FeatureVector, t.dim.toNat ≤ x.size → ∃ v, p.body.execute x = .ok (.ret v)) ∧
        ∀ l ∈ readLines p.definition.toList, ¬CursorText p.symbols.fallback l.text) ∧
      (c.budget < t.annotate.totalCostByNumbers c.architecture → 0 < p.body.fallbackSites ∧
        p.inlineSize < t.annotate.totalCostByNumbers c.architecture) ∧
      (t.annotate.totalCostByNumbers c.architecture < UInt32.size → c.budget < UInt32.size →
        emit (t.annotate.costRow c.architecture) (.ofNat c.budget) p.table.index?
          t.annotate.root 0 = .ok (p.body, .ofNat p.inlineSize)) := by
  have hroot := root_wellFormed_annotate hb
  have hnodes := nodes_annotate_perm hb
  obtain ⟨p, hp, hrealizes⟩ := Program.exists_lower (t := t.annotate) hroot.distinct rfl c treeId
  obtain ⟨-, hplan, hlink, hparts⟩ := Program.lower_eq_ok hp
  have htotal := Tree.totalCostByNumbers_eq_total hnodes c.architecture
  have hsites : p.body.fallbackSites = p.plan.deferred := Plan.fallbackSites_link hlink
  have hiff : p.body.fallbackSites = 0 ↔
      t.annotate.totalCostByNumbers c.architecture ≤ c.budget := by
    rw [hsites, hplan, Plan.deferred_eq_zero_iff (Nat.zero_le _), Nat.zero_add, htotal]
  refine ⟨p, hp, hiff, fun hle => ?_, fun hlt => ?_, fun hfits hbudget => ?_⟩
  · have hzero := hiff.2 hle
    have htree : p.tree = t.annotate := congrArg Program.tree hparts
    refine ⟨?_, ?_, fun x hx => ?_, ?_⟩
    · rw [Program.inlineSize, hplan, htotal]
      apply Plan.cost_eq_total
      rw [← hplan, ← hsites, hzero]
    · rw [hplan] at hlink
      obtain ⟨branches, sites, hbranches, hnodes', -, -, hperm⟩ := Plan.exists_branches hlink
      have hnil : sites = [] := by
        rw [← Statement.length_fallbackNodes, ← hnodes', List.length_map] at hzero
        exact List.length_eq_zero_iff.1 hzero
      rw [hnil, List.flatMap_nil, List.append_nil] at hperm
      rw [← Statement.length_branchNodes, ← hbranches, List.length_map, hperm.length_eq,
        hnodes.countP_eq, List.countP_eq_length_filter, Node.splits]
    · obtain ⟨o, ho⟩ := hrealizes.body.exists_execute hroot hx
      obtain ⟨v, rfl⟩ := Statement.exists_ret_of_execute hzero ho
      exact ⟨v, ho⟩
    · apply Program.not_cursorText_of_mem_readLines hzero
      rw [htree]
      exact show Inline t.name from inline_name_of_build hb
  · have hpos : 0 < p.body.fallbackSites := by
      apply Nat.pos_of_ne_zero
      intro hzero
      have := hiff.1 hzero
      omega
    refine ⟨hpos, ?_⟩
    rw [hsites, hplan] at hpos
    rw [Program.inlineSize, hplan, htotal]
    exact Plan.cost_lt_total (CostRow.split_pos_ofTarget _ _) hpos
  · apply Program.emit_root hp hbudget
    rw [htotal] at hfits
    exact .inr (by rwa [Nat.zero_add])

theorem inlined_iff_lopsided : lopsided.build 0 = .ok lopsidedTree ∧
    lopsidedTree.annotate.totalCostByNumbers .arm = 92 ∧
    (∃ p, Program.lower ((Config.ofArchitecture .arm).withBudget 92) lopsidedTree.annotate 0 =
        .ok p ∧ p.body.fallbackSites = 0 ∧ p.inlineSize = 92 ∧ p.body.inlineBranches = 2 ∧
        (∃ v, p.body.execute #[7, 7] = .ok (.ret v)) ∧
        ∀ l ∈ readLines p.definition.toList, ¬CursorText p.symbols.fallback l.text) ∧
    ∃ p, Program.lower ((Config.ofArchitecture .arm).withBudget 91) lopsidedTree.annotate 0 =
      .ok p ∧ 0 < p.body.fallbackSites ∧ p.inlineSize < 92 := by
  have htotal : lopsidedTree.annotate.totalCostByNumbers .arm = 92 := by decide
  have hcount : lopsidedTree.annotate.nodes.countP (!·.isLeaf) = 2 := by decide
  obtain ⟨p, hp, hiff, hall, -⟩ :=
    inlined_iff build_lopsided ((Config.ofArchitecture .arm).withBudget 92) 0
  obtain ⟨p', hp', -, -, hpart, -⟩ :=
    inlined_iff build_lopsided ((Config.ofArchitecture .arm).withBudget 91) 0
  have hle : lopsidedTree.annotate.totalCostByNumbers .arm ≤ 92 := Nat.le_of_eq htotal
  have hlt : 91 < lopsidedTree.annotate.totalCostByNumbers .arm := by omega
  obtain ⟨hsize, hbranches, hreturns, hlines⟩ := hall hle
  obtain ⟨hpos, hless⟩ := hpart hlt
  exact ⟨build_lopsided, htotal, ⟨p, hp, hiff.2 hle, hsize.trans htotal, hbranches.trans hcount,
    hreturns #[7, 7] (by decide), hlines⟩, p', hp', hpos, Nat.lt_of_lt_of_eq hless htotal⟩

end Draft
end TreeCode
