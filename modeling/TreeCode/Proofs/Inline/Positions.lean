import TreeCode.Proofs.Inline.Greedy
import TreeCode.Proofs.Program.Report

/-! # Emission under different positions

What is inlined does not depend on the positions of the nodes in the table. Two statements that are
emitted for the same node under different positions are alike: only the entries differ that their
jumps go to (`link_alike`). Emission fails for want of a position exactly if a node that is left to
the table has none, and reports the first such node (`link_eq_error_iff`). -/

namespace TreeCode

/-! ### Statements that are alike -/

/-- Two statements that differ only in their jumps, which go to the positions of the same nodes. -/
inductive Statement.Alike (index index' : NodeId → Option Nat) : Statement → Statement → Prop
  | ret {p} : Alike index index' (.ret p) (.ret p)
  | branch {node test a a' b b'} (ha : Alike index index' a a') (hb : Alike index index' b b') :
      Alike index index' (.branch node test a b) (.branch node test a' b')
  | fallback {node i i'} (hi : index node = some i) (hi' : index' node = some i') :
      Alike index index' (.fallback node i) (.fallback node i')

namespace Plan

variable {index index' : NodeId → Option Nat} {p : Plan} {s s' : Statement}

/-- The nodes that are left to the table, in the order of their decisions. -/
def deferredNodes : Plan → List NodeId
  | ret _ => []
  | inline _ _ _ _ hot cold => hot.deferredNodes ++ cold.deferredNodes
  | defer node _ => [node]

/-- **Positions** only decide where the jumps go. -/
theorem link_alike (h : p.link index = .ok s) (h' : p.link index' = .ok s') :
    s.Alike index index' s' := by
  induction p generalizing s s' with
  | ret v =>
      cases h
      cases h'
      exact .ret
  | inline node test c size hot cold ihhot ihcold =>
      obtain ⟨a, b, ha, hb, rfl⟩ := link_inline_eq_ok_iff.1 h
      obtain ⟨a', b', ha', hb', rfl⟩ := link_inline_eq_ok_iff.1 h'
      exact .branch (ihhot ha ha') (ihcold hb hb')
  | defer node size =>
      obtain ⟨i, hi, rfl⟩ := link_defer_eq_ok_iff.1 h
      obtain ⟨i', hi', rfl⟩ := link_defer_eq_ok_iff.1 h'
      exact .fallback hi hi'

theorem fallbackNodes_link (h : p.link index = .ok s) : s.fallbackNodes = p.deferredNodes := by
  induction p generalizing s with
  | ret v =>
      cases h
      rfl
  | inline node test c size hot cold ihhot ihcold =>
      obtain ⟨a, b, ha, hb, rfl⟩ := link_inline_eq_ok_iff.1 h
      rw [Statement.fallbackNodes, ihhot ha, ihcold hb, deferredNodes]
  | defer node size =>
      obtain ⟨i, -, rfl⟩ := link_defer_eq_ok_iff.1 h
      rfl

/-- **The first node without a position** is reported. -/
theorem link_eq_error_iff {e : CompileError} : p.link index = .error e ↔
    ∃ node, p.deferredNodes.find? (fun node => (index node).isNone) = some node ∧
      e = .missingEntry node := by
  induction p generalizing e with
  | ret v => simp [link, deferredNodes]
  | inline node test c size hot cold ihhot ihcold =>
      rw [link, deferredNodes, List.find?_append]
      cases hhot : hot.link index with
      | error e' =>
          obtain ⟨site, hsite, rfl⟩ := ihhot.1 hhot
          rw [hsite]
          simp [bind, Except.bind, eq_comm]
      | ok a =>
          have hnone : hot.deferredNodes.find? (fun node => (index node).isNone) = none := by
            by_contra hsome
            obtain ⟨site, hsite⟩ := Option.ne_none_iff_exists'.1 hsome
            rw [ihhot.2 ⟨site, hsite, rfl⟩] at hhot
            cases hhot
          rw [hnone, Option.none_or, ← ihcold]
          cases cold.link index <;> simp [bind, Except.bind, pure, Except.pure]
  | defer node size =>
      rw [link, deferredNodes, List.find?_singleton]
      cases index node <;> simp [eq_comm]

end Plan

/-! ### Emission -/

namespace Statement

variable {index index' : NodeId → Option Nat} {row : CostRow} {budget spent : Nat} {n : Node}
  {s : Statement} {emitted : List (Statement × Node)}

/-- The nodes of the jumps in the list of what is emitted are those of the statement. -/
theorem GreedyFor.map_id_jumpNodes (h : s.GreedyFor row index budget spent n emitted) :
    (jumpNodes emitted).map Node.id = s.fallbackNodes := by
  have hpreorder (s : Statement) :
      (s.preorder.filter isFallback).flatMap fallbackNodes = s.fallbackNodes := by
    induction s with
    | ret p => rfl
    | branch node test a b iha ihb =>
        rw [Statement.preorder, List.filter_cons_of_neg (by simp [isFallback]), List.filter_append,
          List.flatMap_append, iha, ihb, fallbackNodes]
    | fallback node i => rfl
  have hcode {xs : List (Statement × Node)} (hxs : ∀ e ∈ xs, e.1.CodeFor index e.2) :
      (jumpNodes xs).map Node.id = ((xs.map Prod.fst).filter isFallback).flatMap fallbackNodes := by
    induction xs with
    | nil => rfl
    | cons e xs ih =>
        obtain ⟨he, hxs⟩ := List.forall_mem_cons.1 hxs
        have hsplit : jumpNodes (e :: xs) = jumpNodes [e] ++ jumpNodes xs := by
          rw [← jumpNodes_append, List.singleton_append]
        rw [hsplit, List.map_append, ih hxs, List.map_cons]
        obtain ⟨a, m⟩ := e
        cases he <;> rfl
  rw [hcode h.code, h.preorder, hpreorder]

section

variable {row : CostRow} (hrow : row.Fits) {budget spent : UInt32} {n : Node}
  {emitted : List (Statement × Node)} {size size' : UInt32}
include hrow

theorem plan_of_emit_eq_ok (h : emit row budget index n spent = .ok (s, size)) :
    (Plan.ofNode row budget.toNat n spent.toNat).link index = .ok s ∧
      size = .ofNat (spent.toNat + (Plan.ofNode row budget.toNat n spent.toNat).cost) := by
  have hwithin := within_of_ne_overflow hrow fun a b herror => by
    rw [h] at herror
    cases herror
  rw [emit_eq_of_within hrow hwithin, Plan.emitted] at h
  split at h
  · rename_i s' hs'
    cases h
    exact ⟨hs', rfl⟩
  · cases h

theorem emit_alike (h : emit row budget index n spent = .ok (s, size))
    {s' : Statement} (h' : emit row budget index' n spent = .ok (s', size')) :
    size = size' ∧ s.Alike index index' s' := by
  obtain ⟨hs, hsize⟩ := plan_of_emit_eq_ok hrow h
  obtain ⟨hs', hsize'⟩ := plan_of_emit_eq_ok hrow h'
  exact ⟨hsize.trans hsize'.symm, Plan.link_alike hs hs'⟩

/-- Emission fails for the first jump whose node has no position. -/
theorem emit_eq_error_iff {i : NodeId → Option Nat}
    (hgreedy : s.GreedyFor row i budget.toNat spent.toNat n emitted)
    (hs : (Plan.ofNode row budget.toNat n spent.toNat).link i = .ok s)
    (hsum : ∀ a b, emit row budget index n spent ≠ .error (.overflow a b)) (e : EmissionError) :
    emit row budget index n spent = .error e ↔
      ∃ site, (jumpNodes emitted).find? (fun a => (index a.id).isNone) = some site ∧
        e = .compile (.missingEntry site.id) := by
  have hnodes : (Plan.ofNode row budget.toNat n spent.toNat).deferredNodes =
      (jumpNodes emitted).map Node.id := by
    rw [hgreedy.map_id_jumpNodes, Plan.fallbackNodes_link hs]
  have hlink (e : CompileError) :
      (Plan.ofNode row budget.toNat n spent.toNat).link index = .error e ↔
        ∃ site, (jumpNodes emitted).find? (fun a => (index a.id).isNone) = some site ∧
          e = .missingEntry site.id := by
    rw [Plan.link_eq_error_iff, hnodes, List.find?_map]
    constructor
    · rintro ⟨node, hfind, rfl⟩
      obtain ⟨site, hsite, rfl⟩ := Option.map_eq_some_iff.1 hfind
      exact ⟨site, hsite, rfl⟩
    · rintro ⟨site, hsite, rfl⟩
      exact ⟨site.id, Option.map_eq_some_iff.2 ⟨site, hsite, rfl⟩, rfl⟩
  rw [emit_eq_of_within hrow (within_of_ne_overflow hrow hsum), Plan.emitted]
  constructor
  · intro h
    split at h
    · cases h
    · rename_i e' he'
      cases h
      obtain ⟨site, hsite, rfl⟩ := (hlink e').1 he'
      exact ⟨site, hsite, rfl⟩
  · rintro ⟨site, hsite, rfl⟩
    rw [(hlink _).2 ⟨site, hsite, rfl⟩]

end

end Statement

/-! ### Trees that were built -/

namespace Draft

open Statement (emit jumpNodes)

variable {d : Draft} {head : NodeId} {t : Tree}

/-- **Positions do not decide what is inlined.** At any node and after anything that has been spent
before, there is one list of what is emitted under all positions. Emission fails exactly if some
jump in it goes to a node without a position, and reports the first one. Under two kinds of
positions the statements are alike and the sizes are the same. So the kernel size does not change
the body of a program but for the entries that its jumps go to. -/
theorem emit_relocates (hb : d.build head = .ok t) :
    (∀ (a : Architecture) (o : Operand) (budget spent : UInt32), ∀ n ∈ t.annotate.root.subtrees,
      ∃ (s : Statement) (emitted : List (Statement × Node)),
        s.GreedyFor (.ofTarget a o) some budget.toNat spent.toNat n emitted ∧
        (∀ index, (∀ x y, emit (.ofTarget a o) budget index n spent ≠ .error (.overflow x y)) →
          ((∃ e, emit (.ofTarget a o) budget index n spent = .error e) ↔
            ∃ site ∈ jumpNodes emitted, index site.id = none) ∧
          ∀ e, emit (.ofTarget a o) budget index n spent = .error e ↔
            ∃ site, (jumpNodes emitted).find? (fun a => (index a.id).isNone) = some site ∧
              e = .compile (.missingEntry site.id)) ∧
        ∀ (index index' : NodeId → Option Nat) (s s' : Statement) (size size' : UInt32),
          emit (.ofTarget a o) budget index n spent = .ok (s, size) →
          emit (.ofTarget a o) budget index' n spent = .ok (s', size') →
            size = size' ∧ s.Alike index index' s') ∧
    ∀ (c c' : Config) (kernelSize : Nat) (treeId : UInt32),
      c.withKernelSize kernelSize = .ok c' →
      ∃ p p', Program.lower c t.annotate treeId = .ok p ∧
        Program.lower c' t.annotate treeId = .ok p' ∧ p.inlineSize = p'.inlineSize ∧
        p.body.Alike p.table.index? p'.table.index? p'.body := by
  have hroot := (root_wellFormed_annotate hb).distinct
  constructor
  · intro a o budget spent n _
    have hindex : n.Indexed some := fun a _ _ => ⟨a.id, rfl⟩
    obtain ⟨s, emitted, hs, -, hgreedy, -⟩ :=
      Plan.exists_greedy (.ofTarget a o) budget.toNat hindex spent.toNat
    have hrow := CostRow.fits_ofTarget a o
    refine ⟨s, emitted, hgreedy, fun index hsum => ?_, fun index index' s s' size size' h h' =>
      Statement.emit_alike hrow h h'⟩
    have herror := Statement.emit_eq_error_iff hrow hgreedy hs hsum
    refine ⟨?_, herror⟩
    rw [exists_congr herror, exists_comm]
    simp only [exists_and_left, exists_eq, and_true, ← Option.isSome_iff_exists,
      List.find?_isSome, Option.isNone_iff_eq_none]
  · intro c c' kernelSize treeId hkernel
    have hc' : c'.architecture = c.architecture ∧ c'.budget = c.budget := by
      rw [Config.withKernelSize] at hkernel
      split at hkernel
      · cases hkernel
        exact ⟨rfl, rfl⟩
      · cases hkernel
    obtain ⟨p, hp, -⟩ := Program.exists_lower (t := t.annotate) hroot rfl c treeId
    obtain ⟨p', hp', -⟩ := Program.exists_lower (t := t.annotate) hroot rfl c' treeId
    obtain ⟨-, hplan, hlink, -⟩ := Program.lower_eq_ok hp
    obtain ⟨-, hplan', hlink', -⟩ := Program.lower_eq_ok hp'
    have hsame : p'.plan = p.plan := by rw [hplan, hplan', hc'.1, hc'.2]
    rw [hsame] at hlink'
    exact ⟨p, p', hp, hp', by rw [Program.inlineSize, Program.inlineSize, hsame],
      Plan.link_alike hlink hlink'⟩

/-- Under this budget the second split is left to the table. -/
theorem emit_relocates_lopsided : lopsided.build 0 = .ok lopsidedTree ∧
    emit (.ofTarget .arm .float) 50 some lopsidedTree.annotate.root 0 =
      .ok (.branch 0 ⟨0, .greater, 1.5⟩ (.fallback 2 2) (.ret 10), 44) ∧
    emit (.ofTarget .arm .float) 50 (fun id => some (id + 7)) lopsidedTree.annotate.root 0 =
      .ok (.branch 0 ⟨0, .greater, 1.5⟩ (.fallback 2 9) (.ret 10), 44) ∧
    Statement.Alike some (fun id => some (id + 7))
      (.branch 0 ⟨0, .greater, 1.5⟩ (.fallback 2 2) (.ret 10))
      (.branch 0 ⟨0, .greater, 1.5⟩ (.fallback 2 9) (.ret 10)) ∧
    (Config.ofArchitecture .arm).withKernelSize 1 =
      .ok ⟨.arm, Config.defaultBudget, 1, Nat.one_pos⟩ ∧
    ∃ p p', Program.lower (.ofArchitecture .arm) lopsidedTree.annotate 0 = .ok p ∧
      Program.lower ⟨.arm, Config.defaultBudget, 1, Nat.one_pos⟩ lopsidedTree.annotate 0 = .ok p' ∧
      p.inlineSize = p'.inlineSize ∧ p.body.Alike p.table.index? p'.table.index? p'.body := by
  obtain ⟨hemit, hlower⟩ := emit_relocates build_lopsided
  have hfirst : emit (.ofTarget .arm .float) 50 some lopsidedTree.annotate.root 0 =
      .ok (.branch 0 ⟨0, .greater, 1.5⟩ (.fallback 2 2) (.ret 10), 44) := by decide
  have hsecond : emit (.ofTarget .arm .float) 50 (fun id => some (id + 7))
      lopsidedTree.annotate.root 0 =
      .ok (.branch 0 ⟨0, .greater, 1.5⟩ (.fallback 2 9) (.ret 10), 44) := by decide
  obtain ⟨-, -, -, -, halike⟩ :=
    hemit .arm .float 50 0 lopsidedTree.annotate.root (Node.mem_subtrees_self _)
  have hkernel : (Config.ofArchitecture .arm).withKernelSize 1 =
      .ok ⟨.arm, Config.defaultBudget, 1, Nat.one_pos⟩ := rfl
  exact ⟨build_lopsided, hfirst, hsecond, (halike _ _ _ _ _ _ hfirst hsecond).2, hkernel,
    hlower _ _ 1 0 hkernel⟩

end Draft

end TreeCode
