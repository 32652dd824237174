import TreeCode.Proofs.Inline.Spending
import TreeCode.Proofs.Program.Prediction
import TreeCode.Proofs.Tree.Numbers
import TreeCode.Session

/-! # Reports

Each split of a tree is either a branch of the inline code or lies below a jump to the table, and
the size of the inline code is what its branches cost (`Plan.exists_branches`). Lowering a tree that
was built fails only if the tree was not annotated, and otherwise reports just that
(`lower_reports`). -/

namespace TreeCode

/-- The splits from a node down. -/
def Node.splits (n : Node) : List Node := n.subtrees.filter (!·.isLeaf)

namespace Statement

/-- The nodes of the branches, a branch before its arms. -/
def branchNodes : Statement → List NodeId
  | branch node _ a b => node :: (a.branchNodes ++ b.branchNodes)
  | _ => []

/-- The nodes of the jumps to the table. -/
def fallbackNodes : Statement → List NodeId
  | ret _ => []
  | branch _ _ a b => a.fallbackNodes ++ b.fallbackNodes
  | fallback node _ => [node]

theorem length_branchNodes (s : Statement) : s.branchNodes.length = s.inlineBranches := by
  induction s with
  | branch node test a b iha ihb =>
      rw [branchNodes, inlineBranches, List.length_cons, List.length_append, iha, ihb]
  | _ => rfl

theorem length_fallbackNodes (s : Statement) : s.fallbackNodes.length = s.fallbackSites := by
  induction s with
  | branch node test a b iha ihb => rw [fallbackNodes, fallbackSites, List.length_append, iha, ihb]
  | _ => rfl

end Statement

namespace Node

variable {m : Mark} {f : UInt32} {t : Float} {l r : Node}

theorem mem_splits_self {n : Node} (h : n.isLeaf = false) : n ∈ n.splits :=
  List.mem_filter.2 ⟨mem_subtrees_self n, by rw [h]; rfl⟩

theorem splits_split : (split m f t l r).splits = split m f t l r :: (l.splits ++ r.splits) := by
  rw [splits, subtrees, List.filter_cons_of_pos rfl, List.filter_append]
  rfl

theorem hotter_splits_perm (l r : Node) :
    ((hotter l r).splits ++ (colder l r).splits).Perm (l.splits ++ r.splits) := by
  have h := (hotter_subtrees_perm l r).filter (!·.isLeaf)
  rwa [List.filter_append, List.filter_append] at h

end Node

namespace Plan

variable {row : CostRow} {budget spent : Nat} {index : NodeId → Option Nat} {n : Node}
  {s : Statement}

open List in
/-- **Each split** from a node down is a branch of the inline code for the node, or lies below a
node that the code leaves to the table. The branches cost what their splits do. -/
theorem exists_branches (h : (ofNode row budget n spent).link index = .ok s) :
    ∃ branches sites : List Node, branches.map Node.id = s.branchNodes ∧
      sites.map Node.id = s.fallbackNodes ∧ (∀ n ∈ sites, n.isLeaf = false) ∧
      branches.mapM row.cost = .ok (ofNode row budget n spent).costs ∧
      (branches ++ sites.flatMap Node.splits).Perm n.splits := by
  induction n using Node.hotterRec generalizing spent s with
  | leaf m p =>
      cases h
      exact ⟨[], [], rfl, rfl, nofun, rfl, .refl _⟩
  | split m f t l r ihhot ihcold =>
      by_cases hc : spent + row.split l r ≤ budget
      · obtain ⟨test, heq⟩ := exists_ofNode_of_le row m f t l r
        rw [heq hc] at h ⊢
        obtain ⟨a, b, ha, hb, rfl⟩ := link_inline_eq_ok_iff.1 h
        obtain ⟨branches, sites, hbranches, hsites, hsplit, hcosts, hperm⟩ := ihhot ha
        obtain ⟨branches', sites', hbranches', hsites', hsplit', hcosts', hperm'⟩ := ihcold hb
        refine ⟨.split m f t l r :: (branches ++ branches'), sites ++ sites', ?_, ?_, ?_, ?_, ?_⟩
        · rw [List.map_cons, List.map_append, hbranches, hbranches']
          rfl
        · rw [List.map_append, hsites, hsites']
          rfl
        · exact List.forall_mem_append.2 ⟨hsplit, hsplit'⟩
        · rw [List.mapM_cons, List.mapM_append, hcosts, hcosts']
          rfl
        · rw [Node.splits_split, List.cons_append, List.flatMap_append]
          refine List.Perm.cons _ ?_
          calc branches ++ branches' ++ (sites.flatMap Node.splits ++ sites'.flatMap Node.splits)
              _ ~ (branches ++ sites.flatMap Node.splits) ++
                  (branches' ++ sites'.flatMap Node.splits) := by
                rw [List.append_assoc, List.append_assoc]
                exact (List.perm_append_comm_assoc _ _ _).append_left branches
              _ ~ (l.hotter r).splits ++ (l.colder r).splits := hperm.append hperm'
              _ ~ l.splits ++ r.splits := Node.hotter_splits_perm l r
      · rw [ofNode_of_lt (Nat.lt_of_not_le hc)] at h ⊢
        obtain ⟨entry, -, rfl⟩ := link_defer_eq_ok_iff.1 h
        exact ⟨[], [.split m f t l r], rfl, rfl, by simp [Node.isLeaf], rfl, by simp⟩

end Plan

theorem Tree.mapM_node? {t : Tree} (hroot : t.root.Distinct) {ns : List Node}
    (h : ∀ n ∈ ns, n ∈ t.root.subtrees) : (ns.map Node.id).mapM t.node? = some ns := by
  induction ns with
  | nil => rfl
  | cons n ns ih =>
      have hn := Tree.node?_eq hroot (h n List.mem_cons_self)
      rw [List.map_cons, List.mapM_cons, hn, ih fun a ha => h a (List.mem_cons_of_mem n ha)]
      rfl

/-! ### Sessions -/

/-- A session does not change what a tree is lowered to. -/
theorem Session.lower_snd (s : Session) (c : Config) (t : Tree) (treeId : UInt32) :
    (s.lower c t treeId).2 = Program.lower c t treeId := by
  unfold Session.lower lowerNamed
  cases Program.lower c t treeId <;> rfl

theorem Program.lower_of_not_annotated {t : Tree} (ha : t.annotated = false) (c : Config)
    (treeId : UInt32) : lower c t treeId = .error (.unannotatedTree t.name) := by
  unfold lower Table.pack
  rw [ha]
  rfl

/-! ### Trees that were built -/

namespace Draft

variable {d : Draft} {head : NodeId} {t : Tree}

/-- **Lowering** a tree that was built fails only if the tree was not annotated. Otherwise the
report counts the nodes as table entries and gives the cost of the inline branches as their size,
and each split is either an inline branch or below a jump to the table. -/
theorem lower_reports (hb : d.build head = .ok t) (c : Config) (treeId : UInt32) (s : Session) :
    (s.lower c t treeId).2 = .error (.unannotatedTree t.name) ∧
      ∃ p, (s.lower c t.annotate treeId).2 = .ok p ∧ p.report.tableEntries = t.nodeCount ∧
        ∃ (branches sites : List Node) (costs : List Nat),
          p.body.branchNodes.mapM t.annotate.node? = some branches ∧
          p.body.fallbackNodes.mapM t.annotate.node? = some sites ∧
          branches.mapM p.costRow.cost = .ok costs ∧ p.report.inlineSize = costs.sum ∧
          (branches ++ sites.flatMap Node.splits).Perm t.annotate.root.splits ∧
          p.report.inlineBranches + (sites.flatMap Node.splits).length =
            t.annotate.root.splits.length := by
  have hroot := (root_wellFormed_annotate hb).distinct
  obtain ⟨p, hp, hrealizes⟩ := Program.exists_lower (t := t.annotate) hroot rfl c treeId
  obtain ⟨-, hplan, hlink, hparts⟩ := Program.lower_eq_ok hp
  have hrow : p.costRow = t.annotate.costRow c.architecture := by rw [hparts, Program.costRow]
  rw [hplan] at hlink
  obtain ⟨branches, sites, hbranches, hsites, hsplit, hcosts, hperm⟩ := Plan.exists_branches hlink
  rw [← hplan] at hcosts
  have below {n : Node} (hn : n ∈ branches ++ sites.flatMap Node.splits) :
      n ∈ t.annotate.root.subtrees := List.mem_of_mem_filter (hperm.mem_iff.1 hn)
  have hself : ∀ n ∈ sites, n ∈ sites.flatMap Node.splits := fun n hn =>
    List.mem_flatMap.2 ⟨n, hn, Node.mem_splits_self (hsplit n hn)⟩
  refine ⟨?_, p, (s.lower_snd _ _ _).trans hp, ?_, branches, sites, p.plan.costs, ?_, ?_, ?_,
    p.plan.cost_eq_sum, hperm, ?_⟩
  · rw [s.lower_snd]
    exact Program.lower_of_not_annotated (annotated_of_build hb) c treeId
  · exact hrealizes.table.size.trans (Node.size_annotate 1 t.root)
  · rw [← hbranches]
    exact Tree.mapM_node? hroot fun n hn => below (List.mem_append_left _ hn)
  · rw [← hsites]
    exact Tree.mapM_node? hroot fun n hn => below (List.mem_append_right _ (hself n hn))
  · rw [hrow]
    exact hcosts
  · have hcount : p.report.inlineBranches = branches.length := by
      show p.body.inlineBranches = _
      rw [← Statement.length_branchNodes, ← hbranches, List.length_map]
    rw [hcount, ← List.length_append, hperm.length_eq]

theorem lower_reports_lopsided : lopsided.build 0 = .ok lopsidedTree ∧
    (Session.empty.lower (.ofArchitecture .intel) lopsidedTree 0).2 =
      .error (.unannotatedTree "t") ∧
    ∃ p, (Session.empty.lower (.ofArchitecture .intel) lopsidedTree.annotate 0).2 = .ok p ∧
      p.report.tableEntries = 5 ∧
      ∃ sites : List Node, p.body.fallbackNodes.mapM lopsidedTree.annotate.node? = some sites ∧
        p.report.inlineBranches + (sites.flatMap Node.splits).length = 2 := by
  obtain ⟨herror, p, hp, hentries, -, sites, -, -, hsites, -, -, -, hsplits⟩ :=
    lower_reports build_lopsided (.ofArchitecture .intel) 0 .empty
  have htwo : lopsidedTree.annotate.root.splits.length = 2 := by decide
  exact ⟨build_lopsided, herror, p, hp, hentries, sites, hsites, hsplits.trans htwo⟩

end Draft
end TreeCode
