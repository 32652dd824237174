import TreeCode.Proofs.CType.Order
import TreeCode.Proofs.Inline.Spending
import TreeCode.Proofs.Program.Prediction
import TreeCode.Proofs.Table.Renumbering

/-! # Programs under other numbers

The numbers of the nodes do not matter. Two trees that differ in nothing but their numbers are
evaluated alike, get the same types, costs and probabilities, and are lowered to the same inline
code but for the numbers in it and the entries at which it goes on; and where the probabilities
leave no choice to the numbers, the tables have the same entries (`numbers_do_not_matter`). -/

namespace TreeCode

/-! ### Inline code -/

/-- Code is other code under other numbers, whatever the entries at which it goes on. -/
inductive Statement.Renumbers (σ : NodeId → NodeId) : Statement → Statement → Prop where
  | ret (prediction : UInt32) : Renumbers σ (.ret prediction) (.ret prediction)
  | branch (node : NodeId) (test : Test) {a b a' b' : Statement} :
      Renumbers σ a a' → Renumbers σ b b' →
        Renumbers σ (.branch node test a b) (.branch (σ node) test a' b')
  | fallback (node : NodeId) (entry entry' : Nat) :
      Renumbers σ (.fallback node entry) (.fallback (σ node) entry')

namespace Statement.Renumbers

variable {σ : NodeId → NodeId} {s s' : Statement}

theorem inlineBranches_eq (h : s.Renumbers σ s') : s'.inlineBranches = s.inlineBranches := by
  induction h with
  | branch node test ha hb iha ihb => rw [inlineBranches, iha, ihb, inlineBranches]
  | _ => rfl

theorem fallbackSites_eq (h : s.Renumbers σ s') : s'.fallbackSites = s.fallbackSites := by
  induction h with
  | branch node test ha hb iha ihb => rw [fallbackSites, iha, ihb, fallbackSites]
  | _ => rfl

end Statement.Renumbers

namespace Plan

/-- The plan with each number mapped. -/
def renumber (σ : NodeId → NodeId) : Plan → Plan
  | ret p => ret p
  | inline node test c size hot cold =>
      inline (σ node) test c size (hot.renumber σ) (cold.renumber σ)
  | defer node size => defer (σ node) size

variable (σ : NodeId → NodeId)

@[simp] theorem cost_renumber (p : Plan) : (p.renumber σ).cost = p.cost := by
  induction p with
  | inline node test c size hot cold ihhot ihcold => rw [renumber, cost, ihhot, ihcold, cost]
  | _ => rfl

/-- The decisions do not depend on the numbers. -/
theorem ofNode_renumber (row : CostRow) (budget : Nat) (n : Node) (spent : Nat) :
    ofNode row budget (n.renumber σ) spent = (ofNode row budget n spent).renumber σ := by
  induction n generalizing spent with
  | leaf m p => rfl
  | split m f t l r ihl ihr =>
      rw [Node.renumber_split, ofNode, ofNode]
      simp only [CostRow.split_renumber, Node.leftHot_renumber, ihl, ihr, cost_renumber]
      split_ifs <;> rfl

variable {σ} {index index' : NodeId → Option Nat}

/-- Whatever the positions, a plan under other numbers gives code under other numbers. -/
theorem renumbers_of_link {p : Plan} {s s' : Statement} (h : p.link index = .ok s)
    (h' : (p.renumber σ).link index' = .ok s') : s.Renumbers σ s' := by
  induction p generalizing s s' with
  | ret p =>
      cases h
      cases h'
      exact .ret p
  | inline node test c size hot cold ihhot ihcold =>
      obtain ⟨a, b, ha, hb, rfl⟩ := link_inline_eq_ok_iff.1 h
      obtain ⟨a', b', ha', hb', rfl⟩ := link_inline_eq_ok_iff.1 h'
      exact .branch node test (ihhot ha ha') (ihcold hb hb')
  | defer node size =>
      obtain ⟨entry, -, rfl⟩ := link_defer_eq_ok_iff.1 h
      obtain ⟨entry', -, rfl⟩ := link_defer_eq_ok_iff.1 h'
      exact .fallback node entry entry'

end Plan

/-! ### Trees that were built -/

namespace Draft

variable {d d' : Draft} {head head' : NodeId} {t t' : Tree} {σ : NodeId → NodeId}

theorem mem_ids_iff (hb : d.build head = .ok t) {id : NodeId} :
    id ∈ t.ids ↔ ∃ n ∈ t.annotate.root.subtrees, n.id = id := by
  rw [← List.mem_map, Tree.annotate, Node.ids_annotate, List.mem_map]
  constructor
  · rintro ⟨n, hn⟩
    exact ⟨n, Tree.mem_of_node? hn⟩
  · rintro ⟨n, hn, rfl⟩
    exact Tree.mem_ids_of_mem_subtrees (build_wellFormed hb).distinct hn

section renumbered

variable (hb : d.build head = .ok t) (hb' : d'.build head' = .ok t') (h : t.Renumbers σ t')
include hb hb' h

theorem root_annotate_eq_renumber : t'.annotate.root = t.annotate.root.renumber σ := by
  show t'.root.annotate 1 = (t.root.annotate 1).renumber σ
  rw [root_eq_renumber hb hb' h, Node.annotate_renumber]

theorem thresholds_eq : t'.root.thresholds = t.root.thresholds := by
  rw [root_eq_renumber hb hb' h, Node.thresholds_renumber]

theorem ofThresholds_eq : CType.ofThresholds t' = CType.ofThresholds t := by
  unfold CType.ofThresholds Tree.containsFloat Tree.thresholdRange?
  rw [thresholds_eq hb hb' h, h.featureType]

theorem costRow_eq (a : Architecture) : t'.costRow a = t.costRow a := by
  unfold Tree.costRow Tree.operand Tree.containsFloat
  rw [thresholds_eq hb hb' h]

theorem costRow_annotate_eq (a : Architecture) :
    t'.annotate.costRow a = t.annotate.costRow a := by
  unfold Tree.costRow Tree.operand Tree.containsFloat
  rw [root_annotate_eq_renumber hb hb' h, Node.thresholds_renumber]

/-- Corresponding nodes have the same probability. -/
theorem exists_node?_annotate {id : NodeId} {n : Node} (hn : t.annotate.node? id = some n) :
    ∃ n', t'.annotate.node? (σ id) = some n' ∧ n'.prob = n.prob := by
  obtain ⟨hmem, rfl⟩ := Tree.mem_of_node? hn
  refine ⟨n.renumber σ, ?_, Node.prob_renumber σ n⟩
  rw [← Node.id_renumber σ n]
  refine Tree.node?_eq (root_wellFormed_annotate hb').distinct ?_
  rw [root_annotate_eq_renumber hb hb' h, Node.subtrees_renumber]
  exact List.mem_map_of_mem hmem

/-- If no two nodes have the same probability, the tables differ in the numbers of their index
only. -/
theorem table_eq {kernelSize : Nat} (hk : 0 < kernelSize) {table table' : Table}
    (hpack : Table.pack t.annotate kernelSize = .ok table)
    (hpack' : Table.pack t'.annotate kernelSize = .ok table')
    (hprob : (t.annotate.nodes.map Node.prob).Nodup) : table'.entries = table.entries ∧
      ∀ id ∈ t.ids, table'.index? (σ id) = table.index? id := by
  have hroot := (root_wellFormed_annotate hb).distinct
  have hdistinct := ((nodes_annotate_perm hb).map Node.prob).nodup_iff.1 hprob
  have hrenumber : Table.pack t'.annotate kernelSize =
      (Table.pack t.annotate kernelSize).map (Table.renumber σ) :=
    Table.pack_renumber hroot hdistinct h.name rfl (root_annotate_eq_renumber hb hb' h)
  rw [hpack, hpack'] at hrenumber
  obtain rfl : table' = table.renumber σ := Except.ok.inj hrenumber
  obtain ⟨table₁, hpack₁, hrepresents⟩ := Table.exists_pack hroot rfl hk
  obtain rfl := Except.ok.inj (hpack.symm.trans hpack₁)
  refine ⟨rfl, fun id hid => ?_⟩
  obtain ⟨n, hn, rfl⟩ := (mem_ids_iff hb).1 hid
  refine hrepresents.index?_renumber (fun a ha b hab => ?_) hn
  exact h.bijOn.injOn ((mem_ids_iff hb).2 ⟨a, ha, rfl⟩) ((mem_ids_iff hb).2 ⟨b, hab, rfl⟩)

/-- Under every configuration the inline code is the same but for the numbers. -/
theorem exists_programs (c : Config) (treeId : UInt32) :
    ∃ p p', Program.lower c t.annotate treeId = .ok p ∧
      Program.lower c t'.annotate treeId = .ok p' ∧ p.body.Renumbers σ p'.body ∧
      p'.inlineSize = p.inlineSize ∧ p'.table.runs = p.table.runs ∧
      Table.pack t.annotate c.kernelSize = .ok p.table ∧
      Table.pack t'.annotate c.kernelSize = .ok p'.table := by
  have hroot := (root_wellFormed_annotate hb).distinct
  have hroot' := (root_wellFormed_annotate hb').distinct
  have hrenumber := root_annotate_eq_renumber hb hb' h
  obtain ⟨p, hp, -⟩ := Program.exists_lower hroot rfl c treeId
  obtain ⟨p', hp', -⟩ := Program.exists_lower hroot' rfl c treeId
  obtain ⟨hpack, hplan, hlink, -⟩ := Program.lower_eq_ok hp
  obtain ⟨hpack', hplan', hlink', -⟩ := Program.lower_eq_ok hp'
  have hplans : p'.plan = p.plan.renumber σ := by
    rw [hplan', hplan, costRow_annotate_eq hb hb' h, hrenumber, Plan.ofNode_renumber]
  rw [hplans] at hlink'
  refine ⟨p, p', hp, hp', Plan.renumbers_of_link hlink hlink', ?_, ?_, hpack, hpack'⟩
  · rw [Program.inlineSize, hplans, Plan.cost_renumber, Program.inlineSize]
  · exact Table.runs_renumber hroot hroot' rfl rfl hrenumber c.kernelSize_pos hpack hpack'

end renumbered

/-- **The numbers of the nodes do not matter.** Two trees that differ in their numbers only have
the same predictions, depth, types and costs, and their nodes the same probabilities. Under every
configuration their inline code differs in the numbers and the entries at which it goes on only, and
their tables have as many runs. If no two nodes have the same probability, the tables have the same
entries at the same positions. -/
theorem numbers_do_not_matter (hb : d.build head = .ok t) (hb' : d'.build head' = .ok t')
    (h : t.Renumbers σ t') :
    (∀ x, t'.evaluateByNumbers x = t.evaluateByNumbers x) ∧ t'.depth = t.depth ∧
      t'.containsFloatByNumbers = t.containsFloatByNumbers ∧
      CType.ofThresholdsByNumbers t' = CType.ofThresholdsByNumbers t ∧
      (∀ a, t'.totalCostByNumbers a = t.totalCostByNumbers a) ∧
      (∀ id n, t.annotateByNumbers.node? id = some n →
        ∃ n', t'.annotateByNumbers.node? (σ id) = some n' ∧ n'.prob = n.prob) ∧
      ∀ c treeId, ∃ p p', Program.lower c t.annotateByNumbers treeId = .ok p ∧
        Program.lower c t'.annotateByNumbers treeId = .ok p' ∧ p.body.Renumbers σ p'.body ∧
        p'.inlineSize = p.inlineSize ∧ p'.body.inlineBranches = p.body.inlineBranches ∧
        p'.body.fallbackSites = p.body.fallbackSites ∧ p'.table.runs = p.table.runs ∧
        ((t.annotateByNumbers.nodes.map Node.prob).Nodup →
          p'.table.entries = p.table.entries ∧
            ∀ id ∈ t.ids, p'.table.index? (σ id) = p.table.index? id) := by
  have hroot := (build_wellFormed hb).distinct
  have hroot' := (build_wellFormed hb').distinct
  have hrenumber := root_eq_renumber hb hb' h
  rw [Tree.annotateByNumbers_eq hroot, Tree.annotateByNumbers_eq hroot']
  refine ⟨fun x => ?_, ?_, ?_, ?_, fun a => ?_, fun id n hn => exists_node?_annotate hb hb' h hn,
    fun c treeId => ?_⟩
  · rw [Tree.evaluateByNumbers_eq hroot, Tree.evaluateByNumbers_eq hroot', Tree.evaluate,
      Tree.evaluate, hrenumber, Node.evaluate_renumber]
  · rw [Tree.depth_eq_height hroot, Tree.depth_eq_height hroot', hrenumber, Node.height_renumber]
  · rw [containsFloatByNumbers_eq hb, containsFloatByNumbers_eq hb', Tree.containsFloat,
      thresholds_eq hb hb' h, Tree.containsFloat]
  · rw [ofThresholdsByNumbers_eq hb, ofThresholdsByNumbers_eq hb', ofThresholds_eq hb hb' h]
  · rw [totalCostByNumbers_eq hb, totalCostByNumbers_eq hb', costRow_eq hb hb' h, hrenumber,
      CostRow.total_renumber]
  · obtain ⟨p, p', hp, hp', hbody, hsize, hruns, hpack, hpack'⟩ :=
      exists_programs hb hb' h c treeId
    exact ⟨p, p', hp, hp', hbody, hsize, hbody.inlineBranches_eq, hbody.fallbackSites_eq, hruns,
      table_eq hb hb' h c.kernelSize_pos hpack hpack'⟩

/-- Two splits and three leaves, no two of them with the same probability. -/
def graded : Draft := ⟨"t", 2, .int, #[⟨.split 0 1.5 1 2, none⟩, ⟨.leaf 10, some 1⟩,
  ⟨.split 1 2.5 3 4, some 3⟩, ⟨.leaf 11, some 3⟩, ⟨.leaf 12, some 1⟩]⟩

/-- The same nodes in the opposite order. -/
def gradedBackwards : Draft := ⟨"t", 2, .int, #[⟨.leaf 12, some 1⟩, ⟨.leaf 11, some 3⟩,
  ⟨.split 1 2.5 1 0, some 3⟩, ⟨.leaf 10, some 1⟩, ⟨.split 0 1.5 3 2, none⟩]⟩

def gradedTree : Tree :=
  ⟨"t", 2, .int, .split ⟨0, none, 0⟩ 0 1.5 (.leaf ⟨1, some 1, 0⟩ 10)
    (.split ⟨2, some 3, 0⟩ 1 2.5 (.leaf ⟨3, some 3, 0⟩ 11) (.leaf ⟨4, some 1, 0⟩ 12)), false⟩

theorem build_graded : graded.build 0 = .ok gradedTree := by
  have hhead : graded.checkHead 0 = .ok () := by
    simp [checkHead, graded, show isIdentifier ['t'] = true by decide]
  have hrules : graded.checkSketches 0 [] graded.sketches.toList = .ok [4, 3, 2, 1] := by
    decide
  have hg : graded.grow graded.sketches.size 0 = some gradedTree.root := by decide
  exact build_of_grow hhead hrules (by decide) hg (by decide)

theorem build_gradedBackwards : gradedBackwards.build 4 =
    .ok { gradedTree with root := gradedTree.root.renumber (4 - ·) } := by
  have hhead : gradedBackwards.checkHead 4 = .ok () := by
    simp [checkHead, gradedBackwards, show isIdentifier ['t'] = true by decide]
  have hrules : gradedBackwards.checkSketches 0 [] gradedBackwards.sketches.toList =
      .ok [2, 3, 0, 1] := by
    decide
  have hg : gradedBackwards.grow gradedBackwards.sketches.size 4 =
      some (gradedTree.root.renumber (4 - ·)) := by decide
  exact build_of_grow hhead hrules (by decide) hg (by decide)

theorem graded_renumbers :
    gradedTree.Renumbers (4 - ·) { gradedTree with root := gradedTree.root.renumber (4 - ·) } := by
  refine Tree.renumbers_renumber (build_wellFormed build_graded).distinct ?_
  have lt {id : NodeId} (h : id ∈ gradedTree.ids) : id < 5 := by
    obtain ⟨n, hn, rfl⟩ := (mem_ids_iff build_graded).1 h
    exact (mem_ids_annotate_iff build_graded).1 ⟨n, hn, rfl⟩
  have inj : ∀ i j : Nat, i < 5 → j < 5 → 4 - i = 4 - j → i = j := by omega
  exact fun i hi j hj => inj i j (lt hi) (lt hj)

theorem numbers_do_not_matter_graded : ∃ t', graded.build 0 = .ok gradedTree ∧
    gradedBackwards.build 4 = .ok t' ∧ gradedTree.Renumbers (4 - ·) t' ∧
    (gradedTree.annotateByNumbers.nodes.map Node.prob).Nodup ∧ t'.depth = gradedTree.depth ∧
    ∃ p p', Program.lower (.ofArchitecture .arm) gradedTree.annotateByNumbers 0 = .ok p ∧
      Program.lower (.ofArchitecture .arm) t'.annotateByNumbers 0 = .ok p' ∧
      p'.table.entries = p.table.entries ∧ p'.table.index? 4 = p.table.index? 0 := by
  obtain ⟨-, hdepth, -, -, -, -, hlower⟩ :=
    numbers_do_not_matter build_graded build_gradedBackwards graded_renumbers
  obtain ⟨p, p', hp, hp', -, -, -, -, -, htables⟩ := hlower (.ofArchitecture .arm) 0
  have hprob : (gradedTree.annotateByNumbers.nodes.map Node.prob).Nodup := by
    rw [Tree.annotateByNumbers_eq (build_wellFormed build_graded).distinct]
    decide
  obtain ⟨hentries, hindex⟩ := htables hprob
  refine ⟨_, build_graded, build_gradedBackwards, graded_renumbers, hprob, hdepth, p, p', hp, hp',
    hentries, hindex 0 ?_⟩
  exact Tree.mem_ids_of_mem_subtrees (t := gradedTree) (build_wellFormed build_graded).distinct
    (Node.mem_subtrees_self gradedTree.root)

end Draft
end TreeCode
