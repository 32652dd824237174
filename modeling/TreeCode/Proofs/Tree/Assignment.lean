import TreeCode.Proofs.Tree.Renumbering
import TreeCode.Proofs.Tree.Traversal

/-! # Assignments of probabilities

The probabilities of the nodes are assigned from the top down: the root has 1, and each child of a
split has its share of the probability of the split. There is one such assignment. Annotating a
tree puts it in the place of whatever probabilities the nodes had before, changes nothing else, and
so gives the same tree each time (`annotation_assigns`). -/

namespace TreeCode

/-! ### Replacing probabilities -/

namespace Node

/-- The same nodes with probabilities by their numbers. -/
def withProbs (prob : NodeId → Float) : Node → Node
  | leaf m p => leaf { m with prob := prob m.id } p
  | split m f t l r =>
      split { m with prob := prob m.id } f t (l.withProbs prob) (r.withProbs prob)

variable {prob prob' : NodeId → Float} {n a : Node}

theorem samples_withProbs (prob : NodeId → Float) (n : Node) :
    (n.withProbs prob).samples = n.samples := by
  cases n <;> rfl

theorem id_withProbs (prob : NodeId → Float) (n : Node) : (n.withProbs prob).id = n.id := by
  cases n <;> rfl

theorem subtrees_withProbs (prob : NodeId → Float) (n : Node) :
    (n.withProbs prob).subtrees = n.subtrees.map (withProbs prob) := by
  induction n with
  | leaf m p => rfl
  | split m f t l r ihl ihr =>
      simp only [withProbs, subtrees, List.map_cons, List.map_append, ihl, ihr]

theorem ids_withProbs (prob : NodeId → Float) (n : Node) :
    (n.withProbs prob).subtrees.map id = n.subtrees.map id := by
  rw [subtrees_withProbs, List.map_map]
  exact List.map_congr_left fun a _ => id_withProbs prob a

/-- Replaced probabilities leave no trace once the tree is annotated. -/
theorem annotate_withProbs (prob : NodeId → Float) (p : Float) (n : Node) :
    (n.withProbs prob).annotate p = n.annotate p := by
  induction n generalizing p with
  | leaf m v => rfl
  | split m f t l r ihl ihr => simp only [withProbs, annotate, samples_withProbs, ihl, ihr]

theorem withProbs_prob (h : ∀ a ∈ n.subtrees, prob a.id = a.prob) : n.withProbs prob = n := by
  induction n with
  | leaf m p =>
      have hm : prob m.id = m.prob := h _ (mem_subtrees_self _)
      rw [withProbs, hm]
  | split m f t l r ihl ihr =>
      have hm : prob m.id = m.prob := h _ (mem_subtrees_self _)
      rw [withProbs, hm, ihl fun a ha => h a (mem_subtrees_trans ha left_mem_subtrees),
        ihr fun a ha => h a (mem_subtrees_trans ha right_mem_subtrees)]

/-- The probabilities can be read off. -/
theorem eq_of_withProbs_eq (h : n.withProbs prob = n.withProbs prob') (ha : a ∈ n.subtrees) :
    prob a.id = prob' a.id := by
  induction n with
  | leaf m p =>
      obtain rfl := List.mem_singleton.1 ha
      exact congrArg Node.prob h
  | split m f t l r ihl ihr =>
      have hself : prob m.id = prob' m.id := congrArg Node.prob h
      obtain ⟨-, -, -, hl, hr⟩ := Node.split.inj h
      simp only [subtrees, List.mem_cons, List.mem_append] at ha
      rcases ha with rfl | ha | ha
      · exact hself
      · exact ihl hl ha
      · exact ihr hr ha

theorem prob_annotate (p : Float) (n : Node) : (n.annotate p).prob = p := by
  cases n <;> rfl

/-- What is below an annotated node is annotated. -/
theorem exists_annotate_mem_subtrees (p : Float) (ha : a ∈ n.subtrees) :
    ∃ q, a.annotate q ∈ (n.annotate p).subtrees := by
  induction n generalizing p with
  | leaf m v =>
      obtain rfl := List.mem_singleton.1 ha
      exact ⟨p, mem_subtrees_self _⟩
  | split m f t l r ihl ihr =>
      simp only [subtrees, List.mem_cons, List.mem_append] at ha
      rcases ha with rfl | ha | ha
      · exact ⟨p, mem_subtrees_self _⟩
      · obtain ⟨q, hq⟩ := ihl (p * (shares l.samples r.samples).1) ha
        exact ⟨q, mem_subtrees_trans hq left_mem_subtrees⟩
      · obtain ⟨q, hq⟩ := ihr (p * (shares l.samples r.samples).2) ha
        exact ⟨q, mem_subtrees_trans hq right_mem_subtrees⟩

end Node

namespace Tree

/-- The same tree with probabilities by the numbers of the nodes. -/
def withProbs (t : Tree) (prob : NodeId → Float) : Tree :=
  { t with root := t.root.withProbs prob }

theorem node?_withProbs (t : Tree) (prob : NodeId → Float) (id : NodeId) :
    (t.withProbs prob).node? id = (t.node? id).map (Node.withProbs prob) := by
  have hid : (fun n : Node => n.id == id) ∘ Node.withProbs prob = fun n => n.id == id :=
    funext fun n => congrArg (· == id) (Node.id_withProbs prob n)
  rw [node?, withProbs, Node.subtrees_withProbs, List.find?_map, hid, node?]

theorem nodes_withProbs (t : Tree) (prob : NodeId → Float) :
    (t.withProbs prob).nodes = t.nodes.map (Node.withProbs prob) := by
  have hcount : (t.withProbs prob).nodeCount = t.nodeCount := by
    rw [nodeCount, nodeCount, ← Node.length_subtrees, ← Node.length_subtrees, withProbs,
      Node.subtrees_withProbs, List.length_map]
  unfold nodes
  rw [List.map_filterMap, hcount]
  exact List.filterMap_congr fun id _ => node?_withProbs t prob id

/-! ### Assignments from the top down -/

/-- The root has probability 1. The children of a split divide its probability in proportion to
their sample counts, or evenly if a count is not known or both are zero. -/
structure TopDown (t : Tree) (prob : NodeId → Float) : Prop where
  root : prob t.root.id = 1
  counted : ∀ {m f th l r a b}, .split m f th l r ∈ t.nodes → l.samples = some a →
    r.samples = some b → 0 < a + b →
      prob l.id = prob m.id * (Float.ofNat a.toNat / Float.ofNat (a + b).toNat) ∧
        prob r.id = prob m.id * (Float.ofNat b.toNat / Float.ofNat (a + b).toNat)
  even : ∀ {m f th l r}, .split m f th l r ∈ t.nodes →
    (∀ a b, l.samples = some a → r.samples = some b → a + b = 0) →
      prob l.id = prob m.id * 0.5 ∧ prob r.id = prob m.id * 0.5

end Tree

theorem shares_counted {a b : UInt64} (h : 0 < a + b) : shares (some a) (some b) =
    (Float.ofNat a.toNat / Float.ofNat (a + b).toNat,
      Float.ofNat b.toNat / Float.ofNat (a + b).toNat) :=
  if_pos h

theorem shares_even {a b : Option UInt64} (h : ∀ i j, a = some i → b = some j → i + j = 0) :
    shares a b = (0.5, 0.5) := by
  cases a with
  | none => rfl
  | some i =>
      cases b with
      | none => rfl
      | some j =>
          have hij := h i j rfl rfl
          rw [shares, portions, hij]
          exact if_neg (UInt64.lt_irrefl 0)

namespace Tree

variable {t : Tree} {prob prob' : NodeId → Float}

/-- A split hands on the probability by the shares of its children. -/
theorem topDown_iff : t.TopDown prob ↔ prob t.root.id = 1 ∧
    ∀ m f th l r, .split m f th l r ∈ t.nodes →
      prob l.id = prob m.id * (shares l.samples r.samples).1 ∧
        prob r.id = prob m.id * (shares l.samples r.samples).2 := by
  constructor
  · intro h
    refine ⟨h.root, fun m f th l r hn => ?_⟩
    by_cases hcounted : ∃ a b, l.samples = some a ∧ r.samples = some b ∧ 0 < a + b
    · obtain ⟨a, b, ha, hb, hab⟩ := hcounted
      rw [ha, hb, shares_counted hab]
      exact h.counted hn ha hb hab
    · have hzero : ∀ a b, l.samples = some a → r.samples = some b → a + b = 0 := by
        intro a b ha hb
        by_contra hne
        exact hcounted ⟨a, b, ha, hb, UInt64.pos_iff_ne_zero.2 hne⟩
      rw [shares_even hzero]
      exact h.even hn hzero
  · rintro ⟨hroot, h⟩
    constructor
    · exact hroot
    · intro m f th l r a b hn ha hb hab
      have hsplit := h m f th l r hn
      rwa [ha, hb, shares_counted hab] at hsplit
    · intro m f th l r hn hzero
      have hsplit := h m f th l r hn
      rwa [shares_even hzero] at hsplit

section nodes

variable (hnodes : t.nodes.Perm t.root.subtrees)
include hnodes

/-- Annotating sets the probabilities of any assignment from the top down. -/
theorem TopDown.annotate_eq (h : t.TopDown prob) {n : Node} (hn : n ∈ t.root.subtrees) :
    n.annotate (prob n.id) = n.withProbs prob := by
  induction n with
  | leaf m p => rfl
  | split m f th l r ihl ihr =>
      obtain ⟨hl, hr⟩ := (topDown_iff.1 h).2 m f th l r (hnodes.mem_iff.2 hn)
      have ihl := ihl (Node.mem_subtrees_trans Node.left_mem_subtrees hn)
      have ihr := ihr (Node.mem_subtrees_trans Node.right_mem_subtrees hn)
      rw [hl] at ihl
      rw [hr] at ihr
      show Node.annotate (prob m.id) _ = _
      simp only [Node.annotate, Node.withProbs, ihl, ihr]

theorem TopDown.root_annotate (h : t.TopDown prob) :
    t.root.annotate 1 = t.root.withProbs prob := by
  rw [← h.root]
  exact h.annotate_eq hnodes (Node.mem_subtrees_self _)

/-- **There is one assignment** from the top down. -/
theorem TopDown.unique (h : t.TopDown prob) (h' : t.TopDown prob') {n : Node} (hn : n ∈ t.nodes) :
    prob n.id = prob' n.id :=
  Node.eq_of_withProbs_eq ((h.root_annotate hnodes).symm.trans (h'.root_annotate hnodes))
    (hnodes.mem_iff.1 hn)

/-- The probabilities of the annotated nodes are an assignment from the top down. -/
theorem exists_topDown (hroot : t.root.Distinct) : ∃ prob, t.TopDown prob := by
  have hdistinct : (t.root.annotate 1).Distinct := by
    rw [Node.Distinct, Node.ids_annotate]
    exact hroot
  -- the probability of an annotated node is found by its number
  have hfind {n : Node} {p : Float} (hn : n.annotate p ∈ (t.root.annotate 1).subtrees) :
      (t.annotate.node? n.id).elim 0 Node.prob = p := by
    have hnode := node?_eq (t := t.annotate) hdistinct hn
    rw [Node.id_annotate] at hnode
    rw [hnode]
    exact n.prob_annotate p
  refine ⟨fun id => (t.annotate.node? id).elim 0 Node.prob, topDown_iff.2 ⟨?_, ?_⟩⟩
  · exact hfind (Node.mem_subtrees_self _)
  · intro m f th l r hn
    obtain ⟨p, hp⟩ := Node.exists_annotate_mem_subtrees 1 (hnodes.mem_iff.1 hn)
    have hself := hfind hp
    have hl := hfind (Node.mem_subtrees_trans Node.left_mem_subtrees hp)
    have hr := hfind (Node.mem_subtrees_trans Node.right_mem_subtrees hp)
    exact ⟨hl.trans (congrArg (· * _) hself.symm), hr.trans (congrArg (· * _) hself.symm)⟩

end nodes

/-- **Annotating**, whatever the probabilities were, sets those that are assigned from the top
down. -/
theorem TopDown.annotateByNumbers_eq (hroot : t.root.Distinct)
    (hnodes : t.nodes.Perm t.root.subtrees) (h : t.TopDown prob) (before : NodeId → Float)
    (annotated : Bool) :
    { t.withProbs before with annotated := annotated }.annotateByNumbers =
      { t.withProbs prob with annotated := true } := by
  have hdistinct : (t.root.withProbs before).Distinct := by
    rw [Node.Distinct, Node.ids_withProbs]
    exact hroot
  rw [Tree.annotateByNumbers_eq hdistinct, annotate]
  show ({ t with root := (t.root.withProbs before).annotate 1, annotated := true } : Tree) = _
  rw [Node.annotate_withProbs, h.root_annotate hnodes]
  rfl

end Tree

/-! ### Trees that were built -/

namespace Draft

variable {d : Draft} {head : NodeId} {t : Tree}

theorem withProbs_of_build (hb : d.build head = .ok t) :
    ({ t.withProbs fun _ => 0 with annotated := false } : Tree) = t := by
  have hzero : t.root.withProbs (fun _ => 0) = t.root :=
    Node.withProbs_prob fun a ha => (prob_of_build hb a ha).symm
  have hannotated := annotated_of_build hb
  rw [Tree.withProbs, hzero, ← hannotated]

/-- **Annotating assigns the probabilities from the top down**, which can be done in one way. It
changes nothing else: the nodes are the same ones with these probabilities. Annotating a tree with
other probabilities, once or more often, gives the same tree. -/
theorem annotation_assigns (hb : d.build head = .ok t) : ∃ prob : NodeId → Float,
    t.TopDown prob ∧
      (∀ prob', t.TopDown prob' → ∀ n ∈ t.nodes, prob' n.id = prob n.id) ∧
      t.annotateByNumbers = { t.withProbs prob with annotated := true } ∧
      t.annotateByNumbers.nodes = t.nodes.map (Node.withProbs prob) ∧
      ∀ (before : NodeId → Float) (annotated : Bool) (k : Nat),
        Tree.annotateByNumbers^[k + 1] { t.withProbs before with annotated := annotated } =
          { t.withProbs prob with annotated := true } := by
  have hroot := (build_wellFormed hb).distinct
  have hnodes : t.nodes.Perm t.root.subtrees := nodes_perm hb
  obtain ⟨prob, hprob⟩ := Tree.exists_topDown hnodes hroot
  have hannotate := hprob.annotateByNumbers_eq hroot hnodes
  have hself : t.annotateByNumbers = { t.withProbs prob with annotated := true } := by
    have hzero := hannotate (fun _ => 0) false
    rwa [withProbs_of_build hb] at hzero
  refine ⟨prob, hprob, fun prob' hprob' n hn => hprob'.unique hnodes hprob hn, hself, ?_, ?_⟩
  · rw [hself]
    exact Tree.nodes_withProbs t prob
  · intro before annotated k
    induction k generalizing before annotated with
    | zero => exact hannotate before annotated
    | succ k ih =>
        rw [Function.iterate_succ_apply, hannotate before annotated]
        exact ih prob true

theorem annotation_assigns_lopsided : lopsided.build 0 = .ok lopsidedTree ∧
    ∃ prob, lopsidedTree.TopDown prob ∧ prob 0 = 1 ∧
      prob 2 = prob 0 * (Float.ofNat 3 / Float.ofNat 4) ∧
      lopsidedTree.annotateByNumbers = { lopsidedTree.withProbs prob with annotated := true } ∧
      lopsidedTree.annotateByNumbers.annotateByNumbers = lopsidedTree.annotateByNumbers := by
  obtain ⟨prob, hprob, -, hself, -, hagain⟩ := annotation_assigns build_lopsided
  have hroot : lopsidedTree.root ∈ lopsidedTree.nodes :=
    (nodes_perm build_lopsided).mem_iff.2 (Node.mem_subtrees_self _)
  refine ⟨build_lopsided, prob, hprob, hprob.root, ?_, hself, ?_⟩
  · exact (hprob.counted hroot rfl rfl (by decide)).2
  · rw [hself]
    exact hagain prob true 0

end Draft
end TreeCode
