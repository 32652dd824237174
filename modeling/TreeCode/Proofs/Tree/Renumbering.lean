import Mathlib.Data.Set.Function
import TreeCode.Proofs.Tree.HotChains
import TreeCode.Proofs.Tree.Traversal
import TreeCode.Target.Cost

/-! # Trees under other numbers

Two trees may differ in nothing but the numbers of their nodes (`Tree.Renumbers`). If both were
built, the root of the one is the root of the other with each number mapped
(`root_eq_renumber`), and mapping the numbers of the nodes does not change what a node is besides:
where an evaluation leads, how deep the tree is, which side is the hotter one, what the splits cost
and which probabilities they pass on. -/

namespace TreeCode

/-! ### Mapping the numbers -/

namespace Node

/-- The node with each number mapped. -/
def renumber (σ : NodeId → NodeId) : Node → Node
  | leaf m p => leaf { m with id := σ m.id } p
  | split m f t l r => split { m with id := σ m.id } f t (l.renumber σ) (r.renumber σ)

variable (σ : NodeId → NodeId)

theorem renumber_split (m : Mark) (f : UInt32) (t : Float) (l r : Node) :
    (split m f t l r).renumber σ =
      split { m with id := σ m.id } f t (l.renumber σ) (r.renumber σ) := rfl

@[simp] theorem id_renumber (n : Node) : (n.renumber σ).id = σ n.id := by cases n <;> rfl

@[simp] theorem samples_renumber (n : Node) : (n.renumber σ).samples = n.samples := by
  cases n <;> rfl

@[simp] theorem prob_renumber (n : Node) : (n.renumber σ).prob = n.prob := by cases n <;> rfl

@[simp] theorem isLeaf_renumber (n : Node) : (n.renumber σ).isLeaf = n.isLeaf := by
  cases n <;> rfl

@[simp] theorem size_renumber (n : Node) : (n.renumber σ).size = n.size := by
  induction n with
  | leaf m p => rfl
  | split m f t l r ihl ihr => simp only [renumber_split, size, ihl, ihr]

@[simp] theorem height_renumber (n : Node) : (n.renumber σ).height = n.height := by
  induction n with
  | leaf m p => rfl
  | split m f t l r ihl ihr => simp only [renumber_split, height, ihl, ihr]

@[simp] theorem thresholds_renumber (n : Node) : (n.renumber σ).thresholds = n.thresholds := by
  induction n with
  | leaf m p => rfl
  | split m f t l r ihl ihr => simp only [renumber_split, thresholds, ihl, ihr]

@[simp] theorem evaluate_renumber (x : FeatureVector) (n : Node) :
    (n.renumber σ).evaluate x = n.evaluate x := by
  induction n with
  | leaf m p => rfl
  | split m f t l r ihl ihr => simp only [renumber_split, evaluate, ihl, ihr]

theorem subtrees_renumber (n : Node) :
    (n.renumber σ).subtrees = n.subtrees.map (renumber σ) := by
  induction n with
  | leaf m p => rfl
  | split m f t l r ihl ihr =>
      simp only [renumber_split, subtrees, List.map_cons, List.map_append, ihl, ihr]

theorem annotate_renumber (prob : Float) (n : Node) :
    (n.renumber σ).annotate prob = (n.annotate prob).renumber σ := by
  induction n generalizing prob with
  | leaf m p => rfl
  | split m f t l r ihl ihr => simp only [renumber_split, annotate, samples_renumber, ihl, ihr]

/-! ### Hot chains -/

theorem leftHot_renumber {l r : Node} :
    (l.renumber σ).LeftHot (r.renumber σ) ↔ l.LeftHot r := by
  rw [LeftHot, prob_renumber, prob_renumber]

theorem hotter_renumber (l r : Node) :
    (l.renumber σ).hotter (r.renumber σ) = (l.hotter r).renumber σ := by
  simp only [hotter, leftHot_renumber]
  split_ifs <;> rfl

theorem colder_renumber (l r : Node) :
    (l.renumber σ).colder (r.renumber σ) = (l.colder r).renumber σ := by
  simp only [colder, leftHot_renumber]
  split_ifs <;> rfl

theorem hotChain_renumber (n : Node) :
    (n.renumber σ).hotChain = n.hotChain.map (renumber σ) := by
  induction n using hotterRec with
  | leaf m p => rfl
  | split m f t l r ihhot ihcold =>
      rw [renumber_split, hotChain_split, hotter_renumber, ihhot, hotChain_split]
      rfl

theorem coldChildren_renumber (n : Node) :
    (n.renumber σ).coldChildren = n.coldChildren.map (renumber σ) := by
  cases n with
  | leaf m p => rfl
  | split m f t l r =>
      rw [renumber_split, coldChildren, colder_renumber, coldChildren, List.map_singleton]

theorem chainStarts_renumber (n : Node) :
    (n.renumber σ).chainStarts = n.chainStarts.map (renumber σ) := by
  rw [chainStarts, subtrees_renumber, List.flatMap_map, chainStarts, List.map_cons,
    List.map_flatMap]
  simp only [coldChildren_renumber]

theorem hotChains_renumber (n : Node) :
    (n.renumber σ).hotChains = n.hotChains.map (List.map (renumber σ)) := by
  simp only [hotChains, chainStarts_renumber, List.map_map]
  exact List.map_congr_left fun start _ => hotChain_renumber σ start

end Node

/-! ### Costs -/

namespace CostRow

variable (row : CostRow) (σ : NodeId → NodeId)

@[simp] theorem split_renumber (l r : Node) :
    row.split (l.renumber σ) (r.renumber σ) = row.split l r := by
  simp only [split, Node.isLeaf_renumber]

@[simp] theorem total_renumber (n : Node) : row.total (n.renumber σ) = row.total n := by
  induction n with
  | leaf m p => rfl
  | split m f t l r ihl ihr => simp only [Node.renumber_split, total, split_renumber, ihl, ihr]

end CostRow

/-! ### Trees that differ in their numbers -/

namespace Tree

/-- The numbers of the nodes. -/
def ids (t : Tree) : Set NodeId := {id | ∃ n, t.node? id = some n}

/-- A tree is another one under other numbers: the numbers are mapped one to one, with the head to
the head, leaves to leaves that predict the same, and splits to splits of the same feature at the
same threshold with the children mapped side by side. -/
structure Renumbers (σ : NodeId → NodeId) (t t' : Tree) : Prop where
  name : t'.name = t.name
  dim : t'.dim = t.dim
  featureType : t'.featureType = t.featureType
  bijOn : Set.BijOn σ t.ids t'.ids
  head : t'.root.id = σ t.root.id
  leaf : ∀ {id m p}, t.node? id = some (.leaf m p) →
    ∃ m', t'.node? (σ id) = some (.leaf m' p) ∧ m'.samples = m.samples
  split : ∀ {id m f th l r}, t.node? id = some (.split m f th l r) →
    ∃ m' l' r', t'.node? (σ id) = some (.split m' f th l' r') ∧ m'.samples = m.samples ∧
      l'.id = σ l.id ∧ r'.id = σ r.id

variable {t t' : Tree} {σ : NodeId → NodeId}

theorem mem_ids_of_mem_subtrees (hroot : t.root.Distinct) {n : Node}
    (hn : n ∈ t.root.subtrees) : n.id ∈ t.ids :=
  ⟨n, node?_eq hroot hn⟩

/-- Mapping the numbers one to one gives the tree under other numbers. -/
theorem renumbers_renumber (hroot : t.root.Distinct) (hσ : Set.InjOn σ t.ids) :
    t.Renumbers σ { t with root := t.root.renumber σ } := by
  let t' : Tree := { t with root := t.root.renumber σ }
  have hids : t'.root.subtrees.map Node.id = (t.root.subtrees.map Node.id).map σ := by
    rw [Node.subtrees_renumber, List.map_map, List.map_map]
    exact List.map_congr_left fun n _ => Node.id_renumber σ n
  have hroot' : t'.root.Distinct := by
    rw [Node.Distinct, hids]
    refine List.Nodup.map_on (fun i hi j hj hij => ?_) hroot
    obtain ⟨a, ha, rfl⟩ := List.mem_map.1 hi
    obtain ⟨b, hb, rfl⟩ := List.mem_map.1 hj
    exact hσ (mem_ids_of_mem_subtrees hroot ha) (mem_ids_of_mem_subtrees hroot hb) hij
  have mem {n : Node} (hn : n ∈ t.root.subtrees) : n.renumber σ ∈ t'.root.subtrees := by
    rw [Node.subtrees_renumber]
    exact List.mem_map_of_mem hn
  have hnode {id : NodeId} {n : Node} (h : t.node? id = some n) :
      t'.node? (σ id) = some (n.renumber σ) := by
    obtain ⟨hn, rfl⟩ := mem_of_node? h
    rw [← Node.id_renumber σ n]
    exact node?_eq hroot' (mem hn)
  refine ⟨rfl, rfl, rfl, ⟨?_, hσ, ?_⟩, Node.id_renumber σ t.root, ?_, ?_⟩
  · rintro id ⟨n, hn⟩
    exact ⟨_, hnode hn⟩
  · rintro id ⟨n', hn'⟩
    obtain ⟨hmem, rfl⟩ := mem_of_node? hn'
    rw [Node.subtrees_renumber] at hmem
    obtain ⟨n, hn, rfl⟩ := List.mem_map.1 hmem
    exact ⟨n.id, mem_ids_of_mem_subtrees hroot hn, (Node.id_renumber σ n).symm⟩
  · exact fun h => ⟨_, hnode h, rfl⟩
  · exact fun h => ⟨_, _, _, hnode h, rfl, Node.id_renumber σ _, Node.id_renumber σ _⟩

/-- Nodes without probabilities are the same nodes under the mapped numbers. -/
theorem Renumbers.eq_renumber (h : t.Renumbers σ t') (hroot : t.root.Distinct)
    (hroot' : t'.root.Distinct) (hprob : ∀ n ∈ t.root.subtrees, n.prob = 0)
    (hprob' : ∀ n ∈ t'.root.subtrees, n.prob = 0) {n n' : Node} (hn : n ∈ t.root.subtrees)
    (hn' : n' ∈ t'.root.subtrees) (hid : n'.id = σ n.id) : n' = n.renumber σ := by
  have hnode := node?_eq hroot hn
  have hnode' := node?_eq hroot' hn'
  rw [hid] at hnode'
  have hp := hprob n hn
  have hp' := hprob' n' hn'
  induction n generalizing n' with
  | leaf m p =>
      obtain ⟨m', hm', hsamples⟩ := h.leaf hnode
      obtain rfl := Option.some.inj (hnode'.symm.trans hm')
      have hmark : m' = { m with id := σ m.id } := by
        cases m
        cases m'
        simp_all [Node.id, Node.prob, Node.mark]
      rw [hmark, Node.renumber]
  | split m f th l r ihl ihr =>
      obtain ⟨m', l', r', hm', hsamples, hl, hr⟩ := h.split hnode
      obtain rfl := Option.some.inj (hnode'.symm.trans hm')
      have hmark : m' = { m with id := σ m.id } := by
        cases m
        cases m'
        simp_all [Node.id, Node.prob, Node.mark]
      have memL := Node.mem_subtrees_trans Node.left_mem_subtrees hn
      have memR := Node.mem_subtrees_trans Node.right_mem_subtrees hn
      have memL' := Node.mem_subtrees_trans Node.left_mem_subtrees hn'
      have memR' := Node.mem_subtrees_trans Node.right_mem_subtrees hn'
      rw [hmark, Node.renumber,
        ihl memL memL' hl (node?_eq hroot memL) (hl ▸ node?_eq hroot' memL') (hprob l memL)
          (hprob' l' memL'),
        ihr memR memR' hr (node?_eq hroot memR) (hr ▸ node?_eq hroot' memR') (hprob r memR)
          (hprob' r' memR')]

end Tree

namespace Draft

variable {d d' : Draft} {head head' : NodeId} {t t' : Tree} {σ : NodeId → NodeId}

/-- A tree that was just built has no probabilities. -/
theorem prob_of_build (hb : d.build head = .ok t) : ∀ n ∈ t.root.subtrees, n.prob = 0 := by
  intro n hn
  obtain ⟨-, -, -, -, hg, -⟩ := build_eq_ok hb
  rw [← id_of_grow hg] at hg
  obtain ⟨_, hg'⟩ := grow_of_mem_subtrees hg hn
  obtain ⟨s, -, hm, -⟩ := grow_eq_some hg'
  rw [Node.prob, hm]

/-- **A tree under other numbers** has the same root with each number mapped. -/
theorem root_eq_renumber (hb : d.build head = .ok t) (hb' : d'.build head' = .ok t')
    (h : t.Renumbers σ t') : t'.root = t.root.renumber σ :=
  h.eq_renumber (build_wellFormed hb).distinct (build_wellFormed hb').distinct (prob_of_build hb)
    (prob_of_build hb') (Node.mem_subtrees_self _) (Node.mem_subtrees_self _) h.head

end Draft
end TreeCode
