import TreeCode.Proofs.Tree.Shape
import TreeCode.Tree.Draft
import TreeCode.Tree.Probability

/-! # Trees that were built

A draft is built into a tree only if no node is the child of two places and the head is nobody's
child. Putting the tree together follows the numbers of the children, so the nodes of the tree
have numbers of their own, and every split tests a feature of the vector against a finite
threshold (`build_wellFormed`). Computing the probabilities keeps this. -/

namespace TreeCode

/-- Nodes have numbers of their own, and the features and thresholds of splits can be tested. -/
structure Node.WellFormed (dim : UInt32) (n : Node) : Prop where
  distinct : n.Distinct
  split : ∀ {m f t l r}, .split m f t l r ∈ n.subtrees → f < dim ∧ t.isFinite

theorem Node.WellFormed.of_mem_subtrees {dim : UInt32} {n a : Node} (h : n.WellFormed dim)
    (ha : a ∈ n.subtrees) : a.WellFormed dim where
  distinct := Distinct.of_mem_subtrees h.distinct ha
  split hs := h.split (mem_subtrees_trans hs ha)

namespace Rule

/-- A split tests one of `dim` features against a finite threshold. -/
def Sound (dim : UInt32) : Rule → Prop
  | leaf _ => True
  | split feature threshold _ _ => feature < dim ∧ threshold.isFinite

end Rule

namespace Draft

variable {d : Draft}

/-! ### Checks -/

theorem claim_eq_ok_iff {parent child : NodeId} {taken taken' : List NodeId} :
    d.claim parent child taken = .ok taken' ↔
      child < d.sketches.size ∧ child ∉ taken ∧ taken' = child :: taken := by
  unfold claim
  split_ifs with hs ht
  · simp only [false_iff, not_and]
    exact fun h => absurd h (Nat.not_lt.2 hs)
  · simp [ht]
  · simp only [Except.ok.injEq]
    constructor
    · rintro rfl
      exact ⟨Nat.lt_of_not_le hs, ht, rfl⟩
    · rintro ⟨-, -, rfl⟩
      rfl

theorem checkRule_eq_ok {id : NodeId} {rule : Rule} {taken taken' : List NodeId}
    (h : d.checkRule id taken rule = .ok taken') :
    taken' = rule.children.reverse ++ taken ∧ (taken.Nodup → taken'.Nodup) ∧
      rule.Sound d.dim := by
  cases rule with
  | leaf p =>
      simp only [checkRule, Except.ok.injEq] at h
      subst h
      exact ⟨rfl, fun h => h, trivial⟩
  | split f t left right =>
      simp only [checkRule] at h
      split at h
      · cases h
      · split at h
        · cases h
        · obtain ⟨mid, h1, h2⟩ := bind_eq_ok_iff.1 h
          obtain ⟨-, hl, rfl⟩ := claim_eq_ok_iff.1 h1
          obtain ⟨-, hr, rfl⟩ := claim_eq_ok_iff.1 h2
          refine ⟨rfl, fun hn => ?_, ?_, ?_⟩
          · exact List.nodup_cons.2 ⟨hr, List.nodup_cons.2 ⟨hl, hn⟩⟩
          · exact UInt32.not_le.1 ‹_›
          · simpa using ‹¬(!t.isFinite) = true›

theorem checkSketches_eq_ok {id : NodeId} {sketches : List Sketch} {taken taken' : List NodeId}
    (h : d.checkSketches id taken sketches = .ok taken') :
    taken' = (sketches.flatMap (·.rule.children)).reverse ++ taken ∧
      (taken.Nodup → taken'.Nodup) ∧ ∀ s ∈ sketches, s.rule.Sound d.dim := by
  induction sketches generalizing id taken with
  | nil =>
      simp only [checkSketches, Except.ok.injEq] at h
      subst h
      exact ⟨rfl, fun h => h, by simp⟩
  | cons s rest ih =>
      rw [checkSketches] at h
      obtain ⟨mid, h1, h2⟩ := bind_eq_ok_iff.1 h
      obtain ⟨hmid, hn1, hs⟩ := checkRule_eq_ok h1
      obtain ⟨htaken, hn2, hrest⟩ := ih h2
      refine ⟨?_, fun hn => hn2 (hn1 hn), ?_⟩
      · rw [htaken, hmid, List.flatMap_cons, List.reverse_append, List.append_assoc]
      · intro s' hs'
        rcases List.mem_cons.1 hs' with rfl | hs'
        · exact hs
        · exact hrest s' hs'

/-! ### Growing -/

/-- What grows at a number follows the rule that was drafted there. -/
theorem grow_eq_some {fuel : Nat} {id : NodeId} {n : Node} (h : d.grow fuel id = some n) :
    ∃ s, d.sketches[id]? = some s ∧ n.mark = ⟨id, s.samples, 0⟩ ∧ match n with
      | .leaf _ p => s.rule = .leaf p
      | .split _ f t l r => s.rule = .split f t l.id r.id ∧
          ∃ fuel', d.grow fuel' l.id = some l ∧ d.grow fuel' r.id = some r := by
  induction fuel generalizing id n with
  | zero => simp [grow] at h
  | succ fuel ih =>
      unfold grow at h
      split at h
      · cases h
      · rename_i p samples hs
        cases h
        exact ⟨_, hs, rfl, rfl⟩
      · rename_i f t left right samples hs
        split at h
        · rename_i l r hl hr
          cases h
          have hlid : l.id = left := by
            obtain ⟨_, -, hm, -⟩ := ih hl
            rw [Node.id, hm]
          have hrid : r.id = right := by
            obtain ⟨_, -, hm, -⟩ := ih hr
            rw [Node.id, hm]
          subst hlid hrid
          exact ⟨_, hs, rfl, rfl, fuel, hl, hr⟩
        · cases h

theorem id_of_grow {fuel : Nat} {id : NodeId} {n : Node} (h : d.grow fuel id = some n) :
    n.id = id := by
  obtain ⟨_, -, hm, -⟩ := grow_eq_some h
  rw [Node.id, hm]

/-- Whatever the fuel, the same grows at the same number. -/
theorem grow_unique {fuel fuel' : Nat} {id : NodeId} {a b : Node} (ha : d.grow fuel id = some a)
    (hb : d.grow fuel' id = some b) : a = b := by
  induction a generalizing fuel fuel' id b with
  | leaf m p =>
      obtain ⟨s, hs, hma, hra⟩ := grow_eq_some ha
      obtain ⟨s', hs', hmb, hrb⟩ := grow_eq_some hb
      obtain rfl := Option.some.inj (hs.symm.trans hs')
      cases b with
      | leaf m' p' =>
          obtain rfl : m = m' := hma.trans hmb.symm
          obtain rfl := Rule.leaf.inj (hra.symm.trans hrb)
          rfl
      | split m' f t l r => cases hra.symm.trans hrb.1
  | split m f t l r ihl ihr =>
      obtain ⟨s, hs, hma, hra, _, hla, hra'⟩ := grow_eq_some ha
      obtain ⟨s', hs', hmb, hrb⟩ := grow_eq_some hb
      obtain rfl := Option.some.inj (hs.symm.trans hs')
      cases b with
      | leaf m' p' => cases hra.symm.trans hrb
      | split m' f' t' l' r' =>
          obtain ⟨hrb, _, hlb, hrb'⟩ := hrb
          obtain rfl : m = m' := hma.trans hmb.symm
          obtain ⟨rfl, rfl, hl, hr⟩ := Rule.split.inj (hra.symm.trans hrb)
          rw [← hl] at hlb
          rw [← hr] at hrb'
          rw [ihl hla hlb, ihr hra' hrb']

/-- What is below a node that grows at its number grows at its own. -/
theorem grow_of_mem_subtrees {fuel : Nat} {n a : Node} (h : d.grow fuel n.id = some n)
    (ha : a ∈ n.subtrees) : ∃ fuel', d.grow fuel' a.id = some a := by
  induction n generalizing fuel with
  | leaf m p =>
      simp only [Node.subtrees, List.mem_singleton] at ha
      subst ha
      exact ⟨fuel, h⟩
  | split m f t l r ihl ihr =>
      obtain ⟨_, -, -, -, fuel', hl, hr⟩ := grow_eq_some h
      simp only [Node.subtrees, List.mem_cons, List.mem_append] at ha
      rcases ha with rfl | ha | ha
      · exact ⟨fuel, h⟩
      · exact ihl hl ha
      · exact ihr hr ha

theorem children_of_grow {fuel : Nat} {n : Node} (h : d.grow fuel n.id = some n) :
    ∃ s, d.sketches[n.id]? = some s ∧ s.rule.children = n.children.map Node.id := by
  obtain ⟨s, hs, -, hr⟩ := grow_eq_some h
  refine ⟨s, hs, ?_⟩
  cases n with
  | leaf m p => rw [hr]; rfl
  | split m f t l r => rw [hr.1]; rfl

/-- What grows was drafted. -/
theorem lt_size_of_mem_ids {fuel : Nat} {head id : NodeId} {root : Node}
    (h : d.grow fuel head = some root) (hid : id ∈ root.subtrees.map Node.id) :
    id < d.sketches.size := by
  obtain rfl := id_of_grow h
  obtain ⟨a, ha, rfl⟩ := List.mem_map.1 hid
  obtain ⟨fuel', hg⟩ := grow_of_mem_subtrees h ha
  obtain ⟨s, hs, -⟩ := grow_eq_some hg
  exact (Array.getElem?_eq_some_iff.1 hs).1

/-! ### Searching -/

theorem childIds_eq {id : NodeId} {s : Sketch} (h : d.sketches[id]? = some s) :
    d.childIds id = s.rule.children := by
  rw [childIds, h]

/-- The search below a node comes by each node that grows there once. -/
theorem exists_search {fuel : Nat} {id : NodeId} {n : Node} (h : d.grow fuel id = some n) :
    ∃ order, WorkedOff (fun id => (d.childIds id).reverse) [id] order ∧
      order.Perm (n.subtrees.map Node.id) := by
  induction n generalizing fuel id with
  | leaf m p =>
      obtain ⟨s, hs, hm, hr⟩ := grow_eq_some h
      refine ⟨[id], .single ?_, ?_⟩
      · rw [childIds_eq hs, hr]
        exact .nil
      · rw [Node.subtrees, List.map_singleton, id_of_grow h]
  | split m f t l r ihl ihr =>
      obtain ⟨s, hs, hm, hr, fuel', hl, hr'⟩ := grow_eq_some h
      obtain ⟨orderL, hworkL, hpermL⟩ := ihl hl
      obtain ⟨orderR, hworkR, hpermR⟩ := ihr hr'
      refine ⟨id :: (orderR ++ orderL), .single ?_, ?_⟩
      · rw [childIds_eq hs, hr]
        exact hworkR.append hworkL
      · rw [Node.subtrees, List.map_cons, List.map_append, id_of_grow h]
        exact ((hpermR.append hpermL).trans List.perm_append_comm).cons id

theorem getElem?_foldl_setIfInBounds (order : List NodeId) (flags : Array Bool) (id : NodeId) :
    (order.foldl (fun flags id => flags.setIfInBounds id true) flags)[id]? =
      flags[id]?.map (· || decide (id ∈ order)) := by
  induction order generalizing flags with
  | nil => simp
  | cons a order ih =>
      rw [List.foldl_cons, ih, Array.getElem?_setIfInBounds]
      by_cases ha : a = id
      · subst ha
        by_cases hlt : a < flags.size
        · simp [hlt]
        · simp [hlt]
      · have hne : id ≠ a := fun h => ha h.symm
        simp [ha, hne]

/-- The search from the head comes by the nodes that grow there. -/
theorem getElem?_reached {fuel : Nat} {head : NodeId} {root : Node}
    (h : d.grow fuel head = some root) (id : NodeId) :
    (d.reached head)[id]? =
      if id < d.sketches.size then some (decide (id ∈ root.subtrees.map Node.id)) else none := by
  obtain ⟨order, hwork, hperm⟩ := exists_search h
  rw [reached, workOff_eq hwork, getElem?_foldl_setIfInBounds, Array.getElem?_replicate]
  simp only [hperm.mem_iff]
  split_ifs <;> simp

theorem findIdx?_reached_eq_none_iff {fuel : Nat} {head : NodeId} {root : Node}
    (h : d.grow fuel head = some root) :
    (d.reached head).findIdx? (!·) = none ↔
      ∀ id < d.sketches.size, id ∈ root.subtrees.map Node.id := by
  rw [Array.findIdx?_eq_none_iff]
  constructor
  · intro hall id hid
    have hget := getElem?_reached h id
    rw [if_pos hid] at hget
    simpa using hall _ (Array.mem_of_getElem? hget)
  · intro hall flag hflag
    obtain ⟨id, hid⟩ := Array.mem_iff_getElem?.1 hflag
    rw [getElem?_reached h] at hid
    split_ifs at hid with hlt
    rw [← Option.some.inj hid]
    simp [hall id hlt]

/-! ### Building -/

/-- Of lists without a common member, a member shows which one it comes from. -/
theorem index_unique_of_nodup_flatMap {α β : Type} {f : α → List β} {l : List α}
    (hl : (l.flatMap f).Nodup) {i j : Nat} {a b : α} {c : β} (ha : l[i]? = some a)
    (hb : l[j]? = some b) (hca : c ∈ f a) (hcb : c ∈ f b) : i = j := by
  have hd := List.pairwise_iff_getElem.1 (List.nodup_flatMap.1 hl).2
  obtain ⟨hi, rfl⟩ := List.getElem?_eq_some_iff.1 ha
  obtain ⟨hj, rfl⟩ := List.getElem?_eq_some_iff.1 hb
  rcases Nat.lt_trichotomy i j with hij | hij | hij
  · exact absurd hcb (hd i j hi hj hij hca)
  · exact hij
  · exact absurd hca (hd j i hj hi hij hcb)

/-- Nodes that grow without sharing a child have numbers of their own. -/
theorem distinct_of_grow {fuel : Nat} {n : Node} (h : d.grow fuel n.id = some n)
    (hd : (d.sketches.toList.flatMap (·.rule.children)).Nodup) : n.Distinct := by
  have grows {a : Node} (ha : a ∈ n.subtrees) := grow_of_mem_subtrees h ha
  have hid : ∀ a ∈ n.subtrees, ∀ b ∈ n.subtrees, a.id = b.id → a = b := by
    intro a ha b hb hab
    obtain ⟨_, ha⟩ := grows ha
    obtain ⟨_, hb⟩ := grows hb
    rw [← hab] at hb
    exact grow_unique ha hb
  have htwin : ∀ a ∈ n.subtrees, (a.children.map Node.id).Nodup := by
    intro a ha
    obtain ⟨_, ha⟩ := grows ha
    obtain ⟨s, hs, hc⟩ := children_of_grow ha
    rw [← hc]
    exact (List.nodup_flatMap.1 hd).1 s (Array.mem_toList_iff.2 (Array.mem_of_getElem? hs))
  have hpar : ∀ a ∈ n.subtrees, ∀ b ∈ n.subtrees, ∀ c ∈ a.children, c ∈ b.children → a = b := by
    intro a ha b hb c hca hcb
    refine hid a ha b hb ?_
    obtain ⟨_, ha⟩ := grows ha
    obtain ⟨_, hb⟩ := grows hb
    obtain ⟨s, hs, hsc⟩ := children_of_grow ha
    obtain ⟨s', hs', hsc'⟩ := children_of_grow hb
    rw [← Array.getElem?_toList] at hs hs'
    refine index_unique_of_nodup_flatMap hd hs hs' (c := c.id) ?_ ?_
    · rw [hsc]
      exact List.mem_map_of_mem hca
    · rw [hsc']
      exact List.mem_map_of_mem hcb
  exact (Node.nodup_subtrees (fun a ha => (htwin a ha).of_map) hpar).map_on hid

variable {head : NodeId} {t : Tree}

theorem dim_pos_of_checkHead (h : d.checkHead head = .ok ()) : 0 < d.dim := by
  unfold checkHead at h
  split_ifs at h with _ hd
  exact UInt32.pos_iff_ne_zero.2 hd

theorem assemble_eq_ok (h : d.assemble head = .ok t) :
    t = ⟨d.name, d.dim, d.featureType, t.root, false⟩ ∧
      d.grow d.sketches.size head = some t.root ∧
      ∀ id < d.sketches.size, id ∈ t.root.subtrees.map Node.id := by
  unfold assemble at h
  split at h
  · cases h
  · rename_i hall
    split at h
    · cases h
    · rename_i root hg
      cases h
      exact ⟨rfl, hg, (findIdx?_reached_eq_none_iff hg).1 hall⟩

theorem assemble_of_grow {root : Node} (hg : d.grow d.sketches.size head = some root)
    (hall : ∀ id < d.sketches.size, id ∈ root.subtrees.map Node.id) :
    d.assemble head = .ok ⟨d.name, d.dim, d.featureType, root, false⟩ := by
  unfold assemble
  rw [(findIdx?_reached_eq_none_iff hg).2 hall, hg]

/-- A draft whose checks succeed and from which all nodes grow is built. -/
theorem build_of_grow {taken : List NodeId} {root : Node} (hhead : d.checkHead head = .ok ())
    (hrules : d.checkSketches 0 [] d.sketches.toList = .ok taken) (htaken : head ∉ taken)
    (hg : d.grow d.sketches.size head = some root)
    (hall : ∀ id < d.sketches.size, id ∈ root.subtrees.map Node.id) :
    d.build head = .ok ⟨d.name, d.dim, d.featureType, root, false⟩ := by
  unfold build
  rw [hhead]
  simp only [bind, Except.bind, hrules]
  rw [if_neg htaken, assemble_of_grow hg hall]

theorem assemble_of_build (h : d.build head = .ok t) : d.assemble head = .ok t := by
  obtain ⟨-, -, h⟩ := bind_eq_ok_iff.1 h
  obtain ⟨taken, -, h⟩ := bind_eq_ok_iff.1 h
  split_ifs at h
  exact h

/-- What building a tree has checked. -/
theorem build_eq_ok (h : d.build head = .ok t) :
    t.dim = d.dim ∧ 0 < d.dim ∧ (∀ s ∈ d.sketches.toList, s.rule.Sound d.dim) ∧
      (d.sketches.toList.flatMap (·.rule.children)).Nodup ∧
      d.grow d.sketches.size head = some t.root ∧
      ∀ id < d.sketches.size, id ∈ t.root.subtrees.map Node.id := by
  unfold build at h
  obtain ⟨⟨⟩, h1, h⟩ := bind_eq_ok_iff.1 h
  obtain ⟨taken, h2, h⟩ := bind_eq_ok_iff.1 h
  split_ifs at h
  obtain ⟨htaken, hn, hs⟩ := checkSketches_eq_ok h2
  obtain ⟨ht, hg⟩ := assemble_eq_ok h
  refine ⟨by rw [ht], dim_pos_of_checkHead h1, hs, ?_, hg⟩
  have := hn List.nodup_nil
  rwa [htaken, List.append_nil, List.nodup_reverse] at this

/-- **A tree that was built is well-formed.** -/
theorem build_wellFormed (h : d.build head = .ok t) : t.root.WellFormed t.dim := by
  obtain ⟨hdim, -, hs, hd, hg, -⟩ := build_eq_ok h
  rw [← id_of_grow hg] at hg
  refine ⟨distinct_of_grow hg hd, ?_⟩
  intro m f th l r hmem
  obtain ⟨_, hg'⟩ := grow_of_mem_subtrees hg hmem
  obtain ⟨s, hs', -, hr, -⟩ := grow_eq_some hg'
  have := hs s (Array.mem_toList_iff.2 (Array.mem_of_getElem? hs'))
  rw [hr] at this
  rw [hdim]
  exact this

theorem root_id_of_build (h : d.build head = .ok t) : t.root.id = head :=
  id_of_grow (build_eq_ok h).2.2.2.2.1

/-- The numbers of the nodes are those of the drafted ones. -/
theorem ids_perm_range (h : d.build head = .ok t) :
    (t.root.subtrees.map Node.id).Perm (List.range d.sketches.size) := by
  obtain ⟨-, -, -, -, hg, hall⟩ := build_eq_ok h
  rw [List.perm_ext_iff_of_nodup (build_wellFormed h).distinct List.nodup_range]
  intro id
  rw [List.mem_range]
  exact ⟨lt_size_of_mem_ids hg, hall id⟩

theorem nodeCount_of_build (h : d.build head = .ok t) : t.nodeCount = d.sketches.size := by
  have := (ids_perm_range h).length_eq
  rwa [List.length_map, Node.length_subtrees, List.length_range] at this

theorem ids_perm_range_nodeCount (h : d.build head = .ok t) :
    (t.root.subtrees.map Node.id).Perm (List.range t.nodeCount) := by
  rw [nodeCount_of_build h]
  exact ids_perm_range h

theorem annotated_of_build (h : d.build head = .ok t) : t.annotated = false := by
  rw [(assemble_eq_ok (assemble_of_build h)).1]

/-- Two splits and three leaves, most samples going right. -/
def lopsided : Draft := ⟨"t", 2, .int, #[⟨.split 0 1.5 1 2, none⟩, ⟨.leaf 10, some 1⟩,
  ⟨.split 1 2.5 3 4, some 3⟩, ⟨.leaf 11, some 1⟩, ⟨.leaf 12, some 2⟩]⟩

def lopsidedTree : Tree :=
  ⟨"t", 2, .int, .split ⟨0, none, 0⟩ 0 1.5 (.leaf ⟨1, some 1, 0⟩ 10)
    (.split ⟨2, some 3, 0⟩ 1 2.5 (.leaf ⟨3, some 1, 0⟩ 11) (.leaf ⟨4, some 2, 0⟩ 12)), false⟩

theorem build_lopsided : lopsided.build 0 = .ok lopsidedTree := by
  have hhead : lopsided.checkHead 0 = .ok () := by
    simp [checkHead, lopsided, show isIdentifier ['t'] = true by decide]
  have hrules : lopsided.checkSketches 0 [] lopsided.sketches.toList = .ok [4, 3, 2, 1] := by
    decide
  have hg : lopsided.grow lopsided.sketches.size 0 = some lopsidedTree.root := by decide
  exact build_of_grow hhead hrules (by decide) hg (by decide)

theorem exists_build_lopsided : ∃ t, lopsided.build 0 = .ok t := ⟨_, build_lopsided⟩

/-- One split of the only feature. -/
def stump (type : FeatureType) (threshold : Float) : Draft :=
  ⟨"t", 1, type, #[⟨.split 0 threshold 1 2, none⟩, ⟨.leaf 0, none⟩, ⟨.leaf 1, none⟩]⟩

def stumpTree (type : FeatureType) (threshold : Float) : Tree :=
  ⟨"t", 1, type, .split ⟨0, none, 0⟩ 0 threshold (.leaf ⟨1, none, 0⟩ 0) (.leaf ⟨2, none, 0⟩ 1),
    false⟩

theorem build_stump (type : FeatureType) {threshold : Float} (h : threshold.isFinite = true) :
    (stump type threshold).build 0 = .ok (stumpTree type threshold) := by
  have hhead : (stump type threshold).checkHead 0 = .ok () := by
    simp [checkHead, stump, show isIdentifier ['t'] = true by decide]
  have hrules : (stump type threshold).checkSketches 0 [] (stump type threshold).sketches.toList =
      .ok [2, 1] := by
    simp only [stump, checkSketches, checkRule, h]
    rfl
  have hg : (stump type threshold).grow (stump type threshold).sketches.size 0 =
      some (stumpTree type threshold).root := rfl
  exact build_of_grow hhead hrules (by decide) hg (show ∀ id < 3, id ∈ [0, 1, 2] by decide)

end Draft

/-! ### Probabilities -/

namespace Node

theorem id_annotate (p : Float) (n : Node) : (n.annotate p).id = n.id := by cases n <;> rfl

theorem size_annotate (p : Float) (n : Node) : (n.annotate p).size = n.size := by
  induction n generalizing p with
  | leaf m v => rfl
  | split m f t l r ihl ihr => simp only [annotate, size, ihl, ihr]

theorem ids_annotate (p : Float) (n : Node) :
    (n.annotate p).subtrees.map id = n.subtrees.map id := by
  induction n generalizing p with
  | leaf m v => rfl
  | split m f t l r ihl ihr =>
      simp only [annotate, subtrees, List.map_cons, List.map_append, ihl, ihr]
      rfl

theorem evaluate_annotate (p : Float) (x : FeatureVector) (n : Node) :
    (n.annotate p).evaluate x = n.evaluate x := by
  induction n generalizing p with
  | leaf m v => rfl
  | split m f t l r ihl ihr => simp only [annotate, evaluate, ihl, ihr]

/-- The splits of an annotated tree are those of the tree. -/
theorem exists_split_of_mem_annotate {p : Float} {n : Node} {m : Mark} {f : UInt32} {t : Float}
    {l r : Node} (h : .split m f t l r ∈ (n.annotate p).subtrees) :
    ∃ m' l' r', .split m' f t l' r' ∈ n.subtrees := by
  induction n generalizing p with
  | leaf m v => simp [annotate, subtrees] at h
  | split m' f' t' l' r' ihl ihr =>
      simp only [annotate, subtrees, List.mem_cons, List.mem_append] at h
      rcases h with h | h | h
      · obtain ⟨-, rfl, rfl, -, -⟩ := Node.split.inj h
        exact ⟨_, _, _, mem_subtrees_self _⟩
      · obtain ⟨m'', l'', r'', hm⟩ := ihl h
        exact ⟨m'', l'', r'', by simp [subtrees, hm]⟩
      · obtain ⟨m'', l'', r'', hm⟩ := ihr h
        exact ⟨m'', l'', r'', by simp [subtrees, hm]⟩

theorem WellFormed.annotate {dim : UInt32} {n : Node} (h : n.WellFormed dim) (p : Float) :
    (n.annotate p).WellFormed dim := by
  constructor
  · unfold Distinct
    rw [ids_annotate]
    exact h.distinct
  · intro m f t l r hm
    obtain ⟨m', l', r', hm'⟩ := exists_split_of_mem_annotate hm
    exact h.split hm'

end Node
end TreeCode
