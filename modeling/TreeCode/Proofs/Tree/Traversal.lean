import TreeCode.Proofs.Tree.Evaluation
import TreeCode.Proofs.Tree.Numbers

/-! # Loops that end

A loop that goes by the numbers of the nodes comes by each node once, and does what the recursion
over the tree does: it finds the height (`depth_eq_height`), the probabilities
(`annotateByNumbers_eq`) and the prediction (`evaluateByNumbers_eq`). -/

namespace TreeCode

/-! ### Setting probabilities -/

namespace Node

variable {n l r : Node} {m : Mark} {f : UInt32} {th prob : Float} {i : NodeId}
  {order orderL orderR : List (NodeId × Float)}

/-- Set probabilities one after the other. -/
def setProbs (n : Node) (order : List (NodeId × Float)) : Node :=
  order.foldl (fun n (i, prob) => n.setProb i prob) n

theorem setProb_of_not_mem (h : i ∉ n.subtrees.map id) : n.setProb i prob = n := by
  induction n with
  | leaf m p =>
      have hm : m.id ≠ i := fun hm => h (by simp [subtrees, id, mark, hm])
      rw [setProb, if_neg hm]
  | split m f th l r ihl ihr =>
      have hm : m.id ≠ i := fun hm => h (by simp [subtrees, id, mark, hm])
      rw [subtrees, List.map_cons, List.map_append, List.mem_cons, List.mem_append, not_or,
        not_or] at h
      rw [setProb, if_neg hm, ihl h.2.1, ihr h.2.2]

theorem ids_setProb (n : Node) : (n.setProb i prob).subtrees.map id = n.subtrees.map id := by
  induction n with
  | leaf m p =>
      rw [setProb]
      split_ifs <;> rfl
  | split m f th l r ihl ihr =>
      simp only [setProb, subtrees, List.map_cons, List.map_append, ihl, ihr]
      split_ifs <;> rfl

theorem setProbs_cons (n : Node) (a : NodeId × Float) :
    n.setProbs (a :: order) = (n.setProb a.1 a.2).setProbs order := rfl

theorem setProbs_append (n : Node) :
    n.setProbs (orderL ++ orderR) = (n.setProbs orderL).setProbs orderR :=
  List.foldl_append

theorem ids_setProbs (n : Node) : (n.setProbs order).subtrees.map id = n.subtrees.map id := by
  induction order generalizing n with
  | nil => rfl
  | cons a order ih => rw [setProbs_cons, ih, ids_setProb]

theorem setProbs_of_not_mem (h : ∀ a ∈ order, a.1 ∉ n.subtrees.map id) : n.setProbs order = n := by
  induction order with
  | nil => rfl
  | cons a order ih =>
      rw [setProbs_cons, setProb_of_not_mem (h a List.mem_cons_self)]
      exact ih fun b hb => h b (List.mem_cons_of_mem a hb)

theorem setProbs_sides (h : ∀ a ∈ order, m.id ≠ a.1) :
    (split m f th l r).setProbs order = split m f th (l.setProbs order) (r.setProbs order) := by
  induction order generalizing l r with
  | nil => rfl
  | cons a order ih =>
      simp only [setProbs_cons, setProb, if_neg (h a List.mem_cons_self)]
      exact ih fun b hb => h b (List.mem_cons_of_mem a hb)

/-- The probabilities of a split and of the nodes on its two sides are set where they belong. -/
theorem setProbs_split (hd : (split m f th l r).Distinct)
    (hl : (orderL.map Prod.fst).Perm (l.subtrees.map id))
    (hr : (orderR.map Prod.fst).Perm (r.subtrees.map id)) :
    (split m f th l r).setProbs ((m.id, prob) :: (orderL ++ orderR)) =
      split { m with prob := prob } f th (l.setProbs orderL) (r.setProbs orderR) := by
  simp only [Distinct, subtrees, List.map_cons, List.map_append, List.nodup_cons,
    List.nodup_append, List.mem_append, not_or] at hd
  obtain ⟨⟨hself, hself'⟩, -, -, hsides⟩ := hd
  have hself : m.id ∉ l.subtrees.map id := hself
  have hself' : m.id ∉ r.subtrees.map id := hself'
  have memL {a : NodeId × Float} (ha : a ∈ orderL) : a.1 ∈ l.subtrees.map id :=
    hl.mem_iff.1 (List.mem_map_of_mem ha)
  have memR {a : NodeId × Float} (ha : a ∈ orderR) : a.1 ∈ r.subtrees.map id :=
    hr.mem_iff.1 (List.mem_map_of_mem ha)
  have hne : ∀ a ∈ orderL ++ orderR, ({ m with prob := prob } : Mark).id ≠ a.1 := by
    intro a ha (hid : m.id = a.1)
    rcases List.mem_append.1 ha with ha | ha
    · exact hself (hid ▸ memL ha)
    · exact hself' (hid ▸ memR ha)
  -- what is set on one side changes nothing on the other
  have hleft : (l.setProbs orderL).setProbs orderR = l.setProbs orderL := by
    refine setProbs_of_not_mem fun a ha hmem => ?_
    rw [ids_setProbs] at hmem
    exact hsides _ hmem _ (memR ha) rfl
  have hright : r.setProbs orderL = r :=
    setProbs_of_not_mem fun a ha hmem => hsides _ (memL ha) _ hmem rfl
  rw [setProbs_cons, setProb, if_pos rfl]
  dsimp only
  rw [setProb_of_not_mem hself, setProb_of_not_mem hself', setProbs_sides hne, setProbs_append,
    setProbs_append, hleft, hright]

end Node

namespace Tree

/-- An evaluation goes on from one node to the other. -/
def GoesOn (t : Tree) (x : FeatureVector) (id child : NodeId) : Prop :=
  t.goDown x id = .ok (.inl child)

variable {t : Tree} {n : Node} {m : Mark} {f p : UInt32} {th v : Float} {l r : Node}
  {x : FeatureVector}

section distinct

variable (hroot : t.root.Distinct)
include hroot

/-! ### Depth -/

theorem deeper_leaf (hn : .leaf m p ∈ t.root.subtrees) (depth : Nat) :
    t.deeper (m.id, depth) = [] := by
  rw [deeper, childIds_leaf hroot hn]

theorem deeper_split (hn : .split m f th l r ∈ t.root.subtrees) (depth : Nat) :
    t.deeper (m.id, depth) = [(r.id, depth + 1), (l.id, depth + 1)] := by
  rw [deeper, childIds_split hroot hn]

/-- The search for the depth comes by each node once, and the greatest depth that it meets below a
node is that of the node and the height together. -/
theorem exists_deeper (hn : n ∈ t.root.subtrees) (depth : Nat) :
    ∃ order, WorkedOff t.deeper [(n.id, depth)] order ∧
      (order.map Prod.fst).Perm (n.subtrees.map Node.id) ∧
      ∀ greatest, order.foldl (fun greatest a => max greatest a.2) greatest =
        max greatest (depth + n.height) := by
  induction n generalizing depth with
  | leaf m p =>
      refine ⟨[(m.id, depth)], .single ?_, .refl _, fun greatest => rfl⟩
      show WorkedOff _ (t.deeper (m.id, depth)) []
      rw [deeper_leaf hroot hn]
      exact .nil
  | split m f th l r ihl ihr =>
      obtain ⟨orderL, hworkL, hpermL, hfoldL⟩ :=
        ihl (Node.mem_subtrees_trans Node.left_mem_subtrees hn) (depth + 1)
      obtain ⟨orderR, hworkR, hpermR, hfoldR⟩ :=
        ihr (Node.mem_subtrees_trans Node.right_mem_subtrees hn) (depth + 1)
      refine ⟨(m.id, depth) :: (orderR ++ orderL), .single ?_, ?_, fun greatest => ?_⟩
      · show WorkedOff _ (t.deeper (m.id, depth)) _
        rw [deeper_split hroot hn]
        exact hworkR.append hworkL
      · rw [List.map_cons, List.map_append, Node.subtrees, List.map_cons, List.map_append]
        exact ((hpermR.append hpermL).trans List.perm_append_comm).cons m.id
      · rw [List.foldl_cons, List.foldl_append, hfoldR, hfoldL, Node.height]
        omega

/-- **The depth** is the height of the root. -/
theorem depth_eq_height : t.depth = t.root.height := by
  obtain ⟨order, hwork, -, hfold⟩ := exists_deeper hroot (Node.mem_subtrees_self t.root) 0
  rw [depth, workOff_eq hwork, hfold]
  omega

/-! ### Probabilities -/

theorem passOn_leaf (hn : .leaf m p ∈ t.root.subtrees) (prob : Float) :
    t.passOn (m.id, prob) = [] := by
  rw [passOn, childIds_leaf hroot hn]

theorem passOn_split (hn : .split m f th l r ∈ t.root.subtrees) (prob : Float) :
    t.passOn (m.id, prob) = [(l.id, prob * (shares l.samples r.samples).1),
      (r.id, prob * (shares l.samples r.samples).2)] := by
  rw [passOn, childIds_split hroot hn]
  simp only [samples?_eq hroot (Node.mem_subtrees_trans Node.left_mem_subtrees hn),
    samples?_eq hroot (Node.mem_subtrees_trans Node.right_mem_subtrees hn)]

/-- Handing on the probability of a node comes by each node once, and sets the probabilities that
the node gives to those below it. -/
theorem exists_passOn (hn : n ∈ t.root.subtrees) (prob : Float) :
    ∃ order, WorkedOff t.passOn [(n.id, prob)] order ∧
      (order.map Prod.fst).Perm (n.subtrees.map Node.id) ∧
      n.setProbs order = n.annotate prob := by
  induction n generalizing prob with
  | leaf m p =>
      refine ⟨[(m.id, prob)], .single ?_, .refl _, ?_⟩
      · show WorkedOff _ (t.passOn (m.id, prob)) []
        rw [passOn_leaf hroot hn]
        exact .nil
      · simp [Node.setProbs, Node.setProb, Node.annotate]
  | split m f th l r ihl ihr =>
      have hl := Node.mem_subtrees_trans Node.left_mem_subtrees hn
      have hr := Node.mem_subtrees_trans Node.right_mem_subtrees hn
      obtain ⟨orderL, hworkL, hpermL, hsetL⟩ := ihl hl (prob * (shares l.samples r.samples).1)
      obtain ⟨orderR, hworkR, hpermR, hsetR⟩ := ihr hr (prob * (shares l.samples r.samples).2)
      refine ⟨(m.id, prob) :: (orderL ++ orderR), .single ?_, ?_, ?_⟩
      · show WorkedOff _ (t.passOn (m.id, prob)) _
        rw [passOn_split hroot hn]
        exact hworkL.append hworkR
      · rw [List.map_cons, List.map_append, Node.subtrees, List.map_cons, List.map_append]
        exact (hpermL.append hpermR).cons m.id
      · rw [Node.setProbs_split (hroot.of_mem_subtrees hn) hpermL hpermR, hsetL, hsetR,
          Node.annotate]

/-- **The probabilities set by the numbers** are those of the tree. -/
theorem annotateByNumbers_eq : t.annotateByNumbers = t.annotate := by
  obtain ⟨order, hwork, -, hset⟩ := exists_passOn hroot (Node.mem_subtrees_self t.root) 1
  rw [annotateByNumbers, workOff_eq hwork]
  show ({ t with root := t.root.setProbs order, annotated := true } : Tree) = t.annotate
  rw [hset, annotate]

/-! ### Evaluation -/

theorem goDown_leaf (hn : .leaf m p ∈ t.root.subtrees) : t.goDown x m.id = .ok (.inr p) := by
  have h : t.node? m.id = _ := node?_eq hroot hn
  rw [goDown, h]

theorem goDown_split (hn : .split m f th l r ∈ t.root.subtrees) (hv : x.read f = .ok v) :
    t.goDown x m.id = .ok (.inl (if v ≤ th then l.id else r.id)) := by
  have h : t.node? m.id = _ := node?_eq hroot hn
  rw [goDown, h]
  simp only [hv]
  rfl

theorem goDown_of_le (hn : .split m f th l r ∈ t.root.subtrees) (hf : x.size ≤ f.toNat) :
    t.goDown x m.id = .error (.missingFeature f) := by
  have h : t.node? m.id = _ := node?_eq hroot hn
  rw [goDown, h]
  simp only [FeatureVector.read_of_le hf]
  rfl

/-- Going down from a node is the evaluation of the node. -/
theorem repeatM_goDown (hn : n ∈ t.root.subtrees) (x : FeatureVector) :
    repeatM (t.goDown x) n.id = n.evaluate x := by
  induction n with
  | leaf m p =>
      show repeatM (t.goDown x) m.id = _
      rw [repeatM_eq_of_monadTail, repeatM.body, goDown_leaf hroot hn]
      rfl
  | split m f th l r ihl ihr =>
      show repeatM (t.goDown x) m.id = _
      rw [repeatM_eq_of_monadTail, repeatM.body]
      rcases x.read_cases f with ⟨v, -, hv⟩ | ⟨hf, -⟩
      · rw [goDown_split hroot hn hv, Node.evaluate_of_read hv]
        split_ifs
        · exact ihl (Node.mem_subtrees_trans Node.left_mem_subtrees hn)
        · exact ihr (Node.mem_subtrees_trans Node.right_mem_subtrees hn)
      · rw [goDown_of_le hroot hn hf, Node.evaluate_of_le hf]
        rfl

/-- An evaluation that comes to a prediction ends at a leaf below the node. -/
theorem exists_goesOn (hn : n ∈ t.root.subtrees) (hp : n.evaluate x = .ok p) :
    ∃ m, .leaf m p ∈ n.subtrees ∧ Relation.ReflTransGen (t.GoesOn x) n.id m.id ∧
      t.goDown x m.id = .ok (.inr p) := by
  induction n with
  | leaf m q =>
      cases hp
      exact ⟨m, Node.mem_subtrees_self _, .refl, goDown_leaf hroot hn⟩
  | split m f th l r ihl ihr =>
      obtain ⟨v, hv, hp⟩ := bind_eq_ok_iff.1 hp
      have hstep : t.GoesOn x m.id (if v ≤ th then l.id else r.id) := goDown_split hroot hn hv
      split_ifs at hp hstep
      · obtain ⟨m', hm, hsteps, hend⟩ :=
          ihl (Node.mem_subtrees_trans Node.left_mem_subtrees hn) hp
        exact ⟨m', Node.mem_subtrees_trans hm Node.left_mem_subtrees, hsteps.head hstep, hend⟩
      · obtain ⟨m', hm, hsteps, hend⟩ :=
          ihr (Node.mem_subtrees_trans Node.right_mem_subtrees hn) hp
        exact ⟨m', Node.mem_subtrees_trans hm Node.right_mem_subtrees, hsteps.head hstep, hend⟩

end distinct

/-- **The evaluation by the numbers** is that of the tree. -/
theorem evaluateByNumbers_eq (hroot : t.root.Distinct) (x : FeatureVector) :
    t.evaluateByNumbers x = t.evaluate x :=
  repeatM_goDown hroot (Node.mem_subtrees_self t.root) x

end Tree

/-! ### Trees that were built -/

namespace Draft

variable {d : Draft} {head : NodeId} {t : Tree}

/-- **A tree that was built is a binary tree**, and every loop over its nodes ends. One path leads
from the head to each node, and no way down comes back; the loops with a stack come by every node
once, and find the height and the probabilities; and going down from the head ends at a leaf with
the prediction. -/
theorem traversals_end (hb : d.build head = .ok t) :
    (∀ n ∈ t.nodes, ∃! path, t.follow head path = some n.id) ∧
      (∀ id, ¬Relation.TransGen t.HasChild id id) ∧
      t.nodes.countP (·.isLeaf) = t.nodes.countP (!·.isLeaf) + 1 ∧
      (∃ order, WorkedOff t.deeper [(head, 0)] order ∧
        (order.map Prod.fst).Perm (t.nodes.map Node.id)) ∧
      t.depth = t.root.height ∧
      (∃ order, WorkedOff t.passOn [(head, 1)] order ∧
        (order.map Prod.fst).Perm (t.nodes.map Node.id)) ∧
      t.annotateByNumbers = t.annotate ∧
      ∀ x : FeatureVector, t.dim.toNat ≤ x.size → ∃ m p, .leaf m p ∈ t.nodes ∧
        Relation.ReflTransGen (t.GoesOn x) head m.id ∧ t.goDown x m.id = .ok (.inr p) ∧
        t.evaluateByNumbers x = .ok p ∧ t.evaluate x = .ok p := by
  have hwf := build_wellFormed hb
  have hroot := hwf.distinct
  have hself := Node.mem_subtrees_self t.root
  have hnodes : t.nodes.Perm t.root.subtrees :=
    Tree.nodes_perm hroot (ids_perm_range_nodeCount hb)
  obtain ⟨orderD, hworkD, hpermD, -⟩ := Tree.exists_deeper hroot hself 0
  obtain ⟨orderP, hworkP, hpermP, -⟩ := Tree.exists_passOn hroot hself 1
  rw [← root_id_of_build hb]
  refine ⟨fun n hn => ?_, Tree.not_hasChild_cycle hroot, ?_, ⟨orderD, hworkD, ?_⟩,
    Tree.depth_eq_height hroot, ⟨orderP, hworkP, ?_⟩, Tree.annotateByNumbers_eq hroot, ?_⟩
  · obtain ⟨path, hpath⟩ := Tree.exists_follow hroot hself (hnodes.mem_iff.1 hn)
    exact ⟨path, hpath, fun path' hpath' => Tree.follow_injective hroot hself hpath' hpath⟩
  · rw [hnodes.countP_eq, hnodes.countP_eq]
    exact Node.countP_isLeaf t.root
  · exact hpermD.trans (hnodes.map Node.id).symm
  · exact hpermP.trans (hnodes.map Node.id).symm
  · intro x hx
    obtain ⟨-, p, -, hp⟩ := hwf.exists_leaf hx []
    rw [Node.evaluateWith_nil] at hp
    obtain ⟨m, hm, hsteps, hend⟩ := Tree.exists_goesOn hroot hself hp
    refine ⟨m, p, hnodes.mem_iff.2 hm, hsteps, hend, ?_, hp⟩
    rw [Tree.evaluateByNumbers_eq hroot]
    exact hp

theorem traversals_end_lopsided : lopsided.build 0 = .ok lopsidedTree ∧
    (∃! path, lopsidedTree.follow 0 path = some 4) ∧ lopsidedTree.depth = 2 ∧
    lopsidedTree.evaluateByNumbers #[2, 3] = .ok 12 := by
  obtain ⟨hpath, -, -, -, hdepth, -, -, heval⟩ := traversals_end build_lopsided
  obtain ⟨m, p, -, -, -, hnumbers, hp⟩ := heval #[2, 3] (by decide)
  have h12 : lopsidedTree.evaluate #[2, 3] = .ok 12 := by decide
  refine ⟨build_lopsided, hpath (.leaf ⟨4, some 2, 0⟩ 12) (by decide), hdepth, ?_⟩
  rw [hnumbers, ← hp, h12]

end Draft
end TreeCode
