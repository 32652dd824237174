import Mathlib.Logic.Relation
import TreeCode.Proofs.Table.Representation
import TreeCode.Proofs.Tree.Evaluation

/-! # Walks

The loop goes from the entry of a split to that of a child, which is a later one (`lt_of_step`).
So it always ends, and a walk from the entry of any node is the evaluation of that node
(`Represents.walk_eq`). Every position of the table is the entry of one node, so there is no
position from which a walk could go wrong (`walk_from_every_entry`). -/

namespace TreeCode

/-! ### Rounds of the loop -/

namespace Table

/-- The loop goes on from position `i` to position `j`. -/
def Step (t : Table) (x : FeatureVector) (i j : Nat) : Prop := t.visit x i = .ok (.inl j)

variable {t : Table} {root : Node} {x : FeatureVector} {m : Mark} {f p : UInt32} {th v : Float}
  {l r : Node} {i j : Nat}

theorem walk_of_step (h : t.Step x i j) : t.walk i x = t.walk j x := by
  rw [walk, repeatM_eq_of_monadTail, repeatM.body, h]
  rfl

theorem walk_of_visit_inr (h : t.visit x i = .ok (.inr p)) : t.walk i x = .ok p := by
  rw [walk, repeatM_eq_of_monadTail, repeatM.body, h]
  rfl

theorem walk_of_visit_error {fault : Fault} (h : t.visit x i = .error fault) :
    t.walk i x = .error fault := by
  rw [walk, repeatM_eq_of_monadTail, repeatM.body, h]
  rfl

namespace Represents

variable (h : t.Represents root)
include h

theorem lt_size {id : NodeId} (hi : t.index? id = some i) : i < t.size := by
  obtain ⟨n, hn, rfl⟩ := h.exists_mem hi
  obtain ⟨j, hj, hj'⟩ := h.exists_index n hn
  rwa [Option.some.inj (hi.symm.trans hj')]

theorem visit_leaf (hn : .leaf m p ∈ root.subtrees) (hi : t.index? m.id = some i) :
    t.visit x i = .ok (.inr p) := by
  rw [visit, h.leaf hn hi]
  rfl

/-- From a split the loop goes to the child to which an evaluation goes. -/
theorem exists_step (hn : .split m f th l r ∈ root.subtrees) (hi : t.index? m.id = some i)
    (hv : x.read f = .ok v) :
    ∃ j, t.index? (if v ≤ th then l else r).id = some j ∧ t.Step x i j := by
  obtain ⟨j, k, hj, hk, -, -, he⟩ := h.split hn hi
  refine ⟨if v ≤ th then j else k, ?_, ?_⟩
  · split
    · exact hj
    · exact hk
  · rw [Step, visit, he]
    simp only [hv, Bool.false_eq_true, ↓reduceIte]
    rfl

theorem visit_of_le (hn : .split m f th l r ∈ root.subtrees) (hi : t.index? m.id = some i)
    (hf : x.size ≤ f.toNat) : t.visit x i = .error (.missingFeature f) := by
  obtain ⟨j, k, -, -, -, -, he⟩ := h.split hn hi
  rw [visit, he]
  simp only [FeatureVector.read_of_le hf, Bool.false_eq_true, ↓reduceIte]
  rfl

/-- **Every step** goes on to a later entry. -/
theorem lt_of_step (hs : t.Step x i j) : i < j ∧ j < t.size := by
  unfold Step visit at hs
  split at hs
  · cases hs
  · rename_i e he
    obtain ⟨n, hn, hi⟩ := h.exists_node i (Array.getElem?_eq_some_iff.1 he).1
    cases n with
    | leaf m p =>
        rw [h.leaf hn hi, Option.some.injEq] at he
        subst he
        cases hs
    | split m f th l r =>
        obtain ⟨j', k', hj, hk, hij, hik, he'⟩ := h.split hn hi
        rw [he', Option.some.injEq] at he
        subst he
        obtain ⟨v, -, hj'⟩ := bind_eq_ok_iff.1 hs
        obtain rfl := Sum.inl.inj (Except.ok.inj hj')
        split
        · exact ⟨hij, h.lt_size hj⟩
        · exact ⟨hik, h.lt_size hk⟩

/-! ### Whole walks -/

/-- **A walk** from the entry of a node is the evaluation of the node. -/
theorem walk_eq (x : FeatureVector) {n : Node} (hn : n ∈ root.subtrees) {i : Nat}
    (hi : t.index? n.id = some i) : t.walk i x = n.evaluate x := by
  -- the loop follows the tree, so the induction is on the node and not on the position
  induction n generalizing i with
  | leaf m p => exact walk_of_visit_inr (h.visit_leaf hn hi)
  | split m f th l r ihl ihr =>
      rcases x.read_cases f with ⟨v, -, hv⟩ | ⟨hf, -⟩
      · obtain ⟨j, hj, hs⟩ := h.exists_step hn hi hv
        rw [walk_of_step hs, Node.evaluate_of_read hv]
        split_ifs at hj ⊢
        · exact ihl (Node.mem_subtrees_trans Node.left_mem_subtrees hn) hj
        · exact ihr (Node.mem_subtrees_trans Node.right_mem_subtrees hn) hj
      · rw [walk_of_visit_error (h.visit_of_le hn hi hf), Node.evaluate_of_le hf]

/-- The steps of the loop lead to the leaf whose prediction an evaluation gives. -/
theorem exists_steps {n : Node} (hn : n ∈ root.subtrees) {i : Nat} (hi : t.index? n.id = some i)
    (hp : n.evaluate x = .ok p) : ∃ m j, .leaf m p ∈ n.subtrees ∧ t.index? m.id = some j ∧
      Relation.ReflTransGen (t.Step x) i j := by
  induction n generalizing i with
  | leaf m p' =>
      cases hp
      exact ⟨m, i, Node.mem_subtrees_self _, hi, .refl⟩
  | split m f th l r ihl ihr =>
      obtain ⟨v, hv, hp⟩ := bind_eq_ok_iff.1 hp
      obtain ⟨j, hj, hs⟩ := h.exists_step hn hi hv
      split_ifs at hj hp
      · have hl := Node.mem_subtrees_trans Node.left_mem_subtrees hn
        obtain ⟨m', k, hm, hk, hjk⟩ := ihl hl hj hp
        exact ⟨m', k, Node.mem_subtrees_trans hm Node.left_mem_subtrees, hk, hjk.head hs⟩
      · have hr := Node.mem_subtrees_trans Node.right_mem_subtrees hn
        obtain ⟨m', k, hm, hk, hjk⟩ := ihr hr hj hp
        exact ⟨m', k, Node.mem_subtrees_trans hm Node.right_mem_subtrees, hk, hjk.head hs⟩

end Represents
end Table

/-! ### Trees that were built -/

namespace Draft

variable {d : Draft} {head : NodeId} {t : Tree} {x : FeatureVector}

/-- **A walk may start anywhere.** The positions of the table are the entries of the nodes, one
each; from there the loop goes on to later entries only, until it comes to a leaf below the node,
and what it finds there is the evaluation of the node. -/
theorem walk_from_every_entry (hb : d.build head = .ok t) {kernelSize : Nat} (hk : 0 < kernelSize)
    (hx : t.dim.toNat ≤ x.size) :
    ∃ table, Table.pack t.annotate kernelSize = .ok table ∧
      (∀ i j, table.Step x i j → i < j ∧ j < table.size) ∧
      (∀ n ∈ t.annotate.root.subtrees, ∃ i p, i < table.size ∧ table.index? n.id = some i ∧
        n.evaluate x = .ok p ∧ table.walk i x = .ok p) ∧
      ∀ i < table.size, ∃ n ∈ t.annotate.root.subtrees,
        (∀ id, table.index? id = some i ↔ id = n.id) ∧
        ∃ m p j, .leaf m p ∈ n.subtrees ∧ table.index? m.id = some j ∧
          Relation.ReflTransGen (table.Step x) i j ∧ table.visit x j = .ok (.inr p) ∧
          table.walk i x = .ok p := by
  have hroot := root_wellFormed_annotate hb
  obtain ⟨table, hpack, h⟩ := Table.exists_pack (t := t.annotate) hroot.distinct rfl hk
  have hleaf {n : Node} (hn : n ∈ t.annotate.root.subtrees) : ∃ p, n.evaluate x = .ok p := by
    obtain ⟨m, p, -, hp⟩ := (hroot.of_mem_subtrees hn).exists_leaf hx []
    exact ⟨p, by rw [← Node.evaluateWith_nil, hp]⟩
  refine ⟨table, hpack, fun i j => h.lt_of_step, ?_, ?_⟩
  · intro n hn
    obtain ⟨i, hlt, hi⟩ := h.exists_index n hn
    obtain ⟨p, hp⟩ := hleaf hn
    exact ⟨i, p, hlt, hi, hp, by rw [h.walk_eq x hn hi, hp]⟩
  · intro i hlt
    obtain ⟨n, hn, hi⟩ := h.exists_node i hlt
    obtain ⟨p, hp⟩ := hleaf hn
    obtain ⟨m, j, hm, hj, hsteps⟩ := h.exists_steps hn hi hp
    have hvisit := h.visit_leaf (x := x) (Node.mem_subtrees_trans hm hn) hj
    refine ⟨n, hn, fun id => ⟨fun hid => h.injective hid hi, ?_⟩,
      m, p, j, hm, hj, hsteps, hvisit, ?_⟩
    · rintro rfl
      exact hi
    · rw [h.walk_eq x hn hi, hp]

theorem walk_from_every_entry_lopsided : 0 < 3 ∧ ∃ t table p, lopsided.build 0 = .ok t ∧
    t.dim.toNat ≤ (#[0 / 0, 0] : FeatureVector).size ∧ Table.pack t.annotate 3 = .ok table ∧
    t.evaluate #[0 / 0, 0] = .ok p ∧ ∃ i, table.index? 0 = some i ∧
      table.walk i #[0 / 0, 0] = .ok p := by
  obtain ⟨t, ht⟩ := exists_build_lopsided
  have hx : t.dim.toNat ≤ (#[0 / 0, 0] : FeatureVector).size := by
    rw [(build_eq_ok ht).1]
    decide
  obtain ⟨table, hpack, -, hindex, -⟩ := walk_from_every_entry ht (by decide : 0 < 3) hx
  obtain ⟨i, p, -, hi, hp, hw⟩ := hindex t.annotate.root (Node.mem_subtrees_self _)
  refine ⟨by decide, t, table, p, ht, hx, hpack, ?_, i, ?_, hw⟩
  · rwa [Tree.annotate, Node.evaluate_annotate] at hp
  · rwa [Tree.annotate, Node.id_annotate, root_id_of_build ht] at hi

end Draft
end TreeCode
