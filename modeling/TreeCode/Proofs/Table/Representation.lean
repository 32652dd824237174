import TreeCode.Proofs.Table.Layout
import TreeCode.Proofs.Tree.Built

/-! # Tables that represent a tree

Once nothing waits, all nodes have been laid out, and every place for a child has been filled. So
packing a tree that was built succeeds whatever the length of the runs (`exists_pack`), and the
table is the tree under new numbers (`pack_renumbers`). -/

namespace TreeCode

/-! ### Representation -/

namespace Table

/-- The table holds the nodes of a tree under numbers of its own, which are positions: a child
comes after its parent, and each entry is that of its node. -/
structure Represents (t : Table) (root : Node) : Prop where
  size : t.size = root.size
  exists_index : ∀ n ∈ root.subtrees, ∃ i < t.size, t.index? n.id = some i
  exists_node : ∀ i < t.size, ∃ n ∈ root.subtrees, t.index? n.id = some i
  exists_mem : ∀ {id i}, t.index? id = some i → ∃ n ∈ root.subtrees, n.id = id
  injective : ∀ {id id' i}, t.index? id = some i → t.index? id' = some i → id = id'
  index_root : t.index? root.id = some 0
  leaf : ∀ {m p i}, .leaf m p ∈ root.subtrees → t.index? m.id = some i →
    t.entries[i]? = some ⟨true, p, 0, 0, 0, 0⟩
  split : ∀ {m f th l r i}, .split m f th l r ∈ root.subtrees → t.index? m.id = some i →
    ∃ j k, t.index? l.id = some j ∧ t.index? r.id = some k ∧ i < j ∧ i < k ∧
      t.entries[i]? = some ⟨false, 0, f, th, j, k⟩

end Table

namespace Packing.Laid

variable {root : Node} {s : Packing} {done : List Node} (hroot : root.Distinct)
  (h : Laid root s done [])
include h

theorem perm_done : done.Perm root.subtrees := by simpa using h.perm

theorem size_done : s.entries.size = root.size := by
  rw [h.size, h.perm_done.length_eq, Node.length_subtrees]

theorem exists_position {n : Node} (hn : n ∈ root.subtrees) : ∃ i : Nat, done[i]? = some n :=
  List.mem_iff_getElem?.1 (h.perm_done.mem_iff.2 hn)

/-- The root is laid out first: every other node comes after its parent. -/
theorem getElem?_zero : done[0]? = some root := by
  obtain ⟨i, hi⟩ := h.exists_position (Node.mem_subtrees_self root)
  have hlt : 0 < done.length := by
    have := (List.getElem?_eq_some_iff.1 hi).1
    omega
  have h0 : done[0]? = some done[0] := List.getElem?_eq_getElem hlt
  have hmem : done[0] ∈ root.subtrees := h.perm_done.mem_iff.1 (List.getElem_mem hlt)
  rcases Node.eq_or_exists_parent hmem with he | ⟨b, hb, hbc⟩
  · rw [h0, he]
  · obtain ⟨j, hj⟩ := h.exists_position hb
    exact absurd (h.later hj h0 hbc) (Nat.not_lt_zero j)

include hroot

theorem lookup_eq_some_iff {n : Node} {i : Nat} (hn : n ∈ root.subtrees) :
    s.index.lookup n.id = some i ↔ done[i]? = some n := by
  rw [h.index]
  constructor
  · rintro ⟨a, ha, hid⟩
    have ham := h.perm_done.mem_iff.1 (List.mem_of_getElem? ha)
    rw [← hroot.eq_of_id_eq ham hn hid]
    exact ha
  · intro hi
    exact ⟨n, hi, rfl⟩

theorem represents (name : String) (runs : Nat) (events : List Event) :
    Table.Represents ⟨name, s.entries, s.index, runs, events⟩ root where
  size := h.size_done
  exists_index n hn := by
    obtain ⟨i, hi⟩ := h.exists_position hn
    refine ⟨i, ?_, (h.lookup_eq_some_iff hroot hn).2 hi⟩
    rw [Table.size, h.size]
    exact (List.getElem?_eq_some_iff.1 hi).1
  exists_node i hi := by
    rw [Table.size, h.size] at hi
    have hd : done[i]? = some done[i] := List.getElem?_eq_getElem hi
    have hn := h.perm_done.mem_iff.1 (List.getElem_mem hi)
    exact ⟨_, hn, (h.lookup_eq_some_iff hroot hn).2 hd⟩
  exists_mem hi := by
    obtain ⟨n, hn, hid⟩ := (h.index _ _).1 hi
    exact ⟨n, h.perm_done.mem_iff.1 (List.mem_of_getElem? hn), hid⟩
  injective hi hi' := by
    obtain ⟨n, hn, rfl⟩ := (h.index _ _).1 hi
    obtain ⟨n', hn', rfl⟩ := (h.index _ _).1 hi'
    rw [Option.some.inj (hn.symm.trans hn')]
  index_root := (h.lookup_eq_some_iff hroot (Node.mem_subtrees_self _)).2 h.getElem?_zero
  leaf hn hi := h.entries ((h.lookup_eq_some_iff hroot hn).1 hi)
  split {m f th l r i} hn hi := by
    have hd := (h.lookup_eq_some_iff hroot hn).1 hi
    have child {c : Node} (hc : c ∈ (Node.split m f th l r).children) :
        ∃ j, s.index.lookup c.id = some j ∧ i < j := by
      have hcm := Node.mem_subtrees_trans (Node.mem_subtrees_of_mem_children hc) hn
      obtain ⟨j, hj⟩ := h.exists_position hcm
      exact ⟨j, (h.lookup_eq_some_iff hroot hcm).2 hj, h.later hd hj hc⟩
    obtain ⟨j, hj, hij⟩ := child (c := l) (by simp [Node.children])
    obtain ⟨k, hk, hik⟩ := child (c := r) (by simp [Node.children])
    refine ⟨j, k, hj, hk, hij, hik, ?_⟩
    rw [h.entries hd]
    simp only [Node.entry, IndexMap.position, hj, hk, Option.getD_some]

end Packing.Laid

/-- Once everything is laid out, packing has succeeded. -/
theorem Table.pack_eq_ok {t : Tree} {kernelSize : Nat} {s : Packing} {done : List Node}
    (ha : t.annotated = true) (hk : 0 < kernelSize)
    (hs : Packing.layAll kernelSize .empty [⟨t.root, none⟩] = .ok s)
    (h : Packing.Laid t.root s done []) : Table.pack t kernelSize =
      .ok ⟨t.name, s.entries, s.index, s.runs, s.events.toList⟩ := by
  unfold Table.pack
  rw [ha, if_neg (by simp), if_neg (by omega), hs]
  dsimp only
  rw [if_neg]
  rw [h.unresolved, h.size_done]
  simp [Tree.nodeCount]

/-- **Packing** an annotated tree always succeeds, with a table that represents the tree. The runs
lay out the kernels of the tree, in some order. -/
theorem Table.exists_pack_kernels {t : Tree} {kernelSize : Nat} (hroot : t.root.Distinct)
    (ha : t.annotated = true) (hk : 0 < kernelSize) :
    ∃ (table : Table) (kernels : List (List Node)), Table.pack t kernelSize = .ok table ∧
      table.Represents t.root ∧ kernels.Perm (t.root.kernels kernelSize) ∧
      table.runs = kernels.length ∧
      ∀ n ∈ t.root.subtrees, ∀ i, table.index? n.id = some i ↔ kernels.flatten[i]? = some n := by
  obtain ⟨s, kernels, hs, h, hruns, hkernels⟩ := (Packing.Laid.empty t.root).layAll hroot hk
  rw [List.nil_append] at h
  refine ⟨_, kernels, Table.pack_eq_ok ha hk hs h,
    h.represents hroot t.name s.runs s.events.toList, ?_, ?_, ?_⟩
  · simpa using hkernels
  · exact hruns.trans (Nat.zero_add _)
  · exact fun n hn i => h.lookup_eq_some_iff hroot hn

theorem Table.exists_pack {t : Tree} {kernelSize : Nat} (hroot : t.root.Distinct)
    (ha : t.annotated = true) (hk : 0 < kernelSize) :
    ∃ table, Table.pack t kernelSize = .ok table ∧ table.Represents t.root := by
  obtain ⟨table, -, hpack, h, -⟩ := exists_pack_kernels hroot ha hk
  exact ⟨table, hpack, h⟩

/-! ### Trees that were built -/

namespace Draft

variable {d : Draft} {head : NodeId} {t : Tree}

theorem root_wellFormed_annotate (hb : d.build head = .ok t) :
    t.annotate.root.WellFormed t.annotate.dim :=
  (build_wellFormed hb).annotate 1

theorem mem_ids_annotate_iff (hb : d.build head = .ok t) {id : NodeId} :
    (∃ n ∈ t.annotate.root.subtrees, n.id = id) ↔ id < t.nodeCount := by
  rw [← List.mem_map, Tree.annotate, Node.ids_annotate, (ids_perm_range hb).mem_iff,
    List.mem_range, nodeCount_of_build hb]

/-- **The table of a tree is the tree under new numbers.** Packing never fails; the table has an
entry for each node and no other, that of the head first; and an entry holds the rule of its node
and the positions of its children, which come later. -/
theorem pack_renumbers (hb : d.build head = .ok t) {kernelSize : Nat} (hk : 0 < kernelSize) :
    ∃ table, Table.pack t.annotate kernelSize = .ok table ∧
      t.nodeCount = d.sketches.size ∧ table.size = t.nodeCount ∧
      (∀ id, (∃ i, table.index? id = some i) ↔ id < t.nodeCount) ∧
      (∀ i, (∃ id, table.index? id = some i) ↔ i < t.nodeCount) ∧
      (∀ id id' i, table.index? id = some i → table.index? id' = some i → id = id') ∧
      table.index? head = some 0 ∧
      (∀ m p, .leaf m p ∈ t.annotate.root.subtrees → ∃ i, table.index? m.id = some i ∧
        table.entries[i]? = some ⟨true, p, 0, 0, 0, 0⟩) ∧
      (∀ m f th l r, .split m f th l r ∈ t.annotate.root.subtrees →
        ∃ i j k, table.index? m.id = some i ∧ table.index? l.id = some j ∧
          table.index? r.id = some k ∧ i < j ∧ i < k ∧
          table.entries[i]? = some ⟨false, 0, f, th, j, k⟩) := by
  obtain ⟨table, hpack, h⟩ :=
    Table.exists_pack (t := t.annotate) (root_wellFormed_annotate hb).distinct rfl hk
  have hsize : table.size = t.nodeCount := h.size.trans (Node.size_annotate 1 t.root)
  refine ⟨table, hpack, nodeCount_of_build hb, hsize, ?_, ?_, ?_, ?_, ?_, ?_⟩
  · intro id
    rw [← mem_ids_annotate_iff hb]
    constructor
    · rintro ⟨i, hi⟩
      exact h.exists_mem hi
    · rintro ⟨n, hn, rfl⟩
      obtain ⟨i, -, hi⟩ := h.exists_index n hn
      exact ⟨i, hi⟩
  · intro i
    rw [← hsize]
    constructor
    · rintro ⟨id, hi⟩
      obtain ⟨n, hn, rfl⟩ := h.exists_mem hi
      obtain ⟨j, hlt, hj⟩ := h.exists_index n hn
      rwa [Option.some.inj (hi.symm.trans hj)]
    · intro hi
      obtain ⟨n, -, hn⟩ := h.exists_node i hi
      exact ⟨n.id, hn⟩
  · exact fun _ _ _ hi hi' => h.injective hi hi'
  · rw [← root_id_of_build hb, ← Node.id_annotate 1]
    exact h.index_root
  · intro m p hm
    obtain ⟨i, -, hi⟩ := h.exists_index _ hm
    exact ⟨i, hi, h.leaf hm hi⟩
  · intro m f th l r hm
    obtain ⟨i, -, hi⟩ := h.exists_index _ hm
    obtain ⟨j, k, hj, hk, hij, hik, he⟩ := h.split hm hi
    exact ⟨i, j, k, hi, hj, hk, hij, hik, he⟩

theorem pack_renumbers_lopsided : 0 < 1 ∧ ∃ t table, lopsided.build 0 = .ok t ∧
    Table.pack t.annotate 1 = .ok table ∧ table.size = 5 ∧ table.index? 0 = some 0 := by
  obtain ⟨t, ht⟩ := exists_build_lopsided
  obtain ⟨table, hpack, hcount, hsize, -, -, -, hhead, -, -⟩ := pack_renumbers ht Nat.one_pos
  exact ⟨Nat.one_pos, t, table, ht, hpack, hsize.trans hcount, hhead⟩

end Draft

end TreeCode
