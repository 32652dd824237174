import Mathlib.Algebra.Order.BigOperators.Group.List
import Mathlib.Algebra.Order.Ring.Nat
import TreeCode.Proofs.Table.Representation
import TreeCode.Proofs.Tree.Traversal

/-! # Runs

The runs of a table are the hot chains of the tree cut into kernels: what comes next on a chain
comes next in the table, unless it starts a kernel, and there are as many runs as kernels
(`runs_are_kernels`). So longer kernels never give more runs, and all kernels that are longer than
the tree is deep give the same table, with a run for each leaf. -/

namespace TreeCode

/-! ### Numbers of kernels -/

namespace Node

variable {n : Node} {k k' : Nat}

theorem length_kernels (k : Nat) (n : Node) :
    (n.kernels k).length = (n.hotChains.map fun chain => (chain.length ⌈/⌉ k : Nat)).sum := by
  rw [kernels, List.length_flatMap]
  simp only [length_pieces]

/-- Longer kernels are not more kernels. -/
theorem length_kernels_anti (hk : 0 < k) (h : k ≤ k') :
    (n.kernels k').length ≤ (n.kernels k).length := by
  rw [length_kernels, length_kernels]
  refine List.sum_le_sum fun chain _ => ?_
  rw [ceilDiv_le_iff_le_mul (Nat.lt_of_lt_of_le hk h)]
  calc chain.length
      _ ≤ k * (chain.length ⌈/⌉ k) := (ceilDiv_le_iff_le_mul hk).1 (Nat.le_refl _)
      _ ≤ k' * (chain.length ⌈/⌉ k) := Nat.mul_le_mul_right _ h

theorem length_kernels_one (n : Node) : (n.kernels 1).length = n.size := by
  rw [length_kernels]
  simp only [ceilDiv_one]
  rw [← List.length_flatten, (flatten_hotChains_perm n).length_eq, length_subtrees]

/-- A chain that is not longer than a kernel is one kernel. -/
theorem length_kernels_of_height_lt (h : n.height < k) :
    (n.kernels k).length = n.subtrees.countP isLeaf := by
  have hone : ∀ chain ∈ n.hotChains, chain.length ⌈/⌉ k = 1 := by
    intro chain hchain
    obtain ⟨start, hstart, rfl⟩ := List.mem_map.1 hchain
    obtain ⟨rest, hrest⟩ := exists_hotChain start
    have hpos : 0 < start.hotChain.length := by
      rw [hrest]
      exact Nat.succ_pos _
    have hle : start.hotChain.length ≤ k := by
      have := length_hotChain_le start
      have := height_le_of_mem_subtrees (mem_subtrees_of_mem_chainStarts hstart)
      omega
    rw [Nat.ceilDiv_eq_add_pred_div]
    exact Nat.div_eq_of_lt_le (by omega) (by omega)
  rw [length_kernels, List.map_congr_left hone, List.map_const', List.sum_replicate,
    length_hotChains, smul_eq_mul, Nat.mul_one]

end Node

/-! ### Long kernels -/

namespace Packing

variable {root : Node} {s : Packing} {done : List Node} {waiting : List Pending} {k k' : Nat}

/-- A run that comes to a leaf before it is full does not depend on the length of a full run. -/
theorem layRun_congr {first : Nat} {queue : List Pending} {link : Option Link} {n : Node}
    (h : s.entries.size - first + n.height < k) (h' : s.entries.size - first + n.height < k') :
    layRun k first s queue link n = layRun k' first s queue link n := by
  induction n generalizing s queue link with
  | leaf m p => rw [layRun, layRun]
  | split m f t l r ihl ihr =>
      unfold layRun
      cases hs : s.place ⟨.split m f t l r, link⟩ with
      | error fault => rfl
      | ok s₁ =>
          have hsize := (place_eq_ok hs).1
          rw [Node.height] at h h'
          have hroom : ¬k ≤ s₁.entries.size - first := by omega
          have hroom' : ¬k' ≤ s₁.entries.size - first := by omega
          simp only [bind, Except.bind]
          rw [if_neg hroom, if_neg hroom']
          split_ifs
          · exact ihl (by omega) (by omega)
          · exact ihr (by omega) (by omega)

/-- Runs that are longer than the tree is deep are never full. -/
theorem layAll_congr (hroot : root.Distinct) (hk : root.height < k) (hk' : root.height < k')
    (h : Laid root s done waiting) : layAll k s waiting = layAll k' s waiting := by
  let motive (s : Packing) (_ : List Node) (waiting : List Pending) (s' : Packing) : Prop :=
    layAll k' s waiting = .ok s'
  obtain ⟨s', hall, hall'⟩ : ∃ s', layAll k s waiting = .ok s' ∧ motive s done waiting s' := by
    refine h.layAll_induction (motive := motive) hroot (Nat.zero_lt_of_lt hk) (fun {s _} _ => ?_)
      fun {s done start _ _ _ _} h hrun hrest => ?_
    · show layAll k' s [] = .ok s
      rw [layAll]
    · have hheight : start.node.height ≤ root.height :=
        Node.height_le_of_mem_subtrees (h.mem_root_of_below (Node.mem_subtrees_self _))
      have hzero : s.openRun.entries.size - s.entries.size = 0 := Nat.sub_self _
      have hrun' := hrun.eq_ok
      rw [layRun_congr (by omega) (by omega : _ < k')] at hrun'
      exact (layAll_cons hrun').trans hrest
  rw [hall]
  exact hall'.symm

end Packing

theorem Table.pack_congr {t : Tree} {k k' : Nat} (hroot : t.root.Distinct)
    (hk : t.root.height < k) (hk' : t.root.height < k') : Table.pack t k = Table.pack t k' := by
  have hall := Packing.layAll_congr hroot hk hk' (Packing.Laid.empty t.root)
  unfold Table.pack
  rw [if_neg (by omega : ¬k = 0), if_neg (by omega : ¬k' = 0), hall]

/-! ### Neighbours -/

/-- A list among others stands in one piece in all of them together. -/
theorem exists_getElem?_flatten {α : Type} {ls : List (List α)} {l : List α} (h : l ∈ ls) :
    ∃ i, ∀ (j : Nat) (a : α), l[j]? = some a → ls.flatten[i + j]? = some a := by
  obtain ⟨before, after, rfl⟩ := List.append_of_mem h
  refine ⟨before.flatten.length, fun j a ha => ?_⟩
  have hlt := (List.getElem?_eq_some_iff.1 ha).1
  rw [List.flatten_append, List.getElem?_append_right (Nat.le_add_right _ _),
    Nat.add_sub_cancel_left, List.flatten_cons, List.getElem?_append_left hlt, ha]

/-! ### Trees that were built -/

namespace Draft

variable {d : Draft} {head : NodeId} {t : Tree}

theorem nodes_annotate_perm (hb : d.build head = .ok t) :
    t.annotate.nodes.Perm t.annotate.root.subtrees := by
  refine Tree.nodes_perm (root_wellFormed_annotate hb).distinct ?_
  have hcount : t.annotate.nodeCount = t.nodeCount := Node.size_annotate 1 t.root
  rw [hcount, Tree.annotate, Node.ids_annotate]
  exact ids_perm_range_nodeCount hb

/-- **The runs of a table** are the hot chains of the tree cut into kernels. Every node is on one
chain, and comes right after the one before it unless it starts a kernel. So there are never more
runs when the kernels are longer: as many as nodes for kernels of a single node, and as many as
leaves for kernels longer than the tree is deep, which all give the same table. -/
theorem runs_are_kernels (hb : d.build head = .ok t) :
    t.annotate.root.hotChains.flatten.Perm t.annotate.nodes ∧
      (∀ k, 0 < k → ∃ (table : Table) (kernels : List (List Node)),
        Table.pack t.annotate k = .ok table ∧
          kernels.Perm (t.annotate.root.hotChains.flatMap (pieces k)) ∧
          (∀ n ∈ t.annotate.nodes, ∀ i,
            table.index? n.id = some i ↔ kernels.flatten[i]? = some n) ∧
          (∀ chain ∈ t.annotate.root.hotChains, ∀ p a b, chain[p]? = some a →
            chain[p + 1]? = some b → ¬k ∣ p + 1 →
              ∃ i, table.index? a.id = some i ∧ table.index? b.id = some (i + 1)) ∧
          table.runs =
            (t.annotate.root.hotChains.map fun chain => (chain.length ⌈/⌉ k : Nat)).sum ∧
          (k = 1 → table.runs = t.annotate.nodeCount) ∧
          (t.annotate.depth < k → table.runs = t.annotate.nodes.countP (·.isLeaf))) ∧
      (∀ k k' table table', 0 < k → k ≤ k' → Table.pack t.annotate k = .ok table →
        Table.pack t.annotate k' = .ok table' → table'.runs ≤ table.runs) ∧
      ∀ k k', t.annotate.depth < k → t.annotate.depth < k' →
        Table.pack t.annotate k = Table.pack t.annotate k' := by
  have hroot := (root_wellFormed_annotate hb).distinct
  have hnodes := nodes_annotate_perm hb
  have hchains := Node.flatten_hotChains_perm t.annotate.root
  have hdepth := Tree.depth_eq_height hroot
  refine ⟨hchains.trans hnodes.symm, fun k hk => ?_, fun k k' table table' hk h hpack hpack' => ?_,
    fun k k' h h' => ?_⟩
  · obtain ⟨table, kernels, hpack, -, hkernels, hruns, hindex⟩ :=
      Table.exists_pack_kernels hroot rfl hk
    have hruns := hruns.trans hkernels.length_eq
    refine ⟨table, kernels, hpack, hkernels, fun n hn => hindex n (hnodes.mem_iff.1 hn), ?_,
      hruns.trans (Node.length_kernels k _), ?_, fun h => ?_⟩
    · intro chain hchain p a b ha hb hp
      have mem {n : Node} (hn : n ∈ chain) : n ∈ t.annotate.root.subtrees :=
        hchains.mem_iff.1 (List.mem_flatten_of_mem hchain hn)
      obtain ⟨piece, hpiece, j, hja, hjb⟩ := exists_piece hk ha hb hp
      have hpiece := hkernels.mem_iff.2 (List.mem_flatMap_of_mem hchain hpiece)
      obtain ⟨i, hi⟩ := exists_getElem?_flatten hpiece
      refine ⟨i + j, (hindex a (mem (List.mem_of_getElem? ha)) _).2 (hi j a hja), ?_⟩
      exact (hindex b (mem (List.mem_of_getElem? hb)) _).2 (hi (j + 1) b hjb)
    · rintro rfl
      exact hruns.trans (Node.length_kernels_one _)
    · rw [hdepth] at h
      rw [hruns, Node.length_kernels_of_height_lt h, hnodes.countP_eq]
  · obtain ⟨table₁, kernels, hpack₁, -, hkernels, hruns, -⟩ :=
      Table.exists_pack_kernels hroot rfl hk
    obtain ⟨table₂, kernels', hpack₂, -, hkernels', hruns', -⟩ :=
      Table.exists_pack_kernels hroot rfl (Nat.lt_of_lt_of_le hk h)
    obtain rfl := Except.ok.inj (hpack.symm.trans hpack₁)
    obtain rfl := Except.ok.inj (hpack'.symm.trans hpack₂)
    rw [hruns, hruns', hkernels.length_eq, hkernels'.length_eq]
    exact Node.length_kernels_anti hk h
  · rw [hdepth] at h h'
    exact Table.pack_congr hroot h h'

theorem runs_are_kernels_lopsided : lopsided.build 0 = .ok lopsidedTree ∧ 0 < 2 ∧ ¬2 ∣ 0 + 1 ∧
    lopsidedTree.annotate.depth < 3 ∧
    (∃ table, Table.pack lopsidedTree.annotate 2 = .ok table ∧ table.runs = 4 ∧
      ∃ i, table.index? 0 = some i ∧ table.index? 2 = some (i + 1)) ∧
    ∃ table, Table.pack lopsidedTree.annotate 3 = .ok table ∧
      Table.pack lopsidedTree.annotate 8 = .ok table ∧ table.runs = 3 := by
  obtain ⟨-, hruns, -, hlong⟩ := runs_are_kernels build_lopsided
  obtain ⟨table, -, hpack, -, -, hnext, htwo, -⟩ := hruns 2 (by decide)
  obtain ⟨table', -, hpack', -, -, -, -, -, hthree⟩ := hruns 3 (by decide)
  have hdepth : lopsidedTree.annotate.depth = 2 :=
    (Tree.depth_eq_height (root_wellFormed_annotate build_lopsided).distinct).trans (by decide)
  have hids : lopsidedTree.annotate.root.hotChain.map Node.id = [0, 2, 4] := by decide
  have ids {i : Nat} {id : NodeId} (h : [0, 2, 4][i]? = some id) :
      ∃ n, lopsidedTree.annotate.root.hotChain[i]? = some n ∧ n.id = id := by
    rwa [← hids, List.getElem?_map, Option.map_eq_some_iff] at h
  obtain ⟨a, ha, ha0⟩ := ids (show [0, 2, 4][0]? = some 0 from rfl)
  obtain ⟨b, hb, hb2⟩ := ids (show [0, 2, 4][1]? = some 2 from rfl)
  have hdvd : ¬2 ∣ 0 + 1 := by decide
  obtain ⟨i, hia, hib⟩ := hnext _ List.mem_cons_self 0 a b ha hb hdvd
  rw [ha0] at hia
  rw [hb2] at hib
  have hlt : lopsidedTree.annotate.depth < 3 := by omega
  refine ⟨build_lopsided, by decide, hdvd, hlt,
    ⟨table, hpack, htwo.trans (by decide), i, hia, hib⟩,
    table', hpack', ?_, (hthree hlt).trans (by decide)⟩
  rw [← hlong 3 8 hlt (by omega), hpack']

end Draft
end TreeCode
