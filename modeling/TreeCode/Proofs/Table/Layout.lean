import Mathlib.Logic.Function.Basic
import TreeCode.Proofs.Tree.HotChains
import TreeCode.Table.Packing

/-! # The layout of a table

While a tree is packed, the nodes laid out and all nodes at and below the waiting ones are
together the nodes of the tree, each once; a waiting node fits its place: the entry of its parent
is in the table and the parent has the node on that side. So every place that is filled exists,
there is always one left to be filled, and each is filled with the position of the right child
(`Laid.place`). This is kept by a run, which lays out the next kernel of a hot chain
(`Laid.layRun`), and by all runs, which lay out all kernels of the tree (`Laid.layAll`). -/

namespace TreeCode

/-! ### Children by side -/

namespace Node

def child? : Node → Side → Option Node
  | leaf .., _ => none
  | split _ _ _ l _, .left => some l
  | split _ _ _ _ r, .right => some r

theorem mem_children_of_child? {n c : Node} {side : Side} (h : n.child? side = some c) :
    c ∈ n.children := by
  cases n with
  | leaf m p => cases h
  | split m f t l r => cases side <;> cases h <;> simp [children]

/-- The entry of a node, with its children at the given positions. -/
def entry (position : NodeId → Nat) : Node → Entry
  | leaf _ p => ⟨true, p, 0, 0, 0, 0⟩
  | split _ f t l r => ⟨false, 0, f, t, position l.id, position r.id⟩

theorem entry_congr {n : Node} {position position' : NodeId → Nat}
    (h : ∀ c ∈ n.children, position c.id = position' c.id) :
    n.entry position = n.entry position' := by
  cases n with
  | leaf m p => rfl
  | split m f t l r =>
      have hl := h l (by simp [children])
      have hr := h r (by simp [children])
      simp only [entry, hl, hr]

theorem ofNode_eq_entry {n : Node} {position : NodeId → Nat}
    (h : ∀ c ∈ n.children, position c.id = 0) : Entry.ofNode n = n.entry position := by
  have h0 : n.entry position = n.entry fun _ => 0 := entry_congr h
  rw [h0]
  cases n <;> rfl

/-- Setting a child in an entry is moving that child. -/
theorem setChild_entry {n c : Node} {side : Side} (position : NodeId → Nat) (i : Nat)
    (hn : (n.children.map id).Nodup) (h : n.child? side = some c) :
    (n.entry position).setChild side i = n.entry (Function.update position c.id i) := by
  cases n with
  | leaf m p => cases h
  | split m f t l r =>
      have hlr : l.id ≠ r.id := by simpa [children] using hn
      cases side with
      | left =>
          cases h
          simp [entry, Entry.setChild, Function.update_of_ne hlr.symm]
      | right =>
          cases h
          simp [entry, Entry.setChild, Function.update_of_ne hlr]

end Node

/-! ### Positions -/

/-- The position of a node in an index map, or zero. -/
def IndexMap.position (index : IndexMap) (id : NodeId) : Nat := (index.lookup id).getD 0

theorem IndexMap.position_cons (index : IndexMap) (id : NodeId) (i : Nat) :
    IndexMap.position ((id, i) :: index) = Function.update index.position id i := by
  funext id'
  unfold position
  rw [List.lookup_cons, Function.update_apply]
  by_cases h : id' = id
  · simp [h]
  · simp [h, beq_false_of_ne h]

/-! ### Single steps -/

namespace Packing

theorem fill_eq_ok {s s' : Packing} {link : Option Link} (h : s.fill link = .ok s') :
    s'.entries.size = s.entries.size ∧ s'.runs = s.runs := by
  unfold fill at h
  split at h
  · cases h
    exact ⟨rfl, rfl⟩
  · split_ifs at h
    cases h
    exact ⟨Array.size_modify, rfl⟩

theorem place_eq_ok {s s' : Packing} {p : Pending} (h : s.place p = .ok s') :
    s'.entries.size = s.entries.size + 1 ∧ s'.runs = s.runs := by
  obtain ⟨s₁, hfill, h⟩ := bind_eq_ok_iff.1 h
  obtain ⟨hsize, hruns⟩ := fill_eq_ok hfill
  cases h
  exact ⟨(Array.size_push _).trans (congrArg (· + 1) hsize), hruns⟩

/-- The runs after the first one lay out what waits then. -/
theorem layAll_cons {kernelSize : Nat} {s s' : Packing} {start : Pending}
    {queue queue' : List Pending}
    (h : layRun kernelSize s.entries.size s.openRun queue start.link start.node =
      .ok (s', queue')) :
    layAll kernelSize s (start :: queue) =
      layAll kernelSize (s'.closeRun s.entries.size start.node.id) queue' := by
  rw [layAll]
  split
  · rename_i fault hfault
    cases hfault.symm.trans h
  · rename_i s₁ queue₁ hok
    obtain ⟨rfl, rfl⟩ := Prod.mk.inj (Except.ok.inj (hok.symm.trans h))
    rfl

end Packing

/-! ### The invariant -/

namespace Pending

/-- The nodes that wait once a node was laid out at position `i`. -/
def below (i : Nat) : Node → List Pending
  | .leaf .. => []
  | .split _ _ _ l r => [⟨l, some ⟨i, .left⟩⟩, ⟨r, some ⟨i, .right⟩⟩]

/-- The place for the position of the node is in the entry of its parent. Only the root has no
parent. -/
def Fits (root : Node) (done : List Node) (p : Pending) : Prop :=
  match p.link with
  | none => p.node = root
  | some link => ∃ a, done[link.parent]? = some a ∧ a.child? link.side = some p.node

theorem enqueue_perm (p : Pending) (ps : List Pending) : (p.enqueue ps).Perm (p :: ps) := by
  induction ps with
  | nil => exact .refl _
  | cons q qs ih =>
      unfold enqueue
      split
      · exact .refl _
      · exact (ih.cons q).trans (.swap p q qs)

theorem map_enqueue_perm (p : Pending) (ps : List Pending) :
    ((p.enqueue ps).map node).Perm (p.node :: ps.map node) :=
  (enqueue_perm p ps).map node

theorem subtrees_below (i : Nat) (n : Node) :
    n :: (below i n).flatMap (·.node.subtrees) = n.subtrees := by
  cases n <;> simp [below, Node.subtrees]

theorem countP_below (i : Nat) (n : Node) :
    (below i n).countP (·.link.isSome) = Packing.freePlaces n := by
  cases n <;> rfl

theorem fits_below {root n : Node} {done : List Node} {i : Nat} (h : done[i]? = some n) :
    ∀ p ∈ below i n, p.Fits root done := by
  intro p hp
  cases n with
  | leaf m v => simp [below] at hp
  | split m f t l r =>
      simp only [below, List.mem_cons, List.not_mem_nil, or_false] at hp
      rcases hp with rfl | rfl <;> exact ⟨_, h, rfl⟩

theorem Fits.append {root : Node} {done : List Node} {p : Pending} (h : p.Fits root done)
    (ns : List Node) : p.Fits root (done ++ ns) := by
  unfold Fits at h ⊢
  split
  · rename_i hp
    rwa [hp] at h
  · rename_i link hp
    rw [hp] at h
    obtain ⟨a, ha, hc⟩ := h
    exact ⟨a, List.getElem?_append_left (List.getElem?_eq_some_iff.1 ha).1 ▸ ha, hc⟩

end Pending

namespace Packing

/-- The nodes `done` of a tree have been laid out in this order, and those at and below the
waiting ones are still to come. -/
structure Laid (root : Node) (s : Packing) (done : List Node) (waiting : List Pending) :
    Prop where
  perm : (done ++ waiting.flatMap (·.node.subtrees)).Perm root.subtrees
  fits : ∀ p ∈ waiting, p.Fits root done
  later : ∀ {i j : Nat} {a c : Node},
    done[i]? = some a → done[j]? = some c → c ∈ a.children → i < j
  size : s.entries.size = done.length
  index : ∀ id i, s.index.lookup id = some i ↔ ∃ n, done[i]? = some n ∧ n.id = id
  entries : ∀ {i : Nat} {n : Node},
    done[i]? = some n → s.entries[i]? = some (n.entry s.index.position)
  unresolved : s.unresolved = waiting.countP (·.link.isSome)

/-- The entries once the place that a node waits for is filled. -/
def filled (s : Packing) (p : Pending) : Array Entry :=
  match p.link with
  | none => s.entries
  | some link => s.entries.modify link.parent (·.setChild link.side s.entries.size)

theorem size_filled (s : Packing) (p : Pending) : (s.filled p).size = s.entries.size := by
  unfold filled
  split
  · rfl
  · exact Array.size_modify

theorem getElem?_concat_eq_some_iff {ns : List Node} {n a : Node} {i : Nat} :
    (ns ++ [n])[i]? = some a ↔ ns[i]? = some a ∨ i = ns.length ∧ n = a := by
  rw [List.getElem?_append]
  split
  · have : i ≠ ns.length := by omega
    simp [this]
  · rw [List.getElem?_eq_none (l := ns) (by omega), List.getElem?_singleton]
    split <;> simp <;> omega

namespace Laid

variable {root : Node} {s : Packing} {done : List Node} {p : Pending} {waiting : List Pending}

theorem empty (root : Node) : Laid root .empty [] [⟨root, none⟩] where
  perm := by simp
  fits := by
    intro p hp
    obtain rfl := List.mem_singleton.1 hp
    exact rfl
  later := by simp
  size := rfl
  index := by simp [Packing.empty]
  entries := by simp
  unresolved := rfl

/-- The order of the waiting nodes does not matter. -/
theorem congr_waiting {waiting' : List Pending} (h : Laid root s done waiting)
    (hw : waiting'.Perm waiting) : Laid root s done waiting' where
  perm := ((hw.flatMap_right _).append_left done).trans h.perm
  fits p hp := h.fits p (hw.mem_iff.1 hp)
  later := h.later
  size := h.size
  index := h.index
  entries := h.entries
  unresolved := by rw [h.unresolved, hw.countP_eq]

/-- Neither do the number of runs and the events. -/
theorem congr_packing {s' : Packing} (h : Laid root s done waiting)
    (he : s'.entries = s.entries) (hi : s'.index = s.index) (hu : s'.unresolved = s.unresolved) :
    Laid root s' done waiting where
  perm := h.perm
  fits := h.fits
  later := h.later
  size := by rw [he, h.size]
  index := by rw [hi]; exact h.index
  entries := by rw [he, hi]; exact h.entries
  unresolved := by rw [hu, h.unresolved]

/-! ### Laying out one node -/

section place

variable (hroot : root.Distinct) (h : Laid root s done (p :: waiting))
include h

theorem mem_root_of_done {a : Node} (ha : a ∈ done) : a ∈ root.subtrees :=
  h.perm.mem_iff.1 (List.mem_append_left _ ha)

theorem mem_root_of_below {a : Node} (ha : a ∈ p.node.subtrees) : a ∈ root.subtrees := by
  refine h.perm.mem_iff.1 (List.mem_append_right _ ?_)
  rw [List.flatMap_cons]
  exact List.mem_append_left _ ha

theorem perm_place : (done ++ [p.node] ++
    (Pending.below done.length p.node ++ waiting).flatMap (·.node.subtrees)).Perm
      root.subtrees := by
  have := h.perm
  rw [List.flatMap_cons, ← Pending.subtrees_below done.length] at this
  simpa [List.append_assoc] using this

theorem fits_place : ∀ q ∈ Pending.below done.length p.node ++ waiting,
    q.Fits root (done ++ [p.node]) := by
  intro q hq
  rcases List.mem_append.1 hq with hq | hq
  · exact Pending.fits_below List.getElem?_concat_length q hq
  · exact (h.fits q (List.mem_cons_of_mem _ hq)).append _

include hroot

theorem nodup_done : done.Nodup :=
  (List.nodup_append.1 (h.perm.nodup_iff.2 hroot.nodup)).1

theorem not_mem_done {a : Node} (ha : a ∈ p.node.subtrees) : a ∉ done := by
  intro hd
  refine (List.nodup_append.1 (h.perm.nodup_iff.2 hroot.nodup)).2.2 a hd a ?_ rfl
  rw [List.flatMap_cons]
  exact List.mem_append_left _ ha

/-- A node at or below a waiting one has no position. -/
theorem lookup_eq_none {a : Node} (ha : a ∈ p.node.subtrees) : s.index.lookup a.id = none := by
  rw [Option.eq_none_iff_forall_ne_some]
  intro i hi
  obtain ⟨n, hn, hid⟩ := (h.index _ _).1 hi
  have hmem := List.mem_of_getElem? hn
  obtain rfl := hroot.eq_of_id_eq (h.mem_root_of_done hmem) (h.mem_root_of_below ha) hid
  exact h.not_mem_done hroot ha hmem

theorem later_place {i j : Nat} {a c : Node} (ha : (done ++ [p.node])[i]? = some a)
    (hc : (done ++ [p.node])[j]? = some c) (hac : c ∈ a.children) : i < j := by
  rcases getElem?_concat_eq_some_iff.1 ha with ha | ⟨rfl, rfl⟩ <;>
    rcases getElem?_concat_eq_some_iff.1 hc with hc | ⟨rfl, rfl⟩
  · exact h.later ha hc hac
  · exact (List.getElem?_eq_some_iff.1 ha).1
  · refine absurd (List.mem_of_getElem? hc) (h.not_mem_done hroot ?_)
    exact Node.mem_subtrees_of_mem_children hac
  · exact absurd (Node.size_lt_of_mem_children hac) (Nat.lt_irrefl _)

theorem index_place (id : NodeId) (i : Nat) :
    ((p.node.id, done.length) :: s.index).lookup id = some i ↔
      ∃ n, (done ++ [p.node])[i]? = some n ∧ n.id = id := by
  have hnew := h.lookup_eq_none hroot (Node.mem_subtrees_self _)
  simp only [getElem?_concat_eq_some_iff, List.lookup_cons]
  by_cases hid : id = p.node.id
  · subst hid
    simp only [beq_self_eq_true, Option.some.injEq]
    constructor
    · rintro rfl
      exact ⟨p.node, .inr ⟨rfl, rfl⟩, rfl⟩
    · rintro ⟨n, hn | ⟨rfl, -⟩, hn'⟩
      · have := (h.index _ _).2 ⟨n, hn, hn'⟩
        rw [hnew] at this
        cases this
      · rfl
  · rw [beq_false_of_ne hid]
    simp only [h.index]
    constructor
    · rintro ⟨n, hn, hn'⟩
      exact ⟨n, .inl hn, hn'⟩
    · rintro ⟨n, hn | ⟨-, rfl⟩, hn'⟩
      · exact ⟨n, hn, hn'⟩
      · exact absurd hn'.symm hid

/-- Only the entry with the place for the new position is changed. -/
theorem entries_filled {i : Nat} {a : Node} (ha : done[i]? = some a) :
    (s.filled p)[i]? =
      some (a.entry (Function.update s.index.position p.node.id done.length)) := by
  have hmem := h.mem_root_of_done (List.mem_of_getElem? ha)
  have hp := h.mem_root_of_below (Node.mem_subtrees_self _)
  have unchanged (hc : p.node ∉ a.children) : s.entries[i]? =
      some (a.entry (Function.update s.index.position p.node.id done.length)) := by
    rw [h.entries ha, Node.entry_congr]
    intro c hca
    have hcm := Node.mem_subtrees_trans (Node.mem_subtrees_of_mem_children hca) hmem
    rw [Function.update_of_ne]
    intro hid
    exact hc (hroot.eq_of_id_eq hcm hp hid ▸ hca)
  have hfits := h.fits p List.mem_cons_self
  unfold Pending.Fits at hfits
  unfold filled
  cases hl : p.link with
  | none =>
      rw [hl] at hfits
      refine unchanged ?_
      rw [show p.node = root from hfits]
      exact hroot.not_mem_children hmem
  | some link =>
      rw [hl] at hfits
      obtain ⟨b, hb, hbc⟩ := hfits
      dsimp only
      rw [Array.getElem?_modify]
      -- either this entry has the place, or the node is not a child here, having one parent only
      by_cases hi : link.parent = i
      · subst hi
        obtain rfl := Option.some.inj (ha.symm.trans hb)
        rw [if_pos rfl, h.entries ha, Option.map_some, h.size,
          Node.setChild_entry _ _ (hroot.children_nodup hmem) hbc]
      · rw [if_neg hi]
        refine unchanged fun hca => hi ?_
        have hab := hroot.parent_unique hmem (h.mem_root_of_done (List.mem_of_getElem? hb)) hca
          (Node.mem_children_of_child? hbc)
        subst hab
        exact (List.getElem?_inj (List.getElem?_eq_some_iff.1 hb).1 (h.nodup_done hroot)).1
          (hb.trans ha.symm)

omit hroot in
/-- The place of a node is in the table and was not filled before. -/
theorem fill_place (index : IndexMap) : { s with index := index }.fill p.link =
    .ok { s with
      entries := s.filled p
      index := index
      unresolved := waiting.countP (·.link.isSome) } := by
  have hfits := h.fits p List.mem_cons_self
  have hu := h.unresolved
  unfold Pending.Fits at hfits
  unfold fill filled
  rw [List.countP_cons] at hu
  cases hl : p.link with
  | none =>
      simp only [hl, Option.isSome_none, Bool.false_eq_true, ↓reduceIte, Nat.add_zero] at hu
      simp only [hu]
  | some link =>
      rw [hl] at hfits
      obtain ⟨b, hb, -⟩ := hfits
      have hlt := (List.getElem?_eq_some_iff.1 hb).1
      simp only [hl, Option.isSome_some, ↓reduceIte] at hu
      dsimp only
      rw [if_neg (by rw [h.size]; omega), if_neg (by omega), hu, Nat.add_sub_cancel]

/-- **Laying out one node** always succeeds and keeps the invariant. -/
theorem place : ∃ s', s.place p = .ok s' ∧
    Laid root s' (done ++ [p.node]) (Pending.below done.length p.node ++ waiting) := by
  have hsize : (s.filled p).size = done.length := by rw [size_filled, h.size]
  have hnew := h.lookup_eq_none hroot (Node.mem_subtrees_self _)
  unfold Packing.place
  dsimp only
  rw [h.fill_place, h.size]
  refine ⟨_, rfl, h.perm_place, h.fits_place, h.later_place hroot, ?_, h.index_place hroot, ?_, ?_⟩
  · simp only [Array.size_push, hsize, List.length_append, List.length_singleton]
  · intro i n hn
    dsimp only
    rw [IndexMap.position_cons, Array.getElem?_push, hsize]
    rcases getElem?_concat_eq_some_iff.1 hn with hn | ⟨rfl, rfl⟩
    · have hlt := (List.getElem?_eq_some_iff.1 hn).1
      rw [if_neg (by omega), h.entries_filled hroot hn]
    · rw [if_pos rfl, Node.ofNode_eq_entry]
      intro c hc
      rw [Function.update_of_ne, IndexMap.position,
        h.lookup_eq_none hroot (Node.mem_subtrees_of_mem_children hc), Option.getD_none]
      intro hid
      have hcm := h.mem_root_of_below (Node.mem_subtrees_of_mem_children hc)
      have hpm := h.mem_root_of_below (Node.mem_subtrees_self _)
      have := Node.size_lt_of_mem_children hc
      rw [hroot.eq_of_id_eq hcm hpm hid] at this
      exact Nat.lt_irrefl _ this
  · simp only [List.countP_append, Pending.countP_below]
    omega

end place

/-! ### Laying out all nodes -/

/-- **Laying out a run** from a waiting node keeps the invariant. The run lays out the hot chain of
the node, as far as there is room for it. -/
theorem layRun (hroot : root.Distinct) {kernelSize first room : Nat} {n : Node} {link : Option Link}
    {queue : List Pending} (h : Laid root s done (⟨n, link⟩ :: queue))
    (hfirst : first ≤ done.length) (hroom : done.length + (room + 1) = first + kernelSize) :
    ∃ s' queue', Packing.layRun kernelSize first s queue link n = .ok (s', queue') ∧
      Laid root s' (done ++ n.hotChain.take (room + 1)) queue' ∧ s'.runs = s.runs ∧
      (queue'.map Pending.node).Perm (n.released (room + 1) ++ queue.map Pending.node) := by
  induction n generalizing s done link queue room with
  | leaf m v =>
      obtain ⟨s₁, hs, h₁⟩ := h.place hroot
      unfold Packing.layRun
      rw [hs, Node.hotChain, List.take_succ_cons, List.take_nil, Node.released_leaf]
      exact ⟨s₁, queue, rfl, h₁, (place_eq_ok hs).2, .refl _⟩
  | split m f t l r ihl ihr =>
      obtain ⟨s₁, hs, h₁⟩ := h.place hroot
      have hruns := (place_eq_ok hs).2
      have hlen : (done ++ [Node.split m f t l r]).length = done.length + 1 := List.length_append
      have hsize : s₁.entries.size = done.length + 1 := h₁.size.trans hlen
      unfold Packing.layRun
      rw [hs, h.size, Node.hotChain_split, Node.released_split, List.take_succ_cons]
      simp only [bind, Except.bind]
      simp only [Pending.below, List.cons_append, List.nil_append] at h₁
      cases room with
      | zero =>
          -- the run is full, and both children wait
          rw [if_pos (by omega), Node.released_zero]
          refine ⟨s₁, _, rfl, h₁.congr_waiting ?_, hruns, ?_⟩
          · exact (Pending.enqueue_perm _ _).trans
              (((Pending.enqueue_perm _ _).cons _).trans (.swap _ _ _))
          · refine (Pending.map_enqueue_perm _ _).trans
              (((Pending.map_enqueue_perm _ _).cons _).trans ?_)
            rcases Node.hotter_colder_cases l r with ⟨hh, hc⟩ | ⟨hh, hc⟩
            · rw [hh, hc]
              exact .refl _
            · rw [hh, hc]
              exact .swap _ _ _
      | succ room =>
          -- the run goes on with the hotter child, and the colder one waits
          have hfirst₁ : first ≤ (done ++ [Node.split m f t l r]).length := by omega
          have hroom₁ : (done ++ [Node.split m f t l r]).length + (room + 1) =
              first + kernelSize := by omega
          rw [if_neg (by omega), Node.hotter, Node.colder]
          split_ifs
          · have hnext := h₁.congr_waiting ((Pending.enqueue_perm _ _).cons _)
            obtain ⟨s', queue', hrun, hlaid, hruns', hqueue⟩ := ihl hnext hfirst₁ hroom₁
            refine ⟨s', queue', hrun, ?_, hruns'.trans hruns, hqueue.trans ?_⟩
            · rwa [List.append_assoc] at hlaid
            · exact ((Pending.map_enqueue_perm _ _).append_left _).trans List.perm_middle
          · have hnext :=
              h₁.congr_waiting (((Pending.enqueue_perm _ _).cons _).trans (.swap _ _ _))
            obtain ⟨s', queue', hrun, hlaid, hruns', hqueue⟩ := ihr hnext hfirst₁ hroom₁
            refine ⟨s', queue', hrun, ?_, hruns'.trans hruns, hqueue.trans ?_⟩
            · rwa [List.append_assoc] at hlaid
            · exact ((Pending.map_enqueue_perm _ _).append_left _).trans List.perm_middle

/-- What a run does that starts with the first of the waiting nodes: it lays out the first kernel
of the hot chain of that node, and the nodes that this leaves over wait with the others. -/
structure RunOf (root : Node) (kernelSize : Nat) (s : Packing) (done : List Node) (start : Pending)
    (queue : List Pending) (s' : Packing) (queue' : List Pending) : Prop where
  eq_ok : Packing.layRun kernelSize s.entries.size s.openRun queue start.link start.node =
    .ok (s', queue')
  laid : Laid root (s'.closeRun s.entries.size start.node.id)
    (done ++ start.node.hotChain.take kernelSize) queue'
  runs : (s'.closeRun s.entries.size start.node.id).runs = s.runs + 1
  waiting : (queue'.map Pending.node).Perm
    (start.node.released kernelSize ++ queue.map Pending.node)

/-- **Induction on the runs**: laying out everything that waits comes to an end, with whatever
holds once nothing waits and holds before a run if it holds after it. -/
theorem layAll_induction (hroot : root.Distinct) {kernelSize : Nat} (hk : 0 < kernelSize)
    {motive : Packing → List Node → List Pending → Packing → Prop}
    (nil : ∀ {s done}, Laid root s done [] → motive s done [] s)
    (cons : ∀ {s done start queue s₁ queue₁ s'}, Laid root s done (start :: queue) →
      RunOf root kernelSize s done start queue s₁ queue₁ →
      motive (s₁.closeRun s.entries.size start.node.id)
        (done ++ start.node.hotChain.take kernelSize) queue₁ s' →
      motive s done (start :: queue) s')
    (h : Laid root s done waiting) :
    ∃ s', Packing.layAll kernelSize s waiting = .ok s' ∧ motive s done waiting s' := by
  obtain ⟨room, rfl⟩ := Nat.exists_eq_add_one.2 hk
  induction hsize : Pending.totalSize waiting using Nat.strongRecOn generalizing s done waiting with
  | _ size ih =>
      cases waiting with
      | nil => exact ⟨s, by rw [Packing.layAll], nil h⟩
      | cons start queue =>
          have h₀ : Laid root s.openRun done (⟨start.node, start.link⟩ :: queue) :=
            h.congr_packing rfl rfl rfl
          have hroom : done.length + (room + 1) = s.entries.size + (room + 1) := by rw [h.size]
          obtain ⟨s₁, queue₁, hrun, h₁, hruns, hqueue⟩ :=
            h₀.layRun hroot (Nat.le_of_eq h.size) hroom
          have hlt := totalSize_layRun_lt hrun
          have h₂ : Laid root (s₁.closeRun s.entries.size start.node.id) _ queue₁ :=
            h₁.congr_packing rfl rfl rfl
          obtain ⟨s', hall, hmotive⟩ := ih _ (by rw [← hsize]; simpa using hlt) h₂ rfl
          exact ⟨s', (layAll_cons hrun).trans hall, cons h ⟨hrun, h₂, hruns, hqueue⟩ hmotive⟩

/-- **Laying out everything that waits** comes to an end and keeps the invariant. The runs are the
kernels at and below the waiting nodes, in some order. -/
theorem layAll (hroot : root.Distinct) {kernelSize : Nat} (hk : 0 < kernelSize)
    (h : Laid root s done waiting) :
    ∃ (s' : Packing) (kernels : List (List Node)),
      Packing.layAll kernelSize s waiting = .ok s' ∧ Laid root s' (done ++ kernels.flatten) [] ∧
      s'.runs = s.runs + kernels.length ∧
      kernels.Perm ((waiting.map Pending.node).flatMap (Node.kernels kernelSize)) := by
  let motive (s : Packing) (done : List Node) (waiting : List Pending) (s' : Packing) : Prop :=
    ∃ kernels : List (List Node), Laid root s' (done ++ kernels.flatten) [] ∧
      s'.runs = s.runs + kernels.length ∧
      kernels.Perm ((waiting.map Pending.node).flatMap (Node.kernels kernelSize))
  obtain ⟨s', hall, kernels, hkernels⟩ : ∃ s', Packing.layAll kernelSize s waiting = .ok s' ∧
      motive s done waiting s' := by
    refine h.layAll_induction (motive := motive) hroot hk (fun h => ?_)
      fun {_ _ start _ _ _ _} _ hrun ⟨kernels, hlaid, hruns, hkernels⟩ => ?_
    · exact ⟨[], by simpa using h, rfl, .refl _⟩
    · refine ⟨start.node.hotChain.take kernelSize :: kernels, ?_, ?_, ?_⟩
      · rwa [List.append_assoc] at hlaid
      · rw [hruns, hrun.runs, List.length_cons]
        omega
      · have hnext := hrun.waiting.flatMap_right (Node.kernels kernelSize)
        rw [List.flatMap_append] at hnext
        have hstart := Node.kernels_perm hk start.node
        rw [List.map_cons, List.flatMap_cons]
        exact ((hkernels.trans hnext).cons _).trans (hstart.symm.append_right _)
  exact ⟨s', kernels, hall, hkernels⟩

end Laid
end Packing

end TreeCode
