import TreeCode.Proofs.Table.Runs
import TreeCode.Proofs.Tree.Renumbering

/-! # Tables under other numbers

Packing looks at the number of a node only to choose between waiting nodes of the same probability.
So when the nodes have probabilities of their own, each step of it takes mapped numbers to mapped
numbers, and the table of a tree under other numbers is the table of the tree with the numbers in
its index mapped (`pack_renumber`). Whatever the probabilities, the number of runs is the same
(`runs_renumber`). -/

namespace TreeCode

/-! ### The total order -/

theorem toBits_injective : Function.Injective Float.toBits := by
  rintro ⟨⟨bits⟩⟩ ⟨⟨bits'⟩⟩ h
  obtain rfl : bits = bits' := h
  rfl

/-- Numbers at the same place in the total order are the same. -/
theorem totalRank_injective : Function.Injective totalRank := by
  intro x y h
  have hx := x.toBits.toNat_lt
  have hy := y.toBits.toNat_lt
  have hmax : Int64.maxValue.toInt = 2 ^ 63 - 1 := rfl
  refine toBits_injective (UInt64.toNat.inj ?_)
  unfold totalRank at h
  dsimp only at h
  rw [hmax] at h
  split_ifs at h <;> omega

/-! ### Mapping the numbers -/

def Event.renumber (σ : NodeId → NodeId) : Event → Event
  | laid entry node prob => laid entry (σ node) prob
  | run number first stop node => run number first stop (σ node)
  | inlined node cost size => inlined (σ node) cost size
  | deferred node entry size => deferred (σ node) entry size
  | event => event

def IndexMap.renumber (σ : NodeId → NodeId) (index : IndexMap) : IndexMap :=
  index.map (Prod.map σ id)

def Pending.renumber (σ : NodeId → NodeId) (p : Pending) : Pending := ⟨p.node.renumber σ, p.link⟩

def Packing.renumber (σ : NodeId → NodeId) (s : Packing) : Packing :=
  { s with index := s.index.renumber σ, events := s.events.map (Event.renumber σ) }

def Table.renumber (σ : NodeId → NodeId) (t : Table) : Table :=
  { t with index := t.index.renumber σ, events := t.events.map (Event.renumber σ) }

variable (σ : NodeId → NodeId)

/-- A number that no other one is mapped with is looked up as before. -/
theorem IndexMap.lookup_renumber {index : IndexMap} {node : NodeId}
    (h : ∀ e ∈ index, σ e.1 = σ node → e.1 = node) :
    (index.renumber σ).lookup (σ node) = index.lookup node := by
  induction index with
  | nil => rfl
  | cons e index ih =>
      have hiff : (σ node == σ e.1) = (node == e.1) := by
        rw [Bool.eq_iff_iff, beq_iff_eq, beq_iff_eq]
        exact ⟨fun he => (h e List.mem_cons_self he.symm).symm, congrArg σ⟩
      have ih := ih fun e he => h e (List.mem_cons_of_mem _ he)
      rw [renumber, List.map_cons, List.lookup_cons, List.lookup_cons, Prod.map_fst, hiff]
      split
      · rfl
      · exact ih

/-! ### Steps -/

namespace Packing

variable (s : Packing)

theorem renumber_empty : empty.renumber σ = empty := by
  simp [renumber, empty, IndexMap.renumber]

theorem fill_renumber (link : Option Link) :
    (s.renumber σ).fill link = (s.fill link).map (renumber σ) := by
  cases link with
  | none => rfl
  | some link =>
      by_cases hparent : s.entries.size ≤ link.parent
      · simp [fill, renumber, Except.map, hparent]
      · by_cases hcount : s.unresolved = 0
        · simp [fill, renumber, Except.map, hparent, hcount]
        · simp [fill, renumber, Except.map, hparent, hcount]

theorem entry_ofNode_renumber (n : Node) : Entry.ofNode (n.renumber σ) = .ofNode n := by
  cases n <;> rfl

theorem freePlaces_renumber (n : Node) : freePlaces (n.renumber σ) = freePlaces n := by
  cases n <;> rfl

/-- Laying out one node takes mapped numbers to mapped numbers. -/
theorem place_renumber (p : Pending) :
    (s.renumber σ).place (p.renumber σ) = (s.place p).map (renumber σ) := by
  let s₀ : Packing := { s with index := (p.node.id, s.entries.size) :: s.index }
  have hid : (p.renumber σ).node.id = σ p.node.id := Node.id_renumber σ p.node
  unfold place
  rw [hid]
  change (s₀.renumber σ).fill p.link >>= _ = Except.map (renumber σ) (s₀.fill p.link >>= _)
  rw [fill_renumber]
  cases s₀.fill p.link with
  | error fault => rfl
  | ok s₁ =>
      simp [bind, Except.bind, Except.map, pure, Except.pure, renumber, Pending.renumber,
        entry_ofNode_renumber, freePlaces_renumber, Event.renumber]

theorem Laid.mem_root_of_waiting {s : Packing} {root : Node} {done : List Node}
    {waiting : List Pending} (h : Laid root s done waiting) :
    ∀ q ∈ waiting, q.node ∈ root.subtrees := fun _ hq =>
  h.perm.mem_iff.1 (List.mem_append_right _
    (List.mem_flatMap_of_mem hq (Node.mem_subtrees_self _)))

end Packing

/-! ### Waiting nodes -/

section distinct

variable {root : Node} (hprob : (root.subtrees.map Node.prob).Nodup)
include hprob

namespace Pending

variable {p q : Pending} {queue : List Pending}

/-- Among nodes with probabilities of their own the numbers decide nothing. -/
theorem precedes_renumber (hp : p.node ∈ root.subtrees) (hq : q.node ∈ root.subtrees) :
    (p.renumber σ).precedes (q.renumber σ) = p.precedes q := by
  unfold precedes renumber
  simp only [Node.prob_renumber, Node.id_renumber]
  by_cases hrank : totalRank p.node.prob = totalRank q.node.prob
  · have hnode : p.node = q.node :=
      List.inj_on_of_nodup_map hprob hp hq (totalRank_injective hrank)
    simp [hnode]
  · rw [beq_false_of_ne hrank, Bool.false_and, Bool.false_and]

theorem enqueue_renumber (hp : p.node ∈ root.subtrees)
    (hqueue : ∀ q ∈ queue, q.node ∈ root.subtrees) :
    (p.renumber σ).enqueue (queue.map (renumber σ)) = (p.enqueue queue).map (renumber σ) := by
  induction queue with
  | nil => rfl
  | cons q queue ih =>
      have ih := ih fun q hq => hqueue q (List.mem_cons_of_mem _ hq)
      rw [List.map_cons, enqueue, enqueue,
        precedes_renumber σ hprob hp (hqueue q List.mem_cons_self), ih]
      split_ifs <;> rfl

omit hprob in
theorem mem_of_mem_enqueue (hp : p.node ∈ root.subtrees)
    (hqueue : ∀ q ∈ queue, q.node ∈ root.subtrees) :
    ∀ q ∈ p.enqueue queue, q.node ∈ root.subtrees := by
  intro q hq
  rcases List.mem_cons.1 ((enqueue_perm p queue).mem_iff.1 hq) with rfl | hq
  · exact hp
  · exact hqueue q hq

end Pending

/-! ### Runs -/

namespace Packing

/-- A run takes mapped numbers to mapped numbers. -/
theorem layRun_renumber {kernelSize first : Nat} {s : Packing} {queue : List Pending}
    {link : Option Link} {n : Node} (hn : n ∈ root.subtrees)
    (hqueue : ∀ q ∈ queue, q.node ∈ root.subtrees) :
    layRun kernelSize first (s.renumber σ) (queue.map (Pending.renumber σ)) link (n.renumber σ) =
      (layRun kernelSize first s queue link n).map
        (Prod.map (renumber σ) (List.map (Pending.renumber σ))) := by
  induction n generalizing s queue link with
  | leaf m p =>
      have hplace := place_renumber σ s ⟨.leaf m p, link⟩
      simp only [Pending.renumber, Node.renumber] at hplace
      rw [Node.renumber, layRun, layRun, hplace]
      cases s.place ⟨.leaf m p, link⟩ <;> rfl
  | split m f t l r ihl ihr =>
      have hl := Node.mem_subtrees_trans Node.left_mem_subtrees hn
      have hr := Node.mem_subtrees_trans Node.right_mem_subtrees hn
      have hplace := place_renumber σ s ⟨.split m f t l r, link⟩
      simp only [Pending.renumber, Node.renumber_split] at hplace
      rw [Node.renumber_split, layRun, layRun, hplace]
      cases s.place ⟨.split m f t l r, link⟩ with
      | error fault => rfl
      | ok s₁ =>
          let left : Pending := ⟨l, some ⟨s.entries.size, .left⟩⟩
          let right : Pending := ⟨r, some ⟨s.entries.size, .right⟩⟩
          have henqL := left.enqueue_renumber σ hprob hl hqueue
          have henqR := right.enqueue_renumber σ hprob hr hqueue
          have hmemL := left.mem_of_mem_enqueue hl hqueue
          have hmemR := right.mem_of_mem_enqueue hr hqueue
          have henqLR := right.enqueue_renumber σ hprob hr hmemL
          simp only [bind, Except.bind, Except.map, Node.leftHot_renumber]
          show (if kernelSize ≤ s₁.entries.size - first then _ else _) = _
          split_ifs
          · show Except.ok (s₁.renumber σ, (right.renumber σ).enqueue ((left.renumber σ).enqueue
              (queue.map (Pending.renumber σ)))) = _
            rw [henqL, henqLR]
            rfl
          · show layRun kernelSize first (s₁.renumber σ) ((right.renumber σ).enqueue
              (queue.map (Pending.renumber σ))) left.link (l.renumber σ) = _
            rw [henqR]
            exact ihl hl hmemR
          · show layRun kernelSize first (s₁.renumber σ) ((left.renumber σ).enqueue
              (queue.map (Pending.renumber σ))) right.link (r.renumber σ) = _
            rw [henqL]
            exact ihr hr hmemL

/-- Laying out everything takes mapped numbers to mapped numbers. -/
theorem layAll_renumber (hroot : root.Distinct) {kernelSize : Nat} (hk : 0 < kernelSize)
    {s : Packing} {done : List Node} {waiting : List Pending} (h : Laid root s done waiting) :
    layAll kernelSize (s.renumber σ) (waiting.map (Pending.renumber σ)) =
      (layAll kernelSize s waiting).map (renumber σ) := by
  let motive (s : Packing) (_ : List Node) (waiting : List Pending) (s' : Packing) : Prop :=
    layAll kernelSize (s.renumber σ) (waiting.map (Pending.renumber σ)) = .ok (s'.renumber σ)
  obtain ⟨s', hall, hall'⟩ : ∃ s', layAll kernelSize s waiting = .ok s' ∧
      motive s done waiting s' := by
    refine h.layAll_induction (motive := motive) hroot hk (fun {s _} _ => ?_)
      fun {s done start queue s₁ queue₁ s'} h hrun hrest => ?_
    · show layAll kernelSize (s.renumber σ) [] = .ok (s.renumber σ)
      rw [layAll]
    · have hmem := h.mem_root_of_waiting
      have hqueue : ∀ q ∈ queue, q.node ∈ root.subtrees := fun q hq =>
        hmem q (List.mem_cons_of_mem _ hq)
      have hrun' : layRun kernelSize s.entries.size (s.openRun.renumber σ)
          (queue.map (Pending.renumber σ)) start.link (start.node.renumber σ) =
            .ok (s₁.renumber σ, queue₁.map (Pending.renumber σ)) := by
        rw [layRun_renumber σ hprob (hmem start List.mem_cons_self) hqueue, hrun.eq_ok]
        rfl
      have hclose : (s₁.renumber σ).closeRun s.entries.size (start.renumber σ).node.id =
          (s₁.closeRun s.entries.size start.node.id).renumber σ := by
        simp [closeRun, renumber, Pending.renumber, Event.renumber]
      refine (layAll_cons hrun').trans ?_
      show layAll _ ((s₁.renumber σ).closeRun s.entries.size (start.renumber σ).node.id) _ = _
      rw [hclose]
      exact hrest
  rw [hall]
  exact hall'

end Packing
end distinct

/-! ### Tables -/

namespace Table

variable {t t' : Tree} {σ : NodeId → NodeId} {kernelSize : Nat}

/-- **The table of a tree under other numbers** is that of the tree under these numbers, if the
nodes have probabilities of their own. -/
theorem pack_renumber (hroot : t.root.Distinct) (hprob : (t.root.subtrees.map Node.prob).Nodup)
    (hname : t'.name = t.name) (ha : t'.annotated = t.annotated)
    (hroot' : t'.root = t.root.renumber σ) :
    pack t' kernelSize = (pack t kernelSize).map (renumber σ) := by
  have hcount : t'.nodeCount = t.nodeCount := by
    rw [Tree.nodeCount, hroot', Node.size_renumber, Tree.nodeCount]
  unfold pack
  rw [hname, ha, hcount]
  split_ifs with hannotated hk
  · rfl
  · rfl
  · have hall := Packing.layAll_renumber σ hprob hroot (Nat.pos_of_ne_zero hk) (.empty t.root)
    rw [Packing.renumber_empty, List.map_singleton, Pending.renumber, ← hroot'] at hall
    rw [hall]
    cases Packing.layAll kernelSize .empty [⟨t.root, none⟩] with
    | error fault => rfl
    | ok s =>
        dsimp only [Except.map, Packing.renumber]
        split_ifs
        · rfl
        · simp [renumber]

theorem length_kernels_renumber (k : Nat) (n : Node) :
    ((n.renumber σ).kernels k).length = (n.kernels k).length := by
  rw [Node.length_kernels, Node.length_kernels, Node.hotChains_renumber, List.map_map]
  simp only [Function.comp_def, List.length_map]

/-- **The number of runs** does not depend on the numbers, whatever the probabilities. -/
theorem runs_renumber (hroot : t.root.Distinct) (hdistinct : t'.root.Distinct)
    (ha : t.annotated = true) (ha' : t'.annotated = true) (hroot' : t'.root = t.root.renumber σ)
    (hk : 0 < kernelSize) {table table' : Table} (h : pack t kernelSize = .ok table)
    (h' : pack t' kernelSize = .ok table') : table'.runs = table.runs := by
  obtain ⟨table₁, kernels, hpack, -, hkernels, hruns, -⟩ := exists_pack_kernels hroot ha hk
  obtain ⟨table₂, kernels', hpack', -, hkernels', hruns', -⟩ :=
    exists_pack_kernels hdistinct ha' hk
  obtain rfl := Except.ok.inj (h.symm.trans hpack)
  obtain rfl := Except.ok.inj (h'.symm.trans hpack')
  rw [hruns, hruns', hkernels.length_eq, hkernels'.length_eq, hroot', length_kernels_renumber]

/-- The position of a node is that of the node with the mapped number. -/
theorem Represents.index?_renumber {table : Table} {root : Node} (h : table.Represents root)
    (hσ : ∀ a ∈ root.subtrees, ∀ b ∈ root.subtrees, σ a.id = σ b.id → a.id = b.id) {n : Node}
    (hn : n ∈ root.subtrees) : (table.renumber σ).index? (σ n.id) = table.index? n.id := by
  refine IndexMap.lookup_renumber σ fun e he hid => ?_
  cases hlookup : table.index? e.1 with
  | none => simpa using List.lookup_eq_none_iff.1 hlookup e he
  | some i =>
      obtain ⟨a, ha, hae⟩ := h.exists_mem hlookup
      rw [← hae] at hid ⊢
      exact hσ a ha n hn hid

end Table
end TreeCode
