import TreeCode.Proofs.Table.Renumbering
import TreeCode.Proofs.Tree.Proportions

/-! # The order of the runs

The nodes that wait between two runs are those that are not laid out although their parents are,
each once (`Laid.mem_waiting_iff`), and they are kept in order. So a run starts at the most probable
of them, and at the one of the lowest number if several are as probable: a choice that leaves
nothing open. Whatever waits later is at or below a node that waits now, and where probabilities
fall from the root to the leaves, later runs never start at a more probable node
(`runs_start_hottest`). -/

namespace TreeCode

/-! ### The order of the nodes -/

namespace Node

/-- `a` is more probable than `b`, or as probable with a lower number. -/
def Before (a b : Node) : Prop :=
  totalRank b.prob < totalRank a.prob ∨ totalRank a.prob = totalRank b.prob ∧ a.id < b.id

variable {a b c : Node}

theorem Before.trans (h : a.Before b) (h' : b.Before c) : a.Before c := by
  rcases h with h | ⟨h, hid⟩ <;> rcases h' with h' | ⟨h', hid'⟩
  · exact .inl (h'.trans h)
  · exact .inl (h' ▸ h)
  · exact .inl (h ▸ h')
  · exact .inr ⟨h.trans h', Nat.lt_trans hid hid'⟩

theorem Before.asymm (h : a.Before b) : ¬b.Before a := by
  rintro (h' | ⟨h', hid'⟩) <;> rcases h with h | ⟨h, hid⟩
  · omega
  · omega
  · omega
  · exact Nat.lt_asymm hid hid'

theorem totalRank_le_of_not_before (h : ¬b.Before a) : totalRank b.prob ≤ totalRank a.prob := by
  by_contra hlt
  exact h (.inl (not_le.1 hlt))

theorem before_of_not_before (h : ¬b.Before a) (hne : a.id ≠ b.id) : a.Before b := by
  rcases (totalRank_le_of_not_before h).lt_or_eq with hlt | heq
  · exact .inl hlt
  · refine .inr ⟨heq.symm, lt_of_le_of_ne ?_ hne⟩
    by_contra hid
    exact h (.inr ⟨heq, not_le.1 hid⟩)

/-- Among proportions the order is by value. -/
theorem before_iff (ha : Proportion a.prob) (hb : Proportion b.prob) :
    a.Before b ↔ b.prob < a.prob ∨ a.prob = b.prob ∧ a.id < b.id := by
  rw [Before, hb.totalRank_lt_iff ha, totalRank_injective.eq_iff]

end Node

namespace Pending

variable {p q : Pending} {queue : List Pending}

theorem precedes_iff : p.precedes q = true ↔ p.node.Before q.node := by
  simp [precedes, Node.Before]

/-- None of the waiting nodes comes before an earlier one. -/
def Ordered (queue : List Pending) : Prop := queue.Pairwise fun p q => ¬q.node.Before p.node

theorem Ordered.enqueue (h : Ordered queue) (p : Pending) : Ordered (p.enqueue queue) := by
  induction queue with
  | nil => exact List.pairwise_singleton _ _
  | cons q queue ih =>
      obtain ⟨hq, hqueue⟩ := List.pairwise_cons.1 h
      unfold Pending.enqueue
      split_ifs with hpq
      · rw [precedes_iff] at hpq
        refine List.pairwise_cons.2 ⟨fun r hr => ?_, h⟩
        rcases List.mem_cons.1 hr with rfl | hr
        · exact hpq.asymm
        · exact fun hrp => hq r hr (hrp.trans hpq)
      · rw [precedes_iff] at hpq
        refine List.pairwise_cons.2 ⟨fun r hr => ?_, ih hqueue⟩
        rcases List.mem_cons.1 ((enqueue_perm p queue).mem_iff.1 hr) with rfl | hr
        · exact hpq
        · exact hq r hr

end Pending

/-! ### Starts -/

/-- The position and the number of the node where a run started. -/
def Event.start? : Event → Option (Nat × NodeId)
  | run _ first _ node => some (first, node)
  | _ => none

namespace Packing

/-- The starts of the runs that were finished. -/
def starts (s : Packing) : List (Nat × NodeId) := s.events.toList.filterMap Event.start?

theorem starts_closeRun (s : Packing) (first : Nat) (node : NodeId) :
    (s.closeRun first node).starts = s.starts ++ [(first, node)] := by
  simp [starts, closeRun, Event.start?]

theorem events_fill {s s' : Packing} {link : Option Link} (h : s.fill link = .ok s') :
    s'.events = s.events := by
  unfold fill at h
  split at h
  · cases h
    rfl
  · split_ifs at h
    cases h
    rfl

theorem starts_place {s s' : Packing} {p : Pending} (h : s.place p = .ok s') :
    s'.starts = s.starts := by
  obtain ⟨s₁, hfill, h⟩ := bind_eq_ok_iff.1 h
  have hevents := events_fill hfill
  cases h
  simp [starts, hevents, Event.start?]

/-- **A run** keeps the waiting nodes in order, and tells of no other run. -/
theorem layRun_ordered {kernelSize first : Nat} {s s' : Packing} {queue queue' : List Pending}
    {link : Option Link} {n : Node}
    (h : layRun kernelSize first s queue link n = .ok (s', queue'))
    (hqueue : Pending.Ordered queue) : Pending.Ordered queue' ∧ s'.starts = s.starts := by
  induction n generalizing s queue link with
  | leaf m p =>
      rw [layRun] at h
      obtain ⟨s₁, hplace, h⟩ := bind_eq_ok_iff.1 h
      cases h
      exact ⟨hqueue, starts_place hplace⟩
  | split m f t l r ihl ihr =>
      rw [layRun] at h
      obtain ⟨s₁, hplace, h⟩ := bind_eq_ok_iff.1 h
      have hstarts := starts_place hplace
      split_ifs at h
      · cases h
        exact ⟨(hqueue.enqueue _).enqueue _, hstarts⟩
      · obtain ⟨hordered, hrest⟩ := ihl h (hqueue.enqueue _)
        exact ⟨hordered, hrest.trans hstarts⟩
      · obtain ⟨hordered, hrest⟩ := ihr h (hqueue.enqueue _)
        exact ⟨hordered, hrest.trans hstarts⟩

/-! ### Waiting nodes -/

/-- A node waits if it is not laid out and its parent is, if it has one. -/
structure Waits (root : Node) (done : List Node) (a : Node) : Prop where
  mem : a ∈ root.subtrees
  not_done : a ∉ done
  parent : ∀ b ∈ root.subtrees, a ∈ b.children → b ∈ done

namespace Laid

variable {root a : Node} {s : Packing} {done : List Node} {p : Pending} {waiting : List Pending}

section waiting

variable (hroot : root.Distinct) (h : Laid root s done waiting)
include hroot h

theorem not_mem_done_of_waiting (hp : p ∈ waiting) (ha : a ∈ p.node.subtrees) : a ∉ done := by
  intro hd
  refine (List.nodup_append.1 (h.perm.nodup_iff.2 hroot.nodup)).2.2 a hd a ?_ rfl
  exact List.mem_flatMap_of_mem hp ha

omit hroot in
theorem exists_waiting (ha : a ∈ root.subtrees) (hd : a ∉ done) :
    ∃ p ∈ waiting, a ∈ p.node.subtrees := by
  rcases List.mem_append.1 (h.perm.mem_iff.2 ha) with hmem | hmem
  · exact absurd hmem hd
  · exact List.mem_flatMap.1 hmem

/-- **The waiting nodes** are those that are not laid out and whose parents are. -/
theorem mem_waiting_iff : (∃ p ∈ waiting, p.node = a) ↔ Waits root done a := by
  constructor
  · rintro ⟨p, hp, rfl⟩
    have hmem := h.mem_root_of_waiting p hp
    refine ⟨hmem, h.not_mem_done_of_waiting hroot hp (Node.mem_subtrees_self _), ?_⟩
    intro b hb hpb
    have hfits := h.fits p hp
    unfold Pending.Fits at hfits
    split at hfits
    · rw [hfits] at hpb
      exact absurd hpb (hroot.not_mem_children hb)
    · obtain ⟨c, hc, hpc⟩ := hfits
      have hc := List.mem_of_getElem? hc
      have hcroot := h.perm.mem_iff.1 (List.mem_append_left _ hc)
      rwa [hroot.parent_unique hb hcroot hpb (Node.mem_children_of_child? hpc)]
  · intro hwaits
    obtain ⟨p, hp, hap⟩ := h.exists_waiting hwaits.mem hwaits.not_done
    rcases Node.eq_or_exists_parent hap with rfl | ⟨b, hb, hab⟩
    · exact ⟨p, hp, rfl⟩
    · have hbroot := Node.mem_subtrees_trans hb (h.mem_root_of_waiting p hp)
      exact absurd (hwaits.parent b hbroot hab) (h.not_mem_done_of_waiting hroot hp hb)

end waiting
end Laid

/-! ### Successive runs -/

/-- The runs that are started when `done` are laid out and later, given by where they start in
`order` and with which node: the one that comes before all others that wait there. -/
structure Starts (root : Node) (done order : List Node) (runs : List (Nat × Node)) : Prop where
  le : ∀ r ∈ runs, done.length ≤ r.1
  node : ∀ r ∈ runs, order[r.1]? = some r.2
  waits : ∀ r ∈ runs, Waits root (order.take r.1) r.2
  before : ∀ r ∈ runs, ∀ a, Waits root (order.take r.1) a → a ≠ r.2 → r.2.Before a
  increasing : runs.Pairwise fun r r' => r.1 < r'.1
  falling : root.Cools → runs.Pairwise fun r r' => totalRank r'.2.prob ≤ totalRank r.2.prob

theorem Starts.nil (root : Node) (done order : List Node) : Starts root done order [] where
  le := by simp
  node := by simp
  waits := by simp
  before := by simp
  increasing := .nil
  falling _ := .nil

section runs

variable {root : Node} {s : Packing} {done done' order : List Node} {start : Pending}
  {queue : List Pending} {runs : List (Nat × Node)}

/-- Of the waiting nodes the first one comes before all others. -/
theorem Laid.before_of_waits (hroot : root.Distinct) (h : Laid root s done (start :: queue))
    (hordered : Pending.Ordered (start :: queue)) {a : Node} (ha : Waits root done a)
    (hne : a ≠ start.node) : start.node.Before a := by
  obtain ⟨p, hp, rfl⟩ := (h.mem_waiting_iff hroot).2 ha
  rcases List.mem_cons.1 hp with rfl | hqueue
  · exact absurd rfl hne
  · refine Node.before_of_not_before ((List.pairwise_cons.1 hordered).1 p hqueue) fun hid => hne ?_
    have hstart := h.mem_root_of_waiting start List.mem_cons_self
    exact (hroot.eq_of_id_eq hstart ha.mem hid).symm

/-- If probabilities fall, nothing that is still to come is more probable than the first of the
waiting nodes. -/
theorem Laid.totalRank_le (h : Laid root s done (start :: queue))
    (hordered : Pending.Ordered (start :: queue)) (hcools : root.Cools) {a : Node}
    (ha : a ∈ root.subtrees) (hd : a ∉ done) : totalRank a.prob ≤ totalRank start.node.prob := by
  obtain ⟨p, hp, hap⟩ := h.exists_waiting ha hd
  have hbelow := (hcools.of_mem (h.mem_root_of_waiting p hp)).totalRank_le hap
  rcases List.mem_cons.1 hp with rfl | hqueue
  · exact hbelow
  · have hnot := (List.pairwise_cons.1 hordered).1 p hqueue
    exact hbelow.trans (Node.totalRank_le_of_not_before hnot)

/-- A run is started with the first of the waiting nodes. -/
theorem Starts.cons (hroot : root.Distinct) (h : Laid root s done (start :: queue))
    (hordered : Pending.Ordered (start :: queue)) (hdone : done ++ [start.node] <+: done')
    (horder : done' <+: order) (hruns : Starts root done' order runs) :
    Starts root done order ((done.length, start.node) :: runs) := by
  have hlater : ∀ r ∈ runs, done.length < r.1 := by
    intro r hr
    have hlt : done.length + 1 ≤ done'.length := by simpa using hdone.length_le
    exact Nat.lt_of_lt_of_le hlt (hruns.le r hr)
  have hinitial : done <+: order := (List.prefix_append _ _).trans (hdone.trans horder)
  have htake : order.take done.length = done := (List.prefix_iff_eq_take.1 hinitial).symm
  have hwaits : Waits root done start.node :=
    (h.mem_waiting_iff hroot).1 ⟨start, List.mem_cons_self, rfl⟩
  constructor
  · exact List.forall_mem_cons.2 ⟨Nat.le_refl _, fun r hr => (hlater r hr).le⟩
  · refine List.forall_mem_cons.2 ⟨?_, hruns.node⟩
    obtain ⟨rest, hrest⟩ := hdone.trans horder
    rw [← hrest, List.getElem?_append_left (by simp)]
    exact List.getElem?_concat_length
  · refine List.forall_mem_cons.2 ⟨?_, hruns.waits⟩
    rwa [htake]
  · refine List.forall_mem_cons.2 ⟨fun a ha hne => ?_, hruns.before⟩
    rw [htake] at ha
    exact h.before_of_waits hroot hordered ha hne
  · exact List.pairwise_cons.2 ⟨hlater, hruns.increasing⟩
  · intro hcools
    refine List.pairwise_cons.2 ⟨fun r hr => ?_, hruns.falling hcools⟩
    have hr' := hruns.waits r hr
    have hsub : done <+: order.take r.1 :=
      List.prefix_take_iff.2 ⟨hinitial, (hlater r hr).le⟩
    exact h.totalRank_le hordered hcools hr'.mem fun hd => hr'.not_done (hsub.subset hd)

end runs

/-- **All runs** start with the first of the nodes that wait then. -/
theorem Laid.layAll_starts {root : Node} (hroot : root.Distinct) {kernelSize : Nat}
    (hk : 0 < kernelSize) {s : Packing} {done : List Node} {waiting : List Pending}
    (h : Laid root s done waiting) (hordered : Pending.Ordered waiting) :
    ∃ (s' : Packing) (order : List Node) (runs : List (Nat × Node)),
      Packing.layAll kernelSize s waiting = .ok s' ∧ Laid root s' order [] ∧ done <+: order ∧
      s'.starts = s.starts ++ runs.map (fun r => (r.1, r.2.id)) ∧
      s'.runs = s.runs + runs.length ∧
      runs.head? = waiting.head?.map (fun p => (done.length, p.node)) ∧
      Starts root done order runs := by
  let motive (s : Packing) (done : List Node) (waiting : List Pending) (s' : Packing) : Prop :=
    Pending.Ordered waiting → ∃ (order : List Node) (runs : List (Nat × Node)),
      Laid root s' order [] ∧ done <+: order ∧
      s'.starts = s.starts ++ runs.map (fun r => (r.1, r.2.id)) ∧
      s'.runs = s.runs + runs.length ∧
      runs.head? = waiting.head?.map (fun p => (done.length, p.node)) ∧
      Starts root done order runs
  obtain ⟨s', hall, hmotive⟩ : ∃ s', Packing.layAll kernelSize s waiting = .ok s' ∧
      motive s done waiting s' := by
    refine h.layAll_induction (motive := motive) hroot hk (fun {s done} h _ => ?_)
      fun {s done start _ s₁ _ _} h hrun hmotive hordered => ?_
    · exact ⟨done, [], h, List.prefix_refl _, (List.append_nil _).symm, rfl, rfl, .nil root done done⟩
    · obtain ⟨hordered₁, hstarts₁⟩ :=
        layRun_ordered hrun.eq_ok (List.pairwise_cons.1 hordered).2
      obtain ⟨order, runs, hlaid, hinitial, hstarts, hruns, -, hrest⟩ := hmotive hordered₁
      -- the run has laid out its first node at least
      have hdone : done ++ [start.node] <+: done ++ start.node.hotChain.take kernelSize := by
        obtain ⟨rest, hchain⟩ := Node.exists_hotChain start.node
        obtain ⟨room, rfl⟩ := Nat.exists_eq_add_one.2 hk
        rw [hchain, List.take_succ_cons]
        exact (List.prefix_append_right_inj done).2 (List.prefix_append [start.node] _)
      refine ⟨order, (done.length, start.node) :: runs, hlaid,
        (List.prefix_append _ _).trans hinitial, ?_, ?_, rfl,
        .cons hroot h hordered hdone hinitial hrest⟩
      · have hopen : s.openRun.starts = s.starts := rfl
        rw [hstarts, starts_closeRun, hstarts₁, hopen, h.size, List.append_assoc]
        rfl
      · rw [hruns, hrun.runs, List.length_cons]
        omega
  obtain ⟨order, runs, hruns⟩ := hmotive hordered
  exact ⟨s', order, runs, hall, hruns⟩

end Packing

/-! ### Tables -/

/-- At a position of the table, a node waits if it has no position before and its parent does. -/
def Table.Waits (table : Table) (root : Node) (first : Nat) (a : Node) : Prop :=
  (∃ i, table.index? a.id = some i ∧ first ≤ i) ∧
    ∃ b ∈ root.subtrees, a ∈ b.children ∧ ∃ i, table.index? b.id = some i ∧ i < first

/-- The node at which a run goes on there: of those that wait it comes before all others. -/
def Table.Next (table : Table) (root : Node) (first : Nat) (a : Node) : Prop :=
  table.Waits root first a ∧ ∀ b, table.Waits root first b → b ≠ a → a.Before b

theorem Table.Next.unique {table : Table} {root a b : Node} {first : Nat}
    (ha : table.Next root first a) (hb : table.Next root first b) : a = b := by
  by_contra hne
  exact (ha.2 b hb.1 (Ne.symm hne)).asymm (hb.2 a ha.1 hne)

namespace Packing.Laid

variable {root a : Node} {s : Packing} {order : List Node} (hroot : root.Distinct)
  (h : Laid root s order [])
include hroot h

theorem mem_take_iff {first : Nat} (ha : a ∈ root.subtrees) :
    a ∈ order.take first ↔ ∃ i, s.index.lookup a.id = some i ∧ i < first := by
  simp only [h.lookup_eq_some_iff hroot ha, List.mem_iff_getElem?, List.getElem?_take,
    Option.ite_none_right_eq_some, and_comm]

/-- Once the root is laid out, the positions tell which nodes wait. -/
theorem waits_iff (name : String) (runs : Nat) (events : List Event) {first : Nat}
    (hfirst : 0 < first) : Table.Waits ⟨name, s.entries, s.index, runs, events⟩ root first a ↔
      Waits root (order.take first) a := by
  have hself := Node.mem_subtrees_self root
  have hhead : root ∈ order.take first :=
    (h.mem_take_iff hroot hself).2 ⟨0, (h.lookup_eq_some_iff hroot hself).2 h.getElem?_zero, hfirst⟩
  constructor
  · rintro ⟨⟨i, hi, hle⟩, b, hb, hab, hbi⟩
    have ha := Node.mem_subtrees_trans (Node.mem_subtrees_of_mem_children hab) hb
    refine ⟨ha, fun hmem => ?_, fun c hc hac => ?_⟩
    · obtain ⟨j, hj, hlt⟩ := (h.mem_take_iff hroot ha).1 hmem
      have hij := Option.some.inj (hi.symm.trans hj)
      omega
    · rw [hroot.parent_unique hc hb hac hab]
      exact (h.mem_take_iff hroot hb).2 hbi
  · intro hwaits
    obtain ⟨i, hi⟩ := h.exists_position hwaits.mem
    have hindex := (h.lookup_eq_some_iff hroot hwaits.mem).2 hi
    refine ⟨⟨i, hindex, ?_⟩, ?_⟩
    · by_contra hlt
      exact hwaits.not_done ((h.mem_take_iff hroot hwaits.mem).2 ⟨i, hindex, not_le.1 hlt⟩)
    · rcases Node.eq_or_exists_parent hwaits.mem with rfl | ⟨b, hb, hab⟩
      · exact absurd hhead hwaits.not_done
      · exact ⟨b, hb, hab, (h.mem_take_iff hroot hb).1 (hwaits.parent b hb hab)⟩

end Packing.Laid

/-! ### Trees that were built -/

namespace Draft

variable {d : Draft} {head : NodeId} {t : Tree}

/-- **Runs start at the hottest node that waits.** The first run starts at the head, and each other
run at the one node that comes before all others that wait there: the most probable one, and the one
of the lowest number if several are as probable. From one run to the next the probability of the
start never increases. -/
theorem runs_start_hottest (hb : d.build head = .ok t) {kernelSize : Nat} (hk : 0 < kernelSize) :
    ∃ (table : Table) (runs : List (Nat × Node)), Table.pack t.annotate kernelSize = .ok table ∧
      table.events.filterMap Event.start? = runs.map (fun r => (r.1, r.2.id)) ∧
      table.runs = runs.length ∧
      runs.Pairwise (fun r r' => r.1 < r'.1) ∧
      (∀ r ∈ runs, r.2 ∈ t.annotate.nodes ∧ table.index? r.2.id = some r.1) ∧
      runs.head? = some (0, t.annotate.root) ∧ t.annotate.root.id = head ∧
      (∀ r ∈ runs.tail, ∀ a, table.Next t.annotate.root r.1 a ↔ a = r.2) ∧
      (t.root.CountsFit →
        (∀ a ∈ t.annotate.nodes, ∀ b ∈ t.annotate.nodes,
          a.Before b ↔ b.prob < a.prob ∨ a.prob = b.prob ∧ a.id < b.id) ∧
        runs.Pairwise fun r r' => r'.2.prob ≤ r.2.prob) := by
  have hroot := (root_wellFormed_annotate hb).distinct
  have hnodes := nodes_annotate_perm hb
  obtain ⟨s, order, runs, hall, h, -, hstarts, hruns, hhead, hrun⟩ :=
    (Packing.Laid.empty t.annotate.root).layAll_starts hroot hk (List.pairwise_singleton _ _)
  have hindex : ∀ r ∈ runs, s.index.lookup r.2.id = some r.1 := fun r hr =>
    (h.lookup_eq_some_iff hroot (hrun.waits r hr).mem).2 (hrun.node r hr)
  have hcools : t.root.CountsFit → t.annotate.root.Cools := fun hfit =>
    Node.cools_annotate hfit proportion_one
  obtain ⟨rest, rfl⟩ := List.head?_eq_some_iff.1 hhead
  refine ⟨⟨t.annotate.name, s.entries, s.index, s.runs, s.events.toList⟩, _,
    Table.pack_eq_ok rfl hk hall h, hstarts, hruns.trans (Nat.zero_add _), hrun.increasing,
    fun r hr => ⟨hnodes.mem_iff.2 (hrun.waits r hr).mem, hindex r hr⟩, rfl, ?_, fun r hr a => ?_,
    fun hfit => ⟨fun a ha b hb => ?_, ?_⟩⟩
  · rw [Tree.annotate, Node.id_annotate, root_id_of_build hb]
  · have hpos : 0 < r.1 := (List.pairwise_cons.1 hrun.increasing).1 r hr
    have hr := List.mem_cons_of_mem (0, t.annotate.root) hr
    have hwaits {a : Node} := h.waits_iff (a := a) hroot t.annotate.name s.runs s.events.toList hpos
    have hnext : Table.Next _ t.annotate.root r.1 r.2 :=
      ⟨hwaits.2 (hrun.waits r hr), fun a ha => hrun.before r hr a (hwaits.1 ha)⟩
    exact ⟨fun ha => ha.unique hnext, fun ha => ha ▸ hnext⟩
  · exact Node.before_iff ((hcools hfit).proportion a (hnodes.mem_iff.1 ha))
      ((hcools hfit).proportion b (hnodes.mem_iff.1 hb))
  · have hproportion : ∀ r ∈ (0, t.annotate.root) :: rest, Proportion r.2.prob := fun r hr =>
      (hcools hfit).proportion r.2 (hrun.waits r hr).mem
    refine (hrun.falling (hcools hfit)).imp_of_mem fun hr hr' hle => ?_
    exact ((hproportion _ hr').totalRank_le_iff (hproportion _ hr)).1 hle

theorem runs_start_hottest_lopsided : lopsided.build 0 = .ok lopsidedTree ∧ 0 < 1 ∧
    lopsidedTree.root.CountsFit ∧ ∃ (table : Table) (runs : List (Nat × Node)),
      Table.pack lopsidedTree.annotate 1 = .ok table ∧
      table.events.filterMap Event.start? = runs.map (fun r => (r.1, r.2.id)) ∧
      runs.head? = some (0, lopsidedTree.annotate.root) ∧
      runs.Pairwise fun r r' => r'.2.prob ≤ r.2.prob := by
  have hfit : lopsidedTree.root.CountsFit := by decide
  obtain ⟨table, runs, hpack, hevents, -, -, -, hhead, -, -, hfalling⟩ :=
    runs_start_hottest build_lopsided Nat.one_pos
  exact ⟨build_lopsided, Nat.one_pos, hfit, table, runs, hpack, hevents, hhead, (hfalling hfit).2⟩

end Draft
end TreeCode
