import TreeCode.Proofs.Table.Order

/-! # The transcript of a layout

Every node that is laid out is told of with its position, one after the other, and every run with
its number and its first and last position once it is finished (`Laid.layAll_records`). So what is
told of a table says which node each entry stands for, and where the runs are
(`Table.exists_pack_records`). -/

namespace TreeCode

/-! ### Records -/

/-- A record of the log, with the event that it tells of. -/
structure Record where
  level : Level
  text : String
  event : Event

def Event.record (e : Event) : Record := ⟨e.level, e.text, e⟩

/-- The records of laying out nodes one after the other from a position on. -/
def layoutRecords (first : Nat) (nodes : List Node) : List Record :=
  (nodes.zipIdx first).map fun (n, i) =>
    { level := .trace
      text := s!"entry {i} <- node {nodeText n.id} (p={String.ofList (doubleText n.prob)})"
      event := .laid i n.id n.prob }

/-- The record of a run from a position on, from a node at its start. -/
def runRecord (number first stop : Nat) (start : Node) : Record where
  level := .debug
  text := s!"run {number}: entries {first}..{stop} starting at node {nodeText start.id}"
  event := .run number first stop start.id

/-- The records of some runs from a number and a position on: the nodes of each run, and then the
run with the number of its first node. -/
def runRecords (number first : Nat) : List (List Node) → List Record
  | [] => []
  | run :: runs =>
      let stop := first + run.length
      layoutRecords first run ++ (run.head?.map (runRecord number first stop)).toList ++
        runRecords (number + 1) stop runs

theorem layoutRecords_cons (first : Nat) (n : Node) (nodes : List Node) :
    layoutRecords first (n :: nodes) =
      layoutRecords first [n] ++ layoutRecords (first + 1) nodes := by
  rw [layoutRecords, List.zipIdx_cons, List.map_cons]
  rfl

namespace Packing

/-- The records of what happened so far. -/
def records (s : Packing) : List Record := s.events.toList.map Event.record

theorem records_closeRun (s : Packing) (first : Nat) (start : Node) :
    (s.closeRun first start.id).records =
      s.records ++ [runRecord s.runs first s.entries.size start] := by
  simp only [records, closeRun, Array.toList_push, List.map_append]
  rfl

theorem records_place {s s' : Packing} {p : Pending} (h : s.place p = .ok s') :
    s'.records = s.records ++ layoutRecords s.entries.size [p.node] := by
  obtain ⟨s₁, hfill, h⟩ := bind_eq_ok_iff.1 h
  have hevents := events_fill hfill
  cases h
  simp only [records, hevents, Array.toList_push, List.map_append]
  rfl

/-- **A run** tells of the nodes that it lays out. -/
theorem layRun_records {kernelSize first room : Nat} {s s' : Packing} {queue queue' : List Pending}
    {link : Option Link} {n : Node}
    (h : layRun kernelSize first s queue link n = .ok (s', queue'))
    (hfirst : first ≤ s.entries.size) (hroom : s.entries.size + (room + 1) = first + kernelSize) :
    s'.records = s.records ++ layoutRecords s.entries.size (n.hotChain.take (room + 1)) := by
  induction n generalizing s queue link room with
  | leaf m p =>
      rw [layRun] at h
      obtain ⟨s₁, hplace, h⟩ := bind_eq_ok_iff.1 h
      cases h
      rw [records_place hplace, Node.hotChain, List.take_succ_cons, List.take_nil]
  | split m f t l r ihl ihr =>
      rw [layRun] at h
      obtain ⟨s₁, hplace, h⟩ := bind_eq_ok_iff.1 h
      have hsize := (place_eq_ok hplace).1
      have hrecords := records_place hplace
      rw [Node.hotChain_split, List.take_succ_cons, layoutRecords_cons]
      cases room with
      | zero =>
          rw [if_pos (by omega)] at h
          cases h
          rw [hrecords, List.take_zero]
          rfl
      | succ room =>
          have hroom₁ : s₁.entries.size + (room + 1) = first + kernelSize := by omega
          rw [if_neg (by omega)] at h
          rw [Node.hotter]
          split_ifs at h ⊢
          · rw [ihl h (by omega) hroom₁, hrecords, hsize, List.append_assoc]
          · rw [ihr h (by omega) hroom₁, hrecords, hsize, List.append_assoc]

variable {root : Node} {s : Packing} {done : List Node} {waiting : List Pending}

/-- **All runs** are told of, each after the nodes that it lays out. -/
theorem Laid.layAll_records (hroot : root.Distinct) {kernelSize : Nat} (hk : 0 < kernelSize)
    (h : Laid root s done waiting) :
    ∃ (s' : Packing) (runs : List (List Node)), Packing.layAll kernelSize s waiting = .ok s' ∧
      Laid root s' (done ++ runs.flatten) [] ∧
      s'.records = s.records ++ runRecords (s.runs + 1) done.length runs ∧
      s'.runs = s.runs + runs.length ∧ ∀ run ∈ runs, run ≠ [] ∧ run.length ≤ kernelSize := by
  let motive (s : Packing) (done : List Node) (_ : List Pending) (s' : Packing) : Prop :=
    ∃ runs : List (List Node), Laid root s' (done ++ runs.flatten) [] ∧
      s'.records = s.records ++ runRecords (s.runs + 1) done.length runs ∧
      s'.runs = s.runs + runs.length ∧ ∀ run ∈ runs, run ≠ [] ∧ run.length ≤ kernelSize
  obtain ⟨s', hall, runs, hruns⟩ : ∃ s', Packing.layAll kernelSize s waiting = .ok s' ∧
      motive s done waiting s' := by
    refine h.layAll_induction (motive := motive) hroot hk (fun h => ?_)
      fun {s done start _ s₁ _ s'} h hrun ⟨runs, hlaid, hrecords, hruns, hlengths⟩ => ?_
    · exact ⟨[], by simpa using h, (List.append_nil _).symm, rfl, nofun⟩
    · obtain ⟨room, rfl⟩ := Nat.exists_eq_add_one.2 hk
      obtain ⟨rest, hchain⟩ := Node.exists_hotChain start.node
      have hhead : (start.node.hotChain.take (room + 1)).head? = some start.node := by
        rw [hchain, List.take_succ_cons, List.head?_cons]
      have hlayout := layRun_records hrun.eq_ok (Nat.le_refl s.entries.size) rfl
      have hopen : s.openRun.records = s.records := rfl
      have hsize : s.openRun.entries.size = done.length := h.size
      have hnumber : s₁.runs = s.runs + 1 := hrun.runs
      have hstop : s₁.entries.size = done.length + _ := hrun.laid.size.trans List.length_append
      refine ⟨start.node.hotChain.take (room + 1) :: runs, ?_, ?_, ?_, ?_⟩
      · rwa [List.append_assoc] at hlaid
      · rw [hrecords, records_closeRun, hlayout, hopen, hsize, hnumber, hrun.runs, h.size, hstop,
          runRecords, hhead, List.length_append]
        simp only [List.append_assoc]
        rfl
      · rw [hruns, hrun.runs, List.length_cons]
        omega
      · refine List.forall_mem_cons.2 ⟨⟨?_, List.length_take_le _ _⟩, hlengths⟩
        rw [hchain, List.take_succ_cons]
        exact List.cons_ne_nil _ _
  exact ⟨s', runs, hall, hruns⟩

end Packing

/-! ### Tables -/

namespace Table

variable {t : Tree} {kernelSize : Nat}

theorem packEvents_of_not_annotated (ha : t.annotated = false) :
    packEvents t kernelSize = [] := by
  unfold packEvents
  rw [ha]
  rfl

/-- **The transcript of a table** tells of each node with its position, and of the runs with their
numbers and bounds. -/
theorem exists_pack_records (hroot : t.root.Distinct) (ha : t.annotated = true)
    (hk : 0 < kernelSize) :
    ∃ (table : Table) (runs : List (List Node)), pack t kernelSize = .ok table ∧
      table.events.map Event.record = runRecords 1 0 runs ∧ runs.length = table.runs ∧
      (∀ run ∈ runs, run ≠ [] ∧ run.length ≤ kernelSize) ∧
      runs.flatten.Perm t.root.subtrees ∧
      ∀ i n, runs.flatten[i]? = some n → table.index? n.id = some i := by
  obtain ⟨s, runs, hall, h, hrecords, hruns, hlengths⟩ :=
    (Packing.Laid.empty t.root).layAll_records hroot hk
  rw [List.nil_append] at h
  refine ⟨_, runs, pack_eq_ok ha hk hall h, hrecords, ?_, hlengths, ?_, fun i n hn => ?_⟩
  · exact (hruns.trans (Nat.zero_add _)).symm
  · have hperm := h.perm
    rwa [List.flatMap_nil, List.append_nil] at hperm
  · exact (h.index n.id i).2 ⟨n, hn, rfl⟩

end Table

end TreeCode
