import Mathlib.Data.List.TakeWhile
import TreeCode.Proofs.Inline.Greedy
import TreeCode.Proofs.Inline.Total
import TreeCode.Proofs.Program.Report
import TreeCode.Proofs.Table.Transcript

/-! # The transcript of a lowering

The statements of a linked plan, in the order of their texts, say what is told of its decisions: a
branch by its cost and the size that is spent with it, a jump to the table by its entry and the
size that is spent before it (`Plan.exists_decisions`). So the log of a lowering says how the table
is laid out, what is inlined for which size, and what comes out of it (`lower_transcript`). -/

namespace TreeCode

/-! ### Sizes -/

def Event.inlinedSize? : Event → Option Nat
  | inlined _ _ size => some size
  | _ => none

/-- The sizes spent with the splits that are inlined. -/
def inlinedSizes (records : List Record) : List Nat :=
  records.filterMap fun r => r.event.inlinedSize?

theorem inlinedSizes_append (xs ys : List Record) :
    inlinedSizes (xs ++ ys) = inlinedSizes xs ++ inlinedSizes ys :=
  List.filterMap_append

theorem forall_mem_runRecords {P : Record → Prop} {number first : Nat} {runs : List (List Node)}
    (hlaid : ∀ i id prob, P (Event.laid i id prob).record)
    (hrun : ∀ number first stop id, P (Event.run number first stop id).record) :
    ∀ r ∈ runRecords number first runs, P r := by
  induction runs generalizing number first with
  | nil => nofun
  | cons run runs ih =>
      rw [runRecords]
      refine List.forall_mem_append.2
        ⟨List.forall_mem_append.2 ⟨fun r hr => ?_, fun r hr => ?_⟩, ih⟩
      · obtain ⟨⟨n, i⟩, -, rfl⟩ := List.mem_map.1 hr
        exact hlaid i n.id n.prob
      · obtain ⟨start, -, rfl⟩ := Option.map_eq_some_iff.1 (Option.mem_toList.1 hr)
        exact hrun _ _ _ _

theorem inlinedSizes_runRecords (number first : Nat) (runs : List (List Node)) :
    inlinedSizes (runRecords number first runs) = [] :=
  List.filterMap_eq_nil_iff.2 (forall_mem_runRecords (fun _ _ _ => rfl) fun _ _ _ _ => rfl)

/-! ### Statements -/

namespace Statement

/-- What has been spent after a statement, given what splits cost. -/
def spend (cost : NodeId → Nat) (spent : Nat) : Statement → Nat
  | branch node _ _ _ => spent + cost node
  | _ => spent

/-- The record of a statement when `spent` has been spent before. -/
def record? (cost : NodeId → Nat) (spent : Nat) : Statement → Option Record
  | ret _ => none
  | branch node _ _ _ => some {
      level := .trace
      text := s!"inline node {nodeText node} (cost {cost node}, size {spent + cost node})"
      event := .inlined node (cost node) (spent + cost node) }
  | fallback node entry => some {
      level := .debug
      text := s!"fallback at node {nodeText node} -> entry {entry} (size {spent})"
      event := .deferred node entry spent }

/-- The records of statements one after the other when `spent` has been spent before. -/
def records (cost : NodeId → Nat) (spent : Nat) : List Statement → List Record
  | [] => []
  | s :: ss => (s.record? cost spent).toList ++ records cost (s.spend cost spent) ss

variable {cost : NodeId → Nat} {spent : Nat}

theorem records_append (xs ys : List Statement) :
    records cost spent (xs ++ ys) =
      records cost spent xs ++ records cost (xs.foldl (spend cost) spent) ys := by
  induction xs generalizing spent with
  | nil => rfl
  | cons x xs ih => rw [List.cons_append, records, records, ih, List.append_assoc, List.foldl_cons]

/-- The sizes of the branches increase, up to what is spent in the end. -/
theorem inlinedSizes_records {ss : List Statement}
    (hpos : ∀ node test a b, branch node test a b ∈ ss → 0 < cost node) (spent : Nat) :
    (∀ size ∈ inlinedSizes (records cost spent ss), spent < size) ∧
      (inlinedSizes (records cost spent ss)).Pairwise (· < ·) ∧
      (inlinedSizes (records cost spent ss)).getLast?.getD spent =
        ss.foldl (spend cost) spent := by
  induction ss generalizing spent with
  | nil => exact ⟨nofun, .nil, rfl⟩
  | cons s ss ih =>
      have hss : ∀ node test a b, branch node test a b ∈ ss → 0 < cost node :=
        fun node test a b h => hpos node test a b (List.mem_cons_of_mem s h)
      obtain ⟨hlt, hpairwise, hlast⟩ := ih hss (s.spend cost spent)
      rw [records, inlinedSizes_append, List.foldl_cons]
      cases s with
      | ret p => exact ⟨hlt, hpairwise, hlast⟩
      | fallback node entry => exact ⟨hlt, hpairwise, hlast⟩
      | branch node test a b =>
          have hfirst : spent < spent + cost node :=
            Nat.lt_add_of_pos_right (hpos node test a b List.mem_cons_self)
          refine ⟨List.forall_mem_cons.2 ⟨hfirst, fun size hsize => hfirst.trans (hlt size hsize)⟩,
            List.pairwise_cons.2 ⟨hlt, hpairwise⟩, ?_⟩
          rw [← hlast]
          exact congrArg (·.getD spent) List.getLast?_cons

theorem level_of_mem_records {ss : List Statement} {r : Record}
    (h : r ∈ records cost spent ss) : r.level ≠ .info := by
  induction ss generalizing spent with
  | nil => cases h
  | cons s ss ih =>
      rcases List.mem_append.1 h with h | h
      · cases s <;> simp [record?] at h <;> rw [h] <;> nofun
      · exact ih h

end Statement

/-! ### Plans -/

namespace Plan

open Statement (spend records)

variable {row : CostRow} {budget spent : Nat} {index : NodeId → Option Nat} {cost : NodeId → Nat}
  {n : Node} {s : Statement} {p : Plan}

theorem events_eq {events : List Event} (h : p.decisions index = events.map some) :
    p.events index = events := by
  have hall : (events.map some).takeWhile Option.isSome = events.map some :=
    List.takeWhile_eq_self_iff.2 (by simp)
  rw [Plan.events, h, hall, List.filterMap_map]
  exact List.filterMap_some

/-- **The decisions of a linked plan** are told of by its statements, and what these spend is the
cost of the plan. -/
theorem exists_decisions (h : (ofNode row budget n spent).link index = .ok s)
    (hcost : ∀ a ∈ n.subtrees, cost a.id = row.own a) (hrow : ∀ l r, 0 < row.split l r) :
    ∃ events : List Event, (ofNode row budget n spent).decisions index = events.map some ∧
      events.map Event.record = records cost spent s.preorder ∧
      s.preorder.foldl (spend cost) spent = spent + (ofNode row budget n spent).cost ∧
      ∀ node test a b, .branch node test a b ∈ s.preorder → 0 < cost node := by
  induction n using Node.hotterRec generalizing spent s with
  | leaf m p =>
      cases h
      exact ⟨[], rfl, rfl, rfl, by simp [Statement.preorder]⟩
  | split m f t l r ihhot ihcold =>
      by_cases hc : spent + row.split l r ≤ budget
      · obtain ⟨test, heq⟩ := exists_ofNode_of_le row m f t l r
        rw [heq hc] at h ⊢
        obtain ⟨a, b, ha, hb, rfl⟩ := link_inline_eq_ok_iff.1 h
        have below {c a : Node} (hc : c ∈ (Node.split m f t l r).subtrees) (ha : a ∈ c.subtrees) :
            cost a.id = row.own a := hcost a (Node.mem_subtrees_trans ha hc)
        have hself : cost m.id = row.split l r := hcost _ (Node.mem_subtrees_self _)
        obtain ⟨xs, hxs, hxrecords, hxspent, hxpos⟩ :=
          ihhot ha fun _ => below Node.hotter_mem_subtrees
        obtain ⟨ys, hys, hyrecords, hyspent, hypos⟩ :=
          ihcold hb fun _ => below Node.colder_mem_subtrees
        refine ⟨.inlined m.id (row.split l r) (spent + row.split l r) :: (xs ++ ys), ?_, ?_, ?_, ?_⟩
        · rw [decisions, hxs, hys, List.map_cons, List.map_append]
        · rw [List.map_cons, List.map_append, hxrecords, hyrecords, Statement.preorder, records,
            Statement.records_append, Statement.spend, hself, hxspent, Statement.record?, hself]
          rfl
        · rw [Statement.preorder, List.foldl_cons, List.foldl_append, Statement.spend, hself,
            hxspent, hyspent, Plan.cost]
          omega
        · intro node test' a' b' hmem
          rw [Statement.preorder, List.mem_cons, List.mem_append] at hmem
          rcases hmem with hmem | hmem | hmem
          · cases hmem
            rw [hself]
            exact hrow l r
          · exact hxpos node test' a' b' hmem
          · exact hypos node test' a' b' hmem
      · rw [ofNode_of_lt (Nat.lt_of_not_le hc)] at h ⊢
        obtain ⟨entry, hentry, rfl⟩ := link_defer_eq_ok_iff.1 h
        refine ⟨[.deferred m.id entry spent], ?_, rfl, rfl, by simp [Statement.preorder]⟩
        rw [decisions, hentry]
        rfl

end Plan

/-! ### Lowering -/

namespace Program

/-- The cost of the split with a number. -/
def costOf (p : Program) (id : NodeId) : Nat := (p.tree.node? id).elim 0 p.costRow.own

/-- What a finished lowering is told of by. -/
def finished (p : Program) : Record :=
  let r := p.report
  { level := .info
    text :=
      s!"Compiled {p.symbols.predict} on {p.config.architecture.name}: {r.tableEntries} entries, " ++
        s!"{r.inlineBranches} inline branches, {r.fallbackSites} fallback sites, " ++
        s!"size {r.inlineSize}/{p.config.budget}"
    event := .compiled p.symbols.predict p.config.architecture r p.config.budget }

theorem costOf_eq {p : Program} {n : Node} (hroot : p.tree.root.Distinct)
    (h : n ∈ p.tree.root.subtrees) : p.costOf n.id = p.costRow.own n := by
  rw [costOf, Tree.node?_eq hroot h]
  rfl

/-- Only branches are told of with the size that is spent by them. -/
theorem inlinedSizes_transcript (p : Program) (runs : List (List Node)) :
    inlinedSizes (runRecords 1 0 runs ++ Statement.records p.costOf 0 p.body.preorder ++
      [p.finished]) = inlinedSizes (Statement.records p.costOf 0 p.body.preorder) := by
  have hfinished : inlinedSizes [p.finished] = [] := rfl
  rw [inlinedSizes_append, inlinedSizes_append, inlinedSizes_runRecords, hfinished, List.nil_append,
    List.append_nil]

/-- What comes out of a lowering is told of once. -/
theorem filter_info_transcript (p : Program) (runs : List (List Node)) :
    (runRecords 1 0 runs ++ Statement.records p.costOf 0 p.body.preorder ++
      [p.finished]).filter (fun r => r.level = .info) = [p.finished] := by
  have hruns : (runRecords 1 0 runs).filter (fun r => r.level = .info) = [] :=
    List.filter_eq_nil_iff.2 (forall_mem_runRecords (by simp [Event.record, Event.level])
      (by simp [Event.record, Event.level]))
  have hbody :
      (Statement.records p.costOf 0 p.body.preorder).filter (fun r => r.level = .info) = [] :=
    List.filter_eq_nil_iff.2 fun r hr => by simpa using Statement.level_of_mem_records hr
  rw [List.filter_append, List.filter_append, hruns, hbody]
  rfl

theorem log_of_not_annotated {t : Tree} (ha : t.annotated = false) (c : Config)
    (treeId : UInt32) : log c t treeId = [] := by
  unfold log
  rw [lower_of_not_annotated ha]
  cases hpack : Table.pack t c.kernelSize with
  | error e => exact Table.packEvents_of_not_annotated ha
  | ok table =>
      unfold Table.pack at hpack
      rw [ha] at hpack
      cases hpack

theorem log_of_lower {c : Config} {t : Tree} {treeId : UInt32} {p : Program}
    (h : lower c t treeId = .ok p) : log c t treeId = p.events := by
  unfold log
  rw [h]

end Program

namespace Draft

variable {d : Draft} {head : NodeId} {t : Tree}

/-- **The log of a lowering** is a faithful transcript, with the level and the text of each record.
Nothing is told of a tree that was not annotated. Otherwise the runs of the table are told of, node
by node at the positions of the nodes; then the statements of the inline code with the sizes that
are spent; and then once what comes out of it. The sizes spent with inlined splits increase up to
the size of the inline code. -/
theorem lower_transcript (hb : d.build head = .ok t) (c : Config) (treeId : UInt32) :
    Program.log c t treeId = [] ∧
    ∃ (p : Program) (runs : List (List Node)) (records : List Record),
      Program.lower c t.annotate treeId = .ok p ∧
      Program.log c t.annotate treeId = p.events ∧ records = p.events.map Event.record ∧
      records = runRecords 1 0 runs ++ Statement.records p.costOf 0 p.body.preorder ++
        [p.finished] ∧
      runs.length = p.table.runs ∧ (∀ run ∈ runs, run ≠ [] ∧ run.length ≤ c.kernelSize) ∧
      runs.flatten.length = t.annotate.nodeCount ∧ runs.flatten.Perm t.annotate.nodes ∧
      (∀ i n, runs.flatten[i]? = some n → p.table.index? n.id = some i) ∧
      (inlinedSizes records).Pairwise (· < ·) ∧
      (inlinedSizes records).getLast?.getD 0 = p.inlineSize ∧
      records.filter (fun r => r.level = .info) = [p.finished] := by
  have hroot := (root_wellFormed_annotate hb).distinct
  obtain ⟨p, hp, -⟩ := Program.exists_lower (t := t.annotate) hroot rfl c treeId
  obtain ⟨hpack, hplan, hlink, hparts⟩ := Program.lower_eq_ok hp
  obtain ⟨table, runs, hpack', hlayout, hruns, hlengths, hperm, hindex⟩ :=
    Table.exists_pack_records hroot rfl c.kernelSize_pos
  obtain rfl := Except.ok.inj (hpack.symm.trans hpack')
  have htree : p.tree = t.annotate := by rw [hparts]
  have hrow : p.costRow = t.annotate.costRow c.architecture := by rw [hparts, Program.costRow]
  have hcost : ∀ a ∈ t.annotate.root.subtrees,
      p.costOf a.id = (t.annotate.costRow c.architecture).own a := by
    rw [← htree] at hroot ⊢
    intro a ha
    rw [Program.costOf_eq hroot ha, hrow, htree]
  rw [hplan] at hlink
  obtain ⟨events, hdecisions, hrecords, hspent, hpos⟩ :=
    Plan.exists_decisions hlink hcost (CostRow.split_pos_ofTarget _ _)
  rw [← hplan] at hdecisions hspent
  rw [Nat.zero_add] at hspent
  have hlog : p.events.map Event.record =
      runRecords 1 0 runs ++ Statement.records p.costOf 0 p.body.preorder ++ [p.finished] := by
    rw [Program.events, Plan.events_eq hdecisions, List.map_append, List.map_append, hlayout,
      hrecords]
    rfl
  obtain ⟨-, hincreasing, hlast⟩ := Statement.inlinedSizes_records hpos 0
  have hnodes := nodes_annotate_perm hb
  refine ⟨Program.log_of_not_annotated (annotated_of_build hb) c treeId, p, runs, _, hp,
    Program.log_of_lower hp, rfl, hlog, hruns, hlengths, ?_, hperm.trans hnodes.symm, hindex, ?_,
    ?_, ?_⟩
  · rw [hperm.length_eq, Node.length_subtrees]
    rfl
  · rw [hlog, Program.inlinedSizes_transcript]
    exact hincreasing
  · rw [hlog, Program.inlinedSizes_transcript, hlast, hspent]
    rfl
  · rw [hlog]
    exact p.filter_info_transcript runs

theorem lower_transcript_lopsided : lopsided.build 0 = .ok lopsidedTree ∧
    Program.log ((Config.ofArchitecture .arm).withBudget 60) lopsidedTree 0 = [] ∧
    ((Program.log ((Config.ofArchitecture .arm).withBudget 60) lopsidedTree.annotate 0).map
        Event.record).map Record.text =
      ["entry 0 <- node #0 (p=1)", "entry 1 <- node #2 (p=0.75)", "entry 2 <- node #4 (p=0.5)",
        "run 1: entries 0..3 starting at node #0", "entry 3 <- node #1 (p=0.25)",
        "run 2: entries 3..4 starting at node #1", "entry 4 <- node #3 (p=0.25)",
        "run 3: entries 4..5 starting at node #3", "inline node #0 (cost 44, size 44)",
        "fallback at node #2 -> entry 1 (size 44)", "Compiled t_predict0 on arm: 5 entries, " ++
          "1 inline branches, 1 fallback sites, size 44/60"] ∧
    ∃ (p : Program) (runs : List (List Node)),
      (Program.log ((Config.ofArchitecture .arm).withBudget 60) lopsidedTree.annotate 0).map
          Event.record =
        runRecords 1 0 runs ++ Statement.records p.costOf 0 p.body.preorder ++ [p.finished] ∧
      runs.flatten.length = 5 := by
  obtain ⟨hnone, p, runs, records, -, hlog, hrecords, hparts, -, -, hlength, -⟩ :=
    lower_transcript build_lopsided ((Config.ofArchitecture .arm).withBudget 60) 0
  have hfive : lopsidedTree.annotate.nodeCount = 5 := by decide
  refine ⟨build_lopsided, hnone, by decide +kernel, p, runs, ?_, hlength.trans hfive⟩
  rw [hlog, ← hrecords, hparts]

end Draft

end TreeCode
