import Mathlib.Algebra.GroupWithZero.Nat
import TreeCode.Proofs.Program.Report
import TreeCode.Session

/-! # The books of a session

A session is determined by what its steps contribute: the trees that they count (`Step.counted`),
the texts that they intern (`Step.texts`) and the name that they leave behind (`Step.leaves`). A
lowering contributes at its end if it succeeds, and otherwise leaves the name of its tree behind
and nothing else. Every step keeps the books (`Accounts.after`), so they are right after every run
(`accounts_run`). -/

namespace TreeCode

/-! ### Statistics -/

/-- The statistics of trees that were counted in this order, with their names and reports. -/
structure Stats.Tallies (s : Stats) (counted : List (String × Report)) : Prop where
  treesCompiled : s.treesCompiled = counted.length
  tableEntries : s.tableEntries = (counted.map (·.2.tableEntries)).sum
  inlineBranches : s.inlineBranches = (counted.map (·.2.inlineBranches)).sum
  fallbackSites : s.fallbackSites = (counted.map (·.2.fallbackSites)).sum
  inlineSize : s.inlineSize = (counted.map (·.2.inlineSize)).sum
  le_largest : ∀ e ∈ counted, e.2.tableEntries ≤ s.largestTreeEntries
  /-- The largest tree is the first one with the greatest number of entries, if that is positive. -/
  largest : s.largestTreeEntries = 0 ∧ s.largestTreeName = "" ∨
    0 < s.largestTreeEntries ∧ ∃ before r after,
      counted = before ++ (s.largestTreeName, r) :: after ∧
        r.tableEntries = s.largestTreeEntries ∧
        ∀ e ∈ before, e.2.tableEntries < s.largestTreeEntries

namespace Stats

theorem tallies_empty : empty.Tallies [] where
  treesCompiled := rfl
  tableEntries := rfl
  inlineBranches := rfl
  fallbackSites := rfl
  inlineSize := rfl
  le_largest := nofun
  largest := .inl ⟨rfl, rfl⟩

variable {s : Stats} {counted : List (String × Report)}

/-- The last tree is the largest one if it has more entries than all before it. -/
theorem Tallies.largest_record (h : s.Tallies counted) (name : String) (r : Report)
    (hlt : s.largestTreeEntries < r.tableEntries) :
    (s.record name r).largestTreeEntries = r.tableEntries ∧
      (s.record name r).largestTreeName = name ∧
      ∀ e ∈ counted, e.2.tableEntries < r.tableEntries := by
  refine ⟨?_, ?_, ?_⟩
  · simp [record, hlt]
  · simp [record, hlt]
  · intro e he
    have := h.le_largest e he
    omega

theorem Tallies.record (h : s.Tallies counted) (name : String) (r : Report) :
    (s.record name r).Tallies (counted ++ [(name, r)]) where
  treesCompiled := by simp [Stats.record, h.treesCompiled]
  tableEntries := by simp [Stats.record, h.tableEntries]
  inlineBranches := by simp [Stats.record, h.inlineBranches]
  fallbackSites := by simp [Stats.record, h.fallbackSites]
  inlineSize := by simp [Stats.record, h.inlineSize]
  le_largest := by
    intro e he
    simp only [List.mem_append, List.mem_singleton] at he
    by_cases hlt : s.largestTreeEntries < r.tableEntries
    · obtain ⟨hentries, -, hless⟩ := h.largest_record name r hlt
      rw [hentries]
      rcases he with he | rfl
      · exact Nat.le_of_lt (hless e he)
      · exact Nat.le_refl _
    · have hsame : (s.record name r).largestTreeEntries = s.largestTreeEntries := by
        simp [Stats.record, hlt]
      rw [hsame]
      rcases he with he | rfl
      · exact h.le_largest e he
      · exact Nat.le_of_not_lt hlt
  largest := by
    by_cases hlt : s.largestTreeEntries < r.tableEntries
    · obtain ⟨hentries, hname, hless⟩ := h.largest_record name r hlt
      rw [hentries, hname]
      exact .inr ⟨by omega, counted, r, [], rfl, rfl, hless⟩
    · have hsame : (s.record name r).largestTreeEntries = s.largestTreeEntries ∧
          (s.record name r).largestTreeName = s.largestTreeName := by
        simp [Stats.record, hlt]
      rw [hsame.1, hsame.2]
      rcases h.largest with hnone | ⟨hpos, before, r', after, hcounted, hr', hbefore⟩
      · exact .inl hnone
      · refine .inr ⟨hpos, before, r', after ++ [(name, r)], ?_, hr', hbefore⟩
        rw [hcounted, List.append_assoc, List.cons_append]

end Stats

/-! ### Interned texts -/

namespace Interned

theorem fst_intern (texts : Interned) (text : String) :
    (texts.intern text).1 = if text ∈ texts then texts else texts ++ [text] := by
  unfold intern
  cases h : texts.findIdx? (· == text) with
  | none =>
      have hnot : text ∉ texts := by
        intro hmem
        have := List.findIdx?_eq_none_iff.1 h text hmem
        simp at this
      rw [if_neg hnot]
  | some i =>
      have hmem : text ∈ texts := by
        obtain ⟨hi, heq, -⟩ := List.findIdx?_eq_some_iff_getElem.1 h
        rw [← beq_iff_eq.1 heq]
        exact List.getElem_mem hi
      rw [if_pos hmem]

/-- Interning keeps the texts without repetition, in the order in which they came first. -/
theorem fst_intern_eraseDups (texts : List String) (text : String) :
    (intern texts.eraseDups text).1 = (texts ++ [text]).eraseDups := by
  rw [fst_intern, List.eraseDups_append]
  by_cases h : text ∈ texts
  · simp [h, List.removeAll]
  · simp [h, List.removeAll, List.eraseDups_cons]

end Interned

namespace Session

/-- Interning some texts changes nothing else. -/
theorem foldl_intern_eq (s : Session) {earlier : List String} (h : s.interned = earlier.eraseDups)
    (texts : List String) :
    texts.foldl (fun s text => (s.intern text).1) s =
      { s with interned := (earlier ++ texts).eraseDups } := by
  induction texts generalizing s earlier with
  | nil => rw [List.append_nil, ← h, List.foldl_nil]
  | cons text texts ih =>
      have hone : (s.intern text).1.interned = (earlier ++ [text]).eraseDups := by
        rw [← Interned.fst_intern_eraseDups, ← h]
        rfl
      rw [List.foldl_cons, ih _ hone, List.append_assoc, List.singleton_append]
      rfl

theorem symbols_fst (s : Session) (name : String) (treeId : UInt32) :
    (s.symbols name treeId).1 =
      (Symbols.ofTree name treeId).toList.foldl (fun s text => (s.intern text).1) s :=
  rfl

/-! ### Lowering -/

section lower

variable {s : Session} {c : Config} {t : Tree} {treeId : UInt32}

theorem lower_fst_of_error {e : CompileError} (h : Program.lower c t treeId = .error e) :
    (s.lower c t treeId).1 = { s with current := some t.name } := by
  unfold lower lowerNamed
  rw [h]
  rfl

theorem lower_fst_of_ok {p : Program} (h : Program.lower c t treeId = .ok p) :
    (s.lower c t treeId).1 =
      (((s.symbols t.name treeId).1.record (Symbols.ofTree t.name treeId).predict
        p.report).clearCurrent) := by
  unfold lower lowerNamed
  rw [h]
  rfl

end lower

/-! ### What a step contributes -/

namespace Step

/-- The trees that a step counts. -/
def counted : Step → List (String × Report)
  | record name report => [(name, report)]
  | lower c t treeId | compile c t treeId =>
      match Program.lower c t treeId with
      | .ok p => [((Symbols.ofTree t.name treeId).predict, p.report)]
      | .error _ => []
  | _ => []

/-- The texts that a step interns. -/
def texts : Step → List String
  | intern text => [text]
  | symbols name treeId => (Symbols.ofTree name treeId).toList
  | lower c t treeId | compile c t treeId =>
      match Program.lower c t treeId with
      | .ok _ => (Symbols.ofTree t.name treeId).toList
      | .error _ => []
  | _ => []

/-- What a step leaves as the tree that is being compiled, unless it leaves that alone. -/
def leaves : Step → Option (Option String)
  | setCurrent name => some (some name)
  | clearCurrent => some none
  | lower c t treeId | compile c t treeId =>
      match Program.lower c t treeId with
      | .ok _ => some none
      | .error _ => some (some t.name)
  | _ => none

end Step

/-- The session is what these steps, from the first to the last, make of an empty one. -/
structure Accounts (s : Session) (steps : List Step) : Prop where
  stats : s.stats.Tallies (steps.flatMap Step.counted)
  interned : s.interned = (steps.flatMap Step.texts).eraseDups
  current : s.current = (steps.reverse.findSome? Step.leaves).getD none

theorem accounts_empty : empty.Accounts [] where
  stats := Stats.tallies_empty
  interned := rfl
  current := rfl

namespace Accounts

variable {s : Session} {steps : List Step}

/-- A step that counts one tree or none, and interns and leaves what it says. -/
theorem snoc (h : s.Accounts steps) {s' : Session} {step : Step}
    (hstats : step.counted = [] ∧ s'.stats = s.stats ∨
      ∃ name r, step.counted = [(name, r)] ∧ s'.stats = s.stats.record name r)
    (hinterned : s'.interned = (steps.flatMap Step.texts ++ step.texts).eraseDups)
    (hcurrent : s'.current = step.leaves.getD s.current) : s'.Accounts (steps ++ [step]) where
  stats := by
    rw [List.flatMap_append, List.flatMap_singleton]
    rcases hstats with ⟨hnone, hsame⟩ | ⟨name, r, hone, hrecord⟩
    · rw [hnone, hsame, List.append_nil]
      exact h.stats
    · rw [hone, hrecord]
      exact h.stats.record name r
  interned := by
    rw [List.flatMap_append, List.flatMap_singleton]
    exact hinterned
  current := by
    rw [List.reverse_append, List.reverse_singleton, List.singleton_append, List.findSome?_cons,
      hcurrent]
    cases step.leaves with
    | none => exact h.current
    | some left => rfl

/-- Whether a lowering succeeds decides what it contributes. -/
theorem lower (h : s.Accounts steps) {c : Config} {t : Tree} {treeId : UInt32} {step : Step}
    (hstep : step = .lower c t treeId ∨ step = .compile c t treeId) :
    (s.lower c t treeId).1.Accounts (steps ++ [step]) := by
  cases hlower : Program.lower c t treeId with
  | error e =>
      have hcontributes :
          step.counted = [] ∧ step.texts = [] ∧ step.leaves = some (some t.name) := by
        rcases hstep with rfl | rfl <;> simp [Step.counted, Step.texts, Step.leaves, hlower]
      obtain ⟨hcounted, htexts, hleaves⟩ := hcontributes
      rw [lower_fst_of_error hlower]
      apply h.snoc
      · exact .inl ⟨hcounted, rfl⟩
      · rw [htexts, List.append_nil]
        exact h.interned
      · rw [hleaves]
        rfl
  | ok p =>
      have hcontributes :
          step.counted = [((Symbols.ofTree t.name treeId).predict, p.report)] ∧
            step.texts = (Symbols.ofTree t.name treeId).toList ∧ step.leaves = some none := by
        rcases hstep with rfl | rfl <;> simp [Step.counted, Step.texts, Step.leaves, hlower]
      obtain ⟨hcounted, htexts, hleaves⟩ := hcontributes
      rw [lower_fst_of_ok hlower, symbols_fst, foldl_intern_eq s h.interned]
      apply h.snoc
      · exact .inr ⟨_, _, hcounted, rfl⟩
      · rw [htexts]
        rfl
      · rw [hleaves]
        rfl

/-- **Every step** keeps the books. -/
theorem after (h : s.Accounts steps) (step : Step) : (s.after step).Accounts (steps ++ [step]) := by
  have hinterned : s.interned = (steps.flatMap Step.texts ++ []).eraseDups := by
    rw [List.append_nil]
    exact h.interned
  cases step with
  | setCurrent name => exact h.snoc (.inl ⟨rfl, rfl⟩) hinterned rfl
  | clearCurrent => exact h.snoc (.inl ⟨rfl, rfl⟩) hinterned rfl
  | record name r => exact h.snoc (.inr ⟨name, r, rfl, rfl⟩) hinterned rfl
  | intern text =>
      have hone := foldl_intern_eq s h.interned [text]
      rw [List.foldl_cons, List.foldl_nil] at hone
      rw [Session.after, hone]
      exact h.snoc (.inl ⟨rfl, rfl⟩) rfl rfl
  | symbols name treeId =>
      rw [Session.after, symbols_fst, foldl_intern_eq s h.interned]
      exact h.snoc (.inl ⟨rfl, rfl⟩) rfl rfl
  | lower c t treeId => exact h.lower (.inl rfl)
  | compile c t treeId => exact h.lower (.inr rfl)

end Accounts

/-- **The books are right** after every run. -/
theorem accounts_run (steps : List Step) : (empty.run steps).Accounts steps := by
  induction steps using List.reverseRecOn with
  | nil => exact accounts_empty
  | append_singleton steps step ih =>
      have hstep : empty.run (steps ++ [step]) = (empty.run steps).after step := by
        rw [run, List.foldl_append]
        rfl
      rw [hstep]
      exact ih.after step

/-- **Sessions** keep their books over whole runs, whatever the steps and however they are
interleaved. A lowering that fails sets the name of the tree that is being compiled and changes
nothing else. -/
theorem run_keeps_books (steps : List Step) :
    (empty.run steps).Accounts steps ∧
      ∀ c t treeId e, Program.lower c t treeId = .error e →
        (empty.run steps).after (.lower c t treeId) =
            { empty.run steps with current := some t.name } ∧
          (empty.run steps).after (.compile c t treeId) =
            { empty.run steps with current := some t.name } := by
  refine ⟨accounts_run steps, ?_⟩
  intro c t treeId e he
  have hfails := lower_fst_of_error (s := empty.run steps) he
  exact ⟨hfails, hfails⟩

/-- A report with three entries, and a tree with five whose lowering first succeeds and then fails:
the tree is the largest one, and nothing but its name is left by the failure. -/
theorem run_keeps_books_lopsided :
    let steps : List Step := [.intern "x", .record "first" ⟨3, 0, 1, 0⟩,
      .lower (.ofArchitecture .arm) Draft.lopsidedTree.annotate 7]
    let stats : Stats := ⟨2, 8, 2, 1, 92, 5, "t_predict7"⟩
    let texts : Interned := ["x", "t_Node7", "t_tree7", "t_predict7", "t_fallback7"]
    Program.lower (.ofArchitecture .arm) Draft.lopsidedTree 7 = .error (.unannotatedTree "t") ∧
    empty.run steps = ⟨stats, texts, none⟩ ∧
    (empty.run steps).after (.lower (.ofArchitecture .arm) Draft.lopsidedTree 7) =
      ⟨stats, texts, some "t"⟩ := by
  intro steps stats texts
  have hfails : Program.lower (.ofArchitecture .arm) Draft.lopsidedTree 7 =
      .error (.unannotatedTree "t") := Program.lower_of_not_annotated rfl _ _
  have hrun : empty.run steps = ⟨stats, texts, none⟩ := by decide +kernel
  obtain ⟨-, hstep⟩ := run_keeps_books steps
  refine ⟨hfails, hrun, ?_⟩
  rw [(hstep _ _ _ _ hfails).1, hrun]
  rfl

end Session
end TreeCode
