import Mathlib.Tactic.Common
import TreeCode.Command.Action
import TreeCode.Evaluation

/-! # Writing and reading back

A text that is stored at a place does not move any path, and a path that could be written to before
still can. So a path leads to what has been written to it (`holds_store`), also when something else
has been stored at another place (`Holds.store`), and that is read from it (`Holds.read`). -/

namespace TreeCode.Command

namespace Disk

variable {d : Disk} {p q : Path} {path : String} {text : String}

/-! ### Files -/

theorem lookup_cons_eq {entry : Path × File} {files : List (Path × File)} {q : Path} :
    (entry :: files).lookup q = if q = entry.1 then some entry.2 else files.lookup q := by
  obtain ⟨r, file⟩ := entry
  by_cases h : q = r
  · simp [h]
  · simp [List.lookup_cons, beq_false_of_ne h, h]

theorem lookup_put (files : List (Path × File)) (p q : Path) (text : String) :
    (put files p text).lookup q = if q = p then some (.text text) else files.lookup q := by
  induction files with
  | nil => exact lookup_cons_eq
  | cons entry files ih =>
      rw [put]
      by_cases hentry : entry.1 = p
      · rw [if_pos hentry, lookup_cons_eq, lookup_cons_eq, hentry]
        split_ifs <;> rfl
      · rw [if_neg hentry, lookup_cons_eq, lookup_cons_eq, ih]
        by_cases hq : q = entry.1
        · rw [if_pos hq, if_pos hq, if_neg fun h => hentry (hq.symm.trans h)]
        · rw [if_neg hq, if_neg hq]

theorem file?_store (d : Disk) (p q : Path) (text : String) :
    (d.store p text).file? q = if q = p then some (.text text) else d.file? q :=
  lookup_put d.files p q text

/-! ### Paths -/

/-- What stops a walk is a missing directory. -/
theorem walk_of_directories {d' : Disk} (hdirs : d'.directories = d.directories)
    {names : List String} {place : Path} (h : d.walk place names = .ok q) :
    d'.walk place names = .ok q := by
  have hsame (place : Path) : d'.isDirectory place = d.isDirectory place := by
    rw [isDirectory, hdirs, isDirectory]
  fun_induction walk d place names with
  | case1 place =>
      rw [walk]
      exact h
  | case2 place name names hdir hname ih =>
      rw [walk, if_pos ((hsame place).trans hdir), if_pos hname]
      exact ih h
  | case3 place names hdir hname ih =>
      rw [walk, if_pos ((hsame place).trans hdir), if_neg hname, if_pos rfl]
      exact ih h
  | case4 => cases h
  | case5 place name names hdir hname hup hlong ih =>
      rw [walk, if_pos ((hsame place).trans hdir), if_neg hname, if_neg hup, if_neg hlong]
      exact ih h
  | case6 => cases h
  | case7 => cases h

theorem locate_of_directories {d' : Disk} (hdirs : d'.directories = d.directories)
    (hcurrent : d'.current = d.current) (h : d.locate path = .ok q) : d'.locate path = .ok q := by
  unfold locate go at h ⊢
  split at h
  · cases h
  · rename_i hshort
    rw [if_neg hshort, hcurrent]
    exact walk_of_directories hdirs h

/-- A stored text is no directory. -/
theorem locate_store (h : d.locate path = .ok q) (p : Path) (text : String) :
    (d.store p text).locate path = .ok q :=
  locate_of_directories (d := d) rfl rfl h

/-- Nothing but a directory is behind a slash. -/
theorem locateFile_eq_ok_iff :
    d.locateFile path = .ok q ↔ (names path).getLast? ≠ some "" ∧ d.locate path = .ok q := by
  unfold locateFile
  split_ifs with hslash
  · cases hgo : d.go path (parentNames (names path) ++ [""]) <;>
      simp [hslash, bind, Except.bind, throw, throwThe, MonadExceptOf.throw]
  · simp [hslash]

/-! ### Texts -/

/-- Where a text goes that is written at a place. -/
def sinkAt (d : Disk) (p : Path) : Except FileError Sink :=
  if d.isDirectory p then .error .isDirectory
  else
    match d.file? p with
    | none =>
        match d.fixed.lookup p.dropLast with
        | some e => .error e
        | none => .ok (.place p)
    | some (.text _) => .ok (.place p)
    | some .output => .ok .output
    | some .errors => .ok .errors
    | some .input => .ok .nowhere
    | some .null => .ok .nowhere
    | some .full => .error .noSpace
    | some .detached => .error .noDevice

theorem sink_eq (d : Disk) (path : String) : d.sink path = d.locateFile path >>= d.sinkAt := rfl

/-- A text that goes to a place can be written at this place. -/
theorem sinkAt_eq_place (h : d.sinkAt p = .ok (.place q)) : p = q ∧ d.isDirectory q = false := by
  unfold sinkAt at h
  split_ifs at h with hdir
  have hp : p = q := by
    split at h
    · split at h <;> cases h
      rfl
    all_goals cases h
    rfl
  subst hp
  exact ⟨rfl, Bool.eq_false_iff.2 hdir⟩

theorem sinkAt_store (h : d.sinkAt q = .ok (.place q)) (p : Path) (text : String) :
    (d.store p text).sinkAt q = .ok (.place q) := by
  have hdir : d.isDirectory q = false := (sinkAt_eq_place h).2
  by_cases hq : q = p
  · rw [sinkAt, file?_store, if_pos hq]
    exact if_neg (Bool.eq_false_iff.1 hdir)
  · rw [sinkAt, file?_store, if_neg hq]
    exact h

theorem sink_eq_place (h : d.sink path = .ok (.place q)) :
    d.locateFile path = .ok q ∧ d.sinkAt q = .ok (.place q) := by
  rw [sink_eq, bind_eq_ok_iff] at h
  obtain ⟨p, hloc, h⟩ := h
  obtain ⟨rfl, -⟩ := sinkAt_eq_place h
  exact ⟨hloc, h⟩

/-- A path that can be written to stays so. -/
theorem sink_store (h : d.sink path = .ok (.place q)) (p : Path) (text : String) :
    (d.store p text).sink path = .ok (.place q) := by
  obtain ⟨hloc, hsink⟩ := sink_eq_place h
  obtain ⟨hslash, hloc⟩ := locateFile_eq_ok_iff.1 hloc
  rw [sink_eq, bind_eq_ok_iff]
  exact ⟨q, locateFile_eq_ok_iff.2 ⟨hslash, locate_store hloc p text⟩, sinkAt_store hsink p text⟩

/-- A text at a place that can be written to changes nothing about what can be written to. -/
theorem sink_store_eq_ok_iff {sink : Sink} (h : d.sinkAt p = .ok (.place p)) :
    (d.store p text).sink path = .ok sink ↔ d.sink path = .ok sink := by
  have hlocate (q : Path) : (d.store p text).locate path = .ok q ↔ d.locate path = .ok q :=
    ⟨locate_of_directories (d := d.store p text) rfl rfl, fun hq => locate_store hq p text⟩
  have hsinkAt (q : Path) : (d.store p text).sinkAt q = d.sinkAt q := by
    by_cases hq : q = p
    · rw [hq, h, sinkAt_store h]
    · rw [sinkAt, file?_store, if_neg hq]
      rfl
  simp only [sink_eq, bind_eq_ok_iff, locateFile_eq_ok_iff, hlocate, hsinkAt]

/-- A path leads to a place with this text. -/
def Holds (d : Disk) (path text : String) : Prop :=
  ∃ p, d.sink path = .ok (.place p) ∧ d.file? p = some (.text text)

theorem Holds.read (h : d.Holds path text) : d.read path = .ok (.text text) := by
  obtain ⟨q, h, hfile⟩ := h
  obtain ⟨hloc, hsink⟩ := sink_eq_place h
  have hdir : d.isDirectory q = false := (sinkAt_eq_place hsink).2
  rw [Disk.read, (locateFile_eq_ok_iff.1 hloc).2]
  simp [bind, Except.bind, hdir, hfile, pure, Except.pure]

/-- It still is after a text has been stored at another place. -/
theorem Holds.store (h : d.Holds path text) (hne : d.sink path ≠ .ok (.place p)) (text' : String) :
    (d.store p text').Holds path text := by
  obtain ⟨q, hq, hfile⟩ := h
  refine ⟨q, sink_store hq p text', ?_⟩
  rw [file?_store, if_neg, hfile]
  rintro rfl
  exact hne hq

end Disk

end TreeCode.Command
