import Mathlib.Data.List.Forall2
import Mathlib.Data.Nat.Find
import TreeCode.Golden.Matcher
import TreeCode.Proofs.Text.Trim

/-! # Positions of directives

An output matches directives if positions can be assigned to them, comments apart: to each one the
place that it asks for, seen from the line after the position before (`Assignment`). Matching finds
these positions, and it fails only where there are none. Directives that search may as well have
their patterns further down: the first line that holds a pattern leaves no fewer lines for the rest
than any other one (`exists_assignment_iff`). The main statement is `validate_eq_ok_iff`. -/

namespace TreeCode.Golden

/-! ### Assignments -/

/-- Not a comment. -/
def Directive.checks : Directive → Bool
  | comment _ => false
  | _ => true

/-- The pattern that the directive searches for, if it does. -/
def Directive.sought? : Directive → Option String
  | check pattern => some pattern
  | checkLabel pattern => some pattern
  | _ => none

/-- There is a line at this position, and it contains the pattern. -/
def HasAt (lines : List (List Char)) (pattern : String) (p : Nat) : Prop :=
  ∃ line, lines[p]? = some line ∧ pattern.toList <:+: line

/-- This is the first position from `first` on with a line that contains the pattern. -/
def FirstAt (lines : List (List Char)) (pattern : String) (first p : Nat) : Prop :=
  first ≤ p ∧ HasAt lines pattern p ∧ ∀ q, first ≤ q → q < p → ¬HasAt lines pattern q

/-- The position is what the directive asks for, if the line after the position before is
`first`. -/
def Directive.Fits (lines : List (List Char)) (first p : Nat) : Directive → Prop
  | check pattern => FirstAt lines pattern first p
  | checkLabel pattern => FirstAt lines pattern first p
  | checkNext pattern => p = first ∧ HasAt lines pattern p
  | checkEmpty => p = first ∧ ∀ line, lines[p]? = some line → ∀ c ∈ line, Text.isBlank c
  | comment _ => False

/-- Each directive that is not a comment has a position that it asks for, and the positions
increase. For the first of them the line to start from is `start`. -/
structure Assignment (lines : List (List Char)) (start : Nat) (ds : List Directive)
    (positions : List Nat) : Prop where
  length : positions.length = (ds.filter (·.checks)).length
  increasing : positions.Pairwise (· < ·)
  fits : ∀ (i : Nat) (d : Directive) (first p : Nat), (ds.filter (·.checks))[i]? = some d →
    (start :: positions.map (· + 1))[i]? = some first → positions[i]? = some p →
      d.Fits lines first p

variable {lines : List (List Char)} {start cursor next p : Nat} {d : Directive}
  {ds : List Directive} {positions : List Nat} {pattern : String}

theorem Directive.Fits.le (h : d.Fits lines start p) : start ≤ p := by
  cases d with
  | check pattern => exact h.1
  | checkLabel pattern => exact h.1
  | checkNext pattern => exact Nat.le_of_eq h.1.symm
  | checkEmpty => exact Nat.le_of_eq h.1.symm
  | comment text => exact h.elim

namespace Assignment

theorem nil : Assignment lines start [] [] where
  length := rfl
  increasing := .nil
  fits := by simp

theorem comment_iff {text : String} :
    Assignment lines start (.comment text :: ds) positions ↔ Assignment lines start ds positions :=
  ⟨fun h => ⟨h.length, h.increasing, h.fits⟩, fun h => ⟨h.length, h.increasing, h.fits⟩⟩

/-- All positions lie at or behind the line to start from. -/
theorem le (h : Assignment lines start ds positions) : ∀ p ∈ positions, start ≤ p := by
  obtain ⟨hlen, hinc, hfits⟩ := h
  cases positions with
  | nil => simp
  | cons p ps =>
      cases hds : ds.filter (·.checks) with
      | nil =>
          rw [hds] at hlen
          cases hlen
      | cons d rest =>
          rw [hds] at hfits
          have hp := (hfits 0 d start p rfl rfl rfl).le
          intro q hq
          rcases List.mem_cons.1 hq with rfl | hq
          · exact hp
          · exact Nat.le_of_lt (Nat.lt_of_le_of_lt hp (List.rel_of_pairwise_cons hinc hq))

theorem cons (hd : d.checks = true) (hfit : d.Fits lines start p)
    (h : Assignment lines (p + 1) ds positions) :
    Assignment lines start (d :: ds) (p :: positions) where
  length := by rw [List.filter_cons_of_pos hd, List.length_cons, List.length_cons, h.length]
  increasing := List.pairwise_cons.2 ⟨h.le, h.increasing⟩
  fits := by
    rw [List.filter_cons_of_pos hd]
    intro i d' first q hd' hfirst hq
    cases i with
    | zero =>
        obtain rfl := Option.some.inj hd'
        obtain rfl := Option.some.inj hfirst
        obtain rfl := Option.some.inj hq
        exact hfit
    | succ i => exact h.fits i d' first q hd' hfirst hq

theorem exists_of_cons (hd : d.checks = true) (h : Assignment lines start (d :: ds) positions) :
    ∃ p rest, d.Fits lines start p ∧ Assignment lines (p + 1) ds rest := by
  obtain ⟨hlen, hinc, hfits⟩ := h
  rw [List.filter_cons_of_pos hd] at hlen hfits
  cases positions with
  | nil => cases hlen
  | cons p rest =>
      exact ⟨p, rest, hfits 0 d start p rfl rfl rfl, Nat.succ.inj hlen,
        (List.pairwise_cons.1 hinc).2, fun i d' first q => hfits (i + 1) d' first q⟩

end Assignment

/-! ### One directive -/

theorem FirstAt.unique {p q : Nat} (hp : FirstAt lines pattern start p)
    (hq : FirstAt lines pattern start q) : p = q := by
  obtain ⟨hle, hat, hfirst⟩ := hp
  obtain ⟨hle', hat', hfirst'⟩ := hq
  rcases Nat.lt_trichotomy p q with hlt | heq | hlt
  · exact absurd hat (hfirst' p hle hlt)
  · exact heq
  · exact absurd hat' (hfirst q hle' hlt)

theorem holdsPattern_iff {line : List Char} :
    holdsPattern pattern line = true ↔ pattern.toList <:+: line :=
  Text.occursIn_iff

/-- Looking ahead from the cursor. -/
theorem hasAt_add_iff {i : Nat} : HasAt lines pattern (cursor + i) ↔
    ∃ h : i < (lines.drop cursor).length, holdsPattern pattern (lines.drop cursor)[i] = true := by
  simp only [HasAt, holdsPattern_iff, ← List.getElem?_drop, List.getElem?_eq_some_iff]
  constructor
  · rintro ⟨_, ⟨h, rfl⟩, hin⟩
    exact ⟨h, hin⟩
  · rintro ⟨h, hin⟩
    exact ⟨_, ⟨h, rfl⟩, hin⟩

theorem firstAt_of_findIdx? {i : Nat}
    (h : (lines.drop cursor).findIdx? (holdsPattern pattern) = some i) :
    FirstAt lines pattern cursor (cursor + i) := by
  obtain ⟨hlt, hi, hfirst⟩ := List.findIdx?_eq_some_iff_getElem.1 h
  refine ⟨Nat.le_add_right _ _, hasAt_add_iff.2 ⟨hlt, hi⟩, fun q hq hlt' hat => ?_⟩
  obtain ⟨j, rfl⟩ := Nat.exists_eq_add_of_le hq
  obtain ⟨hj, hholds⟩ := hasAt_add_iff.1 hat
  exact hfirst j (Nat.lt_of_add_lt_add_left hlt') hholds

theorem not_hasAt_of_findIdx?
    (h : (lines.drop cursor).findIdx? (holdsPattern pattern) = none) (hp : cursor ≤ p) :
    ¬HasAt lines pattern p := by
  intro hat
  obtain ⟨i, rfl⟩ := Nat.exists_eq_add_of_le hp
  obtain ⟨hlt, hi⟩ := hasAt_add_iff.1 hat
  rw [List.findIdx?_eq_none_iff.1 h _ (List.getElem_mem hlt)] at hi
  cases hi

/-- The place where a search starts is never behind the end. -/
theorem linesFrom_min (lines : List (List Char)) (cursor : Nat) :
    linesFrom lines (min cursor lines.length) = .ok (lines.drop cursor) := by
  unfold linesFrom
  rw [if_pos (Nat.min_le_right _ _)]
  rcases Nat.le_total cursor lines.length with h | h
  · rw [Nat.min_eq_left h]
  · rw [Nat.min_eq_right h, List.drop_length, List.drop_eq_nil_of_le h]

theorem search_eq_ok_iff : search lines cursor d pattern = .ok next ↔
    ∃ p, FirstAt lines pattern cursor p ∧ next = p + 1 := by
  unfold search
  rw [linesFrom_min]
  dsimp only
  cases h : (lines.drop cursor).findIdx? (holdsPattern pattern) with
  | none =>
      constructor
      · intro hok
        cases hok
      · rintro ⟨p, ⟨hle, hat, -⟩, -⟩
        exact absurd hat (not_hasAt_of_findIdx? h hle)
  | some i =>
      have hfirst := firstAt_of_findIdx? h
      constructor
      · intro hok
        cases hok
        exact ⟨_, hfirst, rfl⟩
      · rintro ⟨p, hp, rfl⟩
        rw [hp.unique hfirst]

/-- **One directive** matches if there is the position that it asks for, and matching goes on
behind it. -/
theorem step_eq_ok_iff (hd : d.checks = true) :
    step lines cursor d = .ok next ↔ ∃ p, d.Fits lines cursor p ∧ next = p + 1 := by
  cases d with
  | check pattern => exact search_eq_ok_iff
  | checkLabel pattern => exact search_eq_ok_iff
  | checkNext pattern =>
      simp only [step, Directive.Fits, HasAt, and_assoc, exists_eq_left]
      cases lines[cursor]? with
      | none => simp
      | some line =>
          simp only [← holdsPattern_iff, Option.some.injEq, exists_eq_left']
          split_ifs with h
          · simp only [Except.ok.injEq, h, true_and, eq_comm]
          · simp only [h, reduceCtorEq, false_and]
  | checkEmpty =>
      simp only [step, Directive.Fits, and_assoc, exists_eq_left]
      cases lines[cursor]? with
      | none => simp [eq_comm (a := next)]
      | some line =>
          simp only [List.isEmpty_iff, Text.trim_eq_nil_iff, Option.some.injEq, forall_eq']
          split_ifs with h
          · simp only [Except.ok.injEq, and_iff_right h, eq_comm (a := next)]
          · simp only [false_iff, not_and]
            exact fun hblank => absurd hblank h
  | comment text => cases hd

/-! ### All directives -/

theorem follow_cons_eq_ok_iff : (follow lines cursor (d :: ds)).2 = .ok () ↔
    ∃ next, step lines cursor d = .ok next ∧ (follow lines next ds).2 = .ok () := by
  rw [follow]
  cases step lines cursor d with
  | error e => simp
  | ok next => simp

/-- **Matching succeeds** if there is an assignment of positions from the cursor on. -/
theorem follow_eq_ok_iff :
    (follow lines cursor ds).2 = .ok () ↔ ∃ positions, Assignment lines cursor ds positions := by
  induction ds generalizing cursor with
  | nil => exact iff_of_true rfl ⟨[], .nil⟩
  | cons d ds ih =>
      rw [follow_cons_eq_ok_iff]
      by_cases hd : d.checks = true
      · simp only [step_eq_ok_iff hd]
        constructor
        · rintro ⟨_, ⟨p, hfit, rfl⟩, hrest⟩
          obtain ⟨positions, h⟩ := ih.1 hrest
          exact ⟨p :: positions, h.cons hd hfit⟩
        · rintro ⟨_, h⟩
          obtain ⟨p, rest, hfit, hrest⟩ := h.exists_of_cons hd
          exact ⟨p + 1, ⟨p, hfit, rfl⟩, ih.2 ⟨rest, hrest⟩⟩
      · cases d with
        | comment text => simp only [step, Except.ok.injEq, exists_eq_left', ih, Assignment.comment_iff]
        | _ => exact absurd rfl hd

theorem step_ne_fault (f : Fault) : step lines cursor d ≠ .error (.fault f) := by
  have search_ne (d : Directive) (pattern : String) :
      search lines cursor d pattern ≠ .error (.fault f) := by
    unfold search
    rw [linesFrom_min]
    dsimp only
    cases (lines.drop cursor).findIdx? (holdsPattern pattern) with
    | none => simp
    | some i => simp
  cases d with
  | check pattern => exact search_ne _ _
  | checkLabel pattern => exact search_ne _ _
  | checkNext pattern =>
      rw [step]
      cases lines[cursor]? with
      | none => simp
      | some line =>
          dsimp only
          split_ifs <;> simp
  | checkEmpty =>
      rw [step]
      cases lines[cursor]? with
      | none => simp
      | some line =>
          dsimp only
          split_ifs <;> simp
  | comment text => simp [step]

/-- Matching never looks for lines behind the end of the output. -/
theorem follow_ne_fault (f : Fault) : (follow lines cursor ds).2 ≠ .error (.fault f) := by
  induction ds generalizing cursor with
  | nil => simp [follow]
  | cons d ds ih =>
      rw [follow]
      cases h : step lines cursor d with
      | error e =>
          rintro ⟨⟩
          exact step_ne_fault f h
      | ok next => exact ih

/-! ### Directives that search -/

theorem fits_iff_of_sought? (h : d.sought? = some pattern) :
    d.Fits lines start p ↔ FirstAt lines pattern start p := by
  cases d with
  | check s =>
      obtain rfl := Option.some.inj h
      rfl
  | checkLabel s =>
      obtain rfl := Option.some.inj h
      rfl
  | _ => cases h

/-- If a line from `start` on holds the pattern, the first such line does not come after it. -/
theorem HasAt.exists_firstAt (h : HasAt lines pattern p) (hp : start ≤ p) :
    ∃ q ≤ p, FirstAt lines pattern start q := by
  classical
  have hex : ∃ q, start ≤ q ∧ HasAt lines pattern q := ⟨p, hp, h⟩
  obtain ⟨hle, hat⟩ := Nat.find_spec hex
  refine ⟨Nat.find hex, Nat.find_min' hex ⟨hp, h⟩, hle, hat, fun q hq hlt hat' => ?_⟩
  exact Nat.find_min hex hlt ⟨hq, hat'⟩

/-- **Any lines will do** for directives that search: the first line that holds a pattern leaves no
fewer lines for the rest than another one. -/
theorem exists_assignment_iff (hds : ∀ d ∈ ds, d.checks = true → d.sought?.isSome) :
    (∃ positions, Assignment lines start ds positions) ↔
      ∃ positions : List Nat, positions.Pairwise (· < ·) ∧ (∀ p ∈ positions, start ≤ p) ∧
        List.Forall₂ (HasAt lines) (ds.filterMap (·.sought?)) positions := by
  induction ds generalizing start with
  | nil => exact iff_of_true ⟨[], .nil⟩ ⟨[], by simp⟩
  | cons d ds ih =>
      have ih {start : Nat} := @ih start fun e he => hds e (List.mem_cons_of_mem d he)
      by_cases hd : d.checks = true
      · obtain ⟨pattern, hpattern⟩ := Option.isSome_iff_exists.1 (hds d List.mem_cons_self hd)
        rw [List.filterMap_cons_some hpattern]
        constructor
        · rintro ⟨_, h⟩
          obtain ⟨p, rest, hfit, hrest⟩ := h.exists_of_cons hd
          obtain ⟨positions, hinc, hle, hall⟩ := ih.1 ⟨rest, hrest⟩
          obtain ⟨hp, hat, -⟩ := (fits_iff_of_sought? hpattern).1 hfit
          refine ⟨p :: positions, List.pairwise_cons.2 ⟨hle, hinc⟩, ?_, .cons hat hall⟩
          exact List.forall_mem_cons.2 ⟨hp, fun q hq => by have := hle q hq; omega⟩
        · rintro ⟨_, hinc, hle, hall⟩
          obtain ⟨p, positions, hat, hrest, rfl⟩ := List.forall₂_cons_left_iff.1 hall
          obtain ⟨hlt, hinc⟩ := List.pairwise_cons.1 hinc
          -- the first match stays ahead of the given position
          obtain ⟨q, hqp, hfirst⟩ := hat.exists_firstAt (hle p List.mem_cons_self)
          obtain ⟨rest, hassigned⟩ := ih.2 ⟨positions, hinc,
            fun r hr => Nat.lt_of_le_of_lt hqp (hlt r hr), hrest⟩
          exact ⟨q :: rest, hassigned.cons hd ((fits_iff_of_sought? hpattern).2 hfirst)⟩
      · cases d with
        | comment text =>
            simp only [Assignment.comment_iff, ih]
            rfl
        | _ => exact absurd rfl hd

/-! ### Outputs -/

/-- **An output matches** directives if and only if positions can be assigned to them, and matching
never looks for lines behind its end. If all directives search, it matches if and only if their
patterns stand in lines that increase, whether or not these are the first ones that hold them. -/
theorem validate_eq_ok_iff (output : String) (ds : List Directive) :
    (∀ f, (validate output ds).2 ≠ .error (.fault f)) ∧
      ((validate output ds).2 = .ok () ↔
        ∃ positions, Assignment (Text.lines output.toList) 0 ds positions) ∧
      ((∀ d ∈ ds, d.checks = true → d.sought?.isSome) →
        ((validate output ds).2 = .ok () ↔ ∃ positions : List Nat, positions.Pairwise (· < ·) ∧
          List.Forall₂ (HasAt (Text.lines output.toList)) (ds.filterMap (·.sought?)) positions)) := by
  have hiff : (validate output ds).2 = .ok () ↔
      ∃ positions, Assignment (Text.lines output.toList) 0 ds positions := follow_eq_ok_iff
  refine ⟨fun f => follow_ne_fault f, hiff, fun hds => ?_⟩
  rw [hiff, exists_assignment_iff hds]
  simp only [Nat.zero_le, implies_true, true_and]

/-- The first line holds the first pattern, too. -/
theorem validate_eq_ok_iff_later :
    (∀ d ∈ [Directive.check "t", .comment "then", .checkLabel "int"],
      d.checks = true → d.sought?.isSome) ∧
      (validate "int x;\n\nstatic t[1];\nint y;" [.check "t", .comment "then", .checkLabel "int"]).2 =
        .ok () ∧
      ∃ positions, Assignment (Text.lines "int x;\n\nstatic t[1];\nint y;".toList) 0
        [.check "t", .comment "then", .checkLabel "int"] positions := by
  have hds : ∀ d ∈ [Directive.check "t", .comment "then", .checkLabel "int"],
      d.checks = true → d.sought?.isSome := by decide
  obtain ⟨-, hiff, hsearch⟩ := validate_eq_ok_iff "int x;\n\nstatic t[1];\nint y;"
    [.check "t", .comment "then", .checkLabel "int"]
  have htwo : HasAt (Text.lines "int x;\n\nstatic t[1];\nint y;".toList) "t" 2 :=
    ⟨"static t[1];".toList, by decide, Text.occursIn_iff.1 (by decide)⟩
  have hthree : HasAt (Text.lines "int x;\n\nstatic t[1];\nint y;".toList) "int" 3 :=
    ⟨"int y;".toList, by decide, by decide⟩
  have hok := (hsearch hds).2 ⟨[2, 3], by decide, .cons htwo (.cons hthree .nil)⟩
  exact ⟨hds, hok, hiff.1 hok⟩

end TreeCode.Golden
