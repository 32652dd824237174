import Mathlib.Data.List.TakeWhile
import TreeCode.Number.Numeral

/-! # Scanning numerals

A numeral is well-formed if each part of it is made of the characters that belong there. Scanning
gives a well-formed numeral (`wellFormed_of_scan`), and what follows does not go on with it
(`stops_of_scan`); and it takes a well-formed numeral that denotes a number from the start of an
input that does not go on with it (`scan_append`). -/

namespace TreeCode

/-- The input does not start with a character of this kind. -/
def Stops (p : Char → Bool) (cs : List Char) : Prop := ∀ c ∈ cs.head?, p c = false

variable {p : Char → Bool} {c : Char} {cs part rest : List Char}

@[simp] theorem stops_nil : Stops p [] := nofun

@[simp] theorem stops_cons : Stops p (c :: cs) ↔ p c = false := by simp [Stops]

theorem Stops.imp {q : Char → Bool} (h : Stops p cs) (hpq : ∀ c, q c → p c) : Stops q cs := by
  intro c hc
  by_contra hq
  have := h c hc
  rw [hpq c (by simpa using hq)] at this
  cases this

/-- Whatever follows a part that is not empty does not matter. -/
theorem stops_append_of_ne_nil (h : part ≠ []) (hpart : ∀ c ∈ part, p c = false) :
    Stops p (part ++ rest) := by
  cases part with
  | nil => exact absurd rfl h
  | cons c part => simpa using hpart c List.mem_cons_self

theorem takeWhile_append_of_stops (hpart : ∀ c ∈ part, p c) (hrest : Stops p rest) :
    (part ++ rest).takeWhile p = part ∧ (part ++ rest).dropWhile p = rest := by
  rw [List.takeWhile_append_of_pos hpart, List.dropWhile_append_of_pos hpart]
  cases rest with
  | nil => simp
  | cons c rest =>
      have hc : ¬p c := by simpa using hrest
      simp [List.takeWhile_cons_of_neg hc, List.dropWhile_cons_of_neg hc]

theorem stops_dropWhile (p : Char → Bool) (cs : List Char) : Stops p (cs.dropWhile p) := by
  intro c hc
  have := List.head?_dropWhile_not p cs
  rw [hc] at this
  simpa using this

/-! ### Parts -/

/-- At most one character of this kind. -/
def IsOne (p : Char → Bool) (part : List Char) : Prop := part = [] ∨ ∃ c, p c ∧ part = [c]

theorem scanOne_append_eq (hpart : IsOne p part) (hrest : part = [] → Stops p rest) :
    scanOne p (part ++ rest) = (part, rest) := by
  rcases hpart with rfl | ⟨c, hc, rfl⟩
  · cases rest with
    | nil => rfl
    | cons c rest =>
        have hc : p c = false := stops_cons.1 (hrest rfl)
        simp [scanOne, hc]
  · simp [scanOne, hc]

theorem scanOne_eq (h : scanOne p cs = (part, rest)) :
    IsOne p part ∧ (part = [] → rest = cs ∧ Stops p cs) := by
  cases cs with
  | nil =>
      cases h
      exact ⟨.inl rfl, fun _ => ⟨rfl, stops_nil⟩⟩
  | cons c cs =>
      rw [scanOne] at h
      split_ifs at h with hc
      · cases h
        exact ⟨.inr ⟨c, hc, rfl⟩, fun hnil => absurd hnil (List.cons_ne_nil c [])⟩
      · cases h
        exact ⟨.inl rfl, fun _ => ⟨rfl, by simpa using hc⟩⟩

theorem scanDigits_append_eq (hpart : ∀ c ∈ part, c.isDigit) (hrest : Stops Char.isDigit rest) :
    scanDigits (part ++ rest) = (part, rest) := by
  obtain ⟨htake, hdrop⟩ := takeWhile_append_of_stops hpart hrest
  rw [scanDigits, htake, hdrop]

theorem scanDigits_eq (h : scanDigits cs = (part, rest)) :
    (∀ c ∈ part, c.isDigit) ∧ Stops Char.isDigit rest := by
  cases h
  exact ⟨fun c hc => List.mem_takeWhile_imp hc, stops_dropWhile _ _⟩

theorem scanAfter_eq {found : List Char} {scan : List Char → List Char × List Char}
    (h : scanAfter found scan cs = (part, rest)) :
    found = [] ∧ part = [] ∧ rest = cs ∨ found ≠ [] ∧ scan cs = (part, rest) := by
  unfold scanAfter at h
  split_ifs at h with hfound
  · cases h
    exact .inl ⟨List.isEmpty_iff.1 hfound, rfl, rfl⟩
  · exact .inr ⟨fun hnil => hfound (by rw [hnil]; rfl), h⟩

theorem scanAfter_eq_of_eq_nil {found : List Char} {scan : List Char → List Char × List Char}
    (hfound : found = []) (h : scanAfter found scan cs = (part, rest)) : part = [] ∧ rest = cs := by
  rcases scanAfter_eq h with ⟨-, h⟩ | ⟨hne, -⟩
  · exact h
  · exact absurd hfound hne

/-! ### Numerals -/

namespace Numeral

/-- Each part has the characters that belong there; digits after the point need a point, and an
exponent needs its mark. -/
structure WellFormed (n : Numeral) : Prop where
  sign : IsOne isSign n.sign
  whole : ∀ c ∈ n.whole, c.isDigit
  point : IsOne isPoint n.point
  fraction : ∀ c ∈ n.fraction, c.isDigit
  fraction_eq_nil : n.point = [] → n.fraction = []
  mark : IsOne isMark n.mark
  exponentSign : IsOne isSign n.exponentSign
  exponent : ∀ c ∈ n.exponent, c.isDigit
  exponent_eq_nil : n.mark = [] → n.exponentSign = [] ∧ n.exponent = []

/-- The character after a numeral would be read as part of it: a digit, or a point or a mark where
one may still come. -/
def goesOnWith (n : Numeral) (c : Char) : Bool :=
  c.isDigit || (isPoint c && n.point.isEmpty && n.mark.isEmpty) || (isMark c && n.mark.isEmpty)

variable {n : Numeral}

/-- Scanning takes one part after the other. -/
theorem scan_eq_iff : scan cs = (n, rest) ↔ ∃ r₁ r₂ r₃ r₄ r₅ r₆, scanOne isSign cs = (n.sign, r₁) ∧
    scanDigits r₁ = (n.whole, r₂) ∧ scanOne isPoint r₂ = (n.point, r₃) ∧
    scanAfter n.point scanDigits r₃ = (n.fraction, r₄) ∧ scanOne isMark r₄ = (n.mark, r₅) ∧
    scanAfter n.mark (scanOne isSign) r₅ = (n.exponentSign, r₆) ∧
    scanAfter n.mark scanDigits r₆ = (n.exponent, rest) := by
  constructor
  · intro h
    cases h
    exact ⟨_, _, _, _, _, _, rfl, rfl, rfl, rfl, rfl, rfl, rfl⟩
  · rintro ⟨r₁, r₂, r₃, r₄, r₅, r₆, h₁, h₂, h₃, h₄, h₅, h₆, h₇⟩
    simp only [scan, h₁, h₂, h₃, h₄, h₅, h₆, h₇]

theorem isOne_of_scanAfter {found : List Char}
    (h : scanAfter found (scanOne p) cs = (part, rest)) : IsOne p part := by
  rcases scanAfter_eq h with ⟨-, rfl, -⟩ | ⟨-, h⟩
  · exact .inl rfl
  · exact (scanOne_eq h).1

theorem isDigit_of_scanAfter {found : List Char}
    (h : scanAfter found scanDigits cs = (part, rest)) : ∀ c ∈ part, c.isDigit := by
  rcases scanAfter_eq h with ⟨-, rfl, -⟩ | ⟨-, h⟩
  · exact nofun
  · exact (scanDigits_eq h).1

/-- What is scanned is well-formed. -/
theorem wellFormed_of_scan (h : scan cs = (n, rest)) : n.WellFormed := by
  obtain ⟨r₁, r₂, r₃, r₄, r₅, r₆, h₁, h₂, h₃, h₄, h₅, h₆, h₇⟩ := scan_eq_iff.1 h
  exact {
    sign := (scanOne_eq h₁).1
    whole := (scanDigits_eq h₂).1
    point := (scanOne_eq h₃).1
    fraction := isDigit_of_scanAfter h₄
    fraction_eq_nil := fun hpoint => (scanAfter_eq_of_eq_nil hpoint h₄).1
    mark := (scanOne_eq h₅).1
    exponentSign := isOne_of_scanAfter h₆
    exponent := isDigit_of_scanAfter h₇
    exponent_eq_nil := fun hmark =>
      ⟨(scanAfter_eq_of_eq_nil hmark h₆).1, (scanAfter_eq_of_eq_nil hmark h₇).1⟩ }

/-- What follows does not go on with what is scanned. -/
theorem stops_of_scan (h : scan cs = (n, rest)) : Stops n.goesOnWith rest := by
  obtain ⟨r₁, r₂, r₃, r₄, r₅, r₆, h₁, h₂, h₃, h₄, h₅, h₆, h₇⟩ := scan_eq_iff.1 h
  -- without a mark, nothing is taken after the fraction, and without a point, after the whole
  have hend (hmark : n.mark = []) : rest = r₄ ∧ Stops isMark r₄ := by
    obtain ⟨hr₅, hstops⟩ := (scanOne_eq h₅).2 hmark
    rw [(scanAfter_eq_of_eq_nil hmark h₇).2, (scanAfter_eq_of_eq_nil hmark h₆).2, hr₅]
    exact ⟨rfl, hstops⟩
  have hwhole (hpoint : n.point = []) : r₄ = r₂ ∧ Stops isPoint r₂ := by
    obtain ⟨hr₃, hstops⟩ := (scanOne_eq h₃).2 hpoint
    rw [(scanAfter_eq_of_eq_nil hpoint h₄).2, hr₃]
    exact ⟨rfl, hstops⟩
  have hdigits : Stops Char.isDigit rest := by
    rcases scanAfter_eq h₇ with ⟨hmark, -, -⟩ | ⟨-, h₇⟩
    · rw [(hend hmark).1]
      rcases scanAfter_eq h₄ with ⟨hpoint, -, -⟩ | ⟨-, h₄⟩
      · rw [(hwhole hpoint).1]
        exact (scanDigits_eq h₂).2
      · exact (scanDigits_eq h₄).2
    · exact (scanDigits_eq h₇).2
  intro c hc
  by_contra hgoes
  simp only [goesOnWith, Bool.not_eq_false, Bool.or_eq_true, Bool.and_eq_true,
    List.isEmpty_iff] at hgoes
  rcases hgoes with (hdigit | ⟨⟨hpoint, hnil⟩, hmark⟩) | ⟨hmark, hnil⟩
  · cases (hdigits c hc).symm.trans hdigit
  · obtain ⟨hr₂, hstops⟩ := hwhole hnil
    rw [(hend hmark).1, hr₂] at hc
    cases (hstops c hc).symm.trans hpoint
  · obtain ⟨hr₄, hstops⟩ := hend hnil
    rw [hr₄] at hc
    cases (hstops c hc).symm.trans hmark

theorem scanAfter_append_eq {found : List Char} {scan : List Char → List Char × List Char}
    (hnil : found = [] → part = []) (hscan : found ≠ [] → scan (part ++ rest) = (part, rest)) :
    scanAfter found scan (part ++ rest) = (part, rest) := by
  unfold scanAfter
  split_ifs with hfound
  · rw [hnil (List.isEmpty_iff.1 hfound)]
    rfl
  · exact hscan fun h => hfound (by rw [h]; rfl)

theorem not_isDigit_of_isPoint (h : isPoint c) : c.isDigit = false := by
  rw [beq_iff_eq.1 h]
  decide

theorem not_isDigit_of_isMark (h : isMark c) : c.isDigit = false := by
  rcases (Bool.or_eq_true _ _).mp h with h | h <;> rw [beq_iff_eq.1 h] <;> decide

theorem not_isDigit_of_isSign (h : isSign c) : c.isDigit = false := by
  rcases (Bool.or_eq_true _ _).mp h with h | h <;> rw [beq_iff_eq.1 h] <;> decide

theorem not_isSign_of_isDigit (h : c.isDigit) : isSign c = false := by
  by_contra hsign
  rw [not_isDigit_of_isSign (by simpa using hsign)] at h
  cases h

theorem not_isPoint_of_isMark (h : isMark c) : isPoint c = false := by
  rcases (Bool.or_eq_true _ _).mp h with h | h <;> rw [beq_iff_eq.1 h] <;> decide

theorem not_isSign_of_isPoint (h : isPoint c) : isSign c = false := by
  rw [beq_iff_eq.1 h]
  decide

/-- A part that may be there keeps characters of another kind away, and if it is not there, what
follows has to. -/
theorem IsOne.stops {q : Char → Bool} (h : IsOne q part) (hq : ∀ c, q c → p c = false)
    (hrest : part = [] → Stops p rest) : Stops p (part ++ rest) := by
  rcases h with rfl | ⟨c, hc, rfl⟩
  · exact hrest rfl
  · exact stops_cons.2 (hq c hc)

/-- A numeral is scanned up to the character that does not go on with it. -/
theorem scan_append (h : n.WellFormed) (hd : n.denotes) (hrest : Stops n.goesOnWith rest) :
    scan (n.text ++ rest) = (n, rest) := by
  rw [denotes, Bool.and_eq_true, Bool.or_eq_true, Bool.not_eq_true', Bool.not_eq_true',
    List.isEmpty_eq_false_iff, List.isEmpty_eq_false_iff, List.isEmpty_iff, ne_eq,
    List.append_eq_nil_iff] at hd
  obtain ⟨hdigits, hexponent⟩ := hd
  have hdigit : Stops Char.isDigit rest := hrest.imp fun c hc => by simp [goesOnWith, hc]
  -- what each part is followed by, from the last to the first
  have hmark (hmark : n.mark = []) : n.exponentSign ++ (n.exponent ++ rest) = rest := by
    obtain ⟨hsign, hexponent⟩ := h.exponent_eq_nil hmark
    rw [hsign, hexponent]
    rfl
  have hpoint (hpoint : n.point = []) :
      n.fraction ++ (n.mark ++ (n.exponentSign ++ (n.exponent ++ rest))) =
        n.mark ++ (n.exponentSign ++ (n.exponent ++ rest)) := by
    rw [h.fraction_eq_nil hpoint]
    rfl
  have hmarkDigit : Stops Char.isDigit (n.mark ++ (n.exponentSign ++ (n.exponent ++ rest))) :=
    IsOne.stops h.mark (fun _ => not_isDigit_of_isMark) fun hnil => by rwa [hmark hnil]
  refine scan_eq_iff.2 ⟨n.whole ++ (n.point ++ (n.fraction ++ (n.mark ++ (n.exponentSign ++
    (n.exponent ++ rest))))), _, _, _, _, _, ?_, scanDigits_append_eq h.whole ?_,
    scanOne_append_eq h.point fun hnil => ?_, scanAfter_append_eq h.fraction_eq_nil fun _ =>
      scanDigits_append_eq h.fraction hmarkDigit,
    scanOne_append_eq h.mark fun hnil => ?_,
    scanAfter_append_eq (fun hnil => (h.exponent_eq_nil hnil).1) fun hne =>
      scanOne_append_eq h.exponentSign fun _ => ?_,
    scanAfter_append_eq (fun hnil => (h.exponent_eq_nil hnil).2) fun _ =>
      scanDigits_append_eq h.exponent hdigit⟩
  · simp only [text, List.append_assoc]
    refine scanOne_append_eq h.sign fun _ => ?_
    by_cases hwhole : n.whole = []
    · have hfraction : n.point ≠ [] := fun hnil => hdigits ⟨hwhole, h.fraction_eq_nil hnil⟩
      rw [hwhole, List.nil_append]
      exact IsOne.stops h.point (fun _ => not_isSign_of_isPoint) fun hnil => absurd hnil hfraction
    · exact stops_append_of_ne_nil hwhole fun c hc => not_isSign_of_isDigit (h.whole c hc)
  · refine IsOne.stops h.point (fun _ => not_isDigit_of_isPoint) fun hnil => ?_
    rw [hpoint hnil]
    exact hmarkDigit
  · rw [hpoint hnil]
    refine IsOne.stops h.mark (fun _ => not_isPoint_of_isMark) fun hnil' => ?_
    rw [hmark hnil']
    exact hrest.imp fun c hc => by simp [goesOnWith, hc, hnil, hnil']
  · rw [hmark hnil]
    exact hrest.imp fun c hc => by simp [goesOnWith, hc, hnil]
  · exact stops_append_of_ne_nil (hexponent.resolve_left hne) fun c hc =>
      not_isSign_of_isDigit (h.exponent c hc)

end Numeral
end TreeCode
