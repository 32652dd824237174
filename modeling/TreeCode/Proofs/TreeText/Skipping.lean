import Mathlib.Data.List.TakeWhile
import TreeCode.TreeText.Definition

/-! # Blanks and comments

Before each token of a tree text there may be blanks and comments. Skipping them comes to a solid
character, which is neither blank nor a semicolon, or to the end (`skip_cases`); so skipping twice
is skipping once. All characters of words, numbers and signs are solid, so none of them is lost. -/

namespace TreeCode

/-! ### Characters -/

namespace Text

/-- The characters with code points in the ranges, one by one. -/
def Ranges.points (ranges : Ranges) : List Nat :=
  ranges.flatMap fun (first, last) => (List.range (last + 1 - first)).map (first + ·)

theorem Ranges.mem_points {ranges : Ranges} {n : Nat} (h : ranges.contains n) :
    n ∈ ranges.points := by
  induction ranges with
  | nil => cases h
  | cons range rest ih =>
      obtain ⟨first, last⟩ := range
      rw [contains, Bool.and_eq_true, Bool.or_eq_true, decide_eq_true_iff, decide_eq_true_iff] at h
      rw [points, List.flatMap_cons, List.mem_append]
      rcases h with ⟨hfirst, hlast | hrest⟩
      · refine .inl (List.mem_map.2 ⟨n - first, List.mem_range.2 (by omega), by omega⟩)
      · exact .inr (ih hrest)

variable {c : Char}

theorem not_isAlphabetic_of_isBlank (h : isBlank c) : isAlphabetic c = false := by
  have hall : ∀ n ∈ blankRanges.points, alphabeticRanges.contains n = false := by decide +kernel
  exact hall _ (Ranges.mem_points h)

theorem not_isNumeric_of_isBlank (h : isBlank c) : isNumeric c = false := by
  have hall : ∀ n ∈ blankRanges.points, numericRanges.contains n = false := by decide
  exact hall _ (Ranges.mem_points h)

end Text

namespace TreeText

/-- Neither blank nor the start of a comment. -/
def isSolid (c : Char) : Bool := c != ';' && !Text.isBlank c

variable {c : Char} {cs : List Char}

theorem not_isSolid_iff : isSolid c = false ↔ c = ';' ∨ Text.isBlank c := by
  rw [isSolid, Bool.and_eq_false_iff, bne_eq_false_iff_eq, Bool.not_eq_false']

theorem isSolid_of_continuesWord (h : continuesWord c) : isSolid c := by
  by_contra hc
  rcases not_isSolid_iff.1 (Bool.eq_false_iff.2 hc) with rfl | hblank
  · exact absurd h (by decide)
  · have hunderscore : (c == '_') = false := by
      rw [beq_eq_false_iff_ne]
      rintro rfl
      exact absurd hblank (by decide)
    rw [continuesWord, Text.not_isAlphabetic_of_isBlank hblank,
      Text.not_isNumeric_of_isBlank hblank, hunderscore] at h
    cases h

theorem continuesWord_of_isDigit (h : c.isDigit) : continuesWord c := by
  rw [continuesWord, Text.isNumeric_of_isDigit h, Bool.or_true, Bool.true_or]

theorem continuesWord_of_startsWord (h : startsWord c) : continuesWord c := by
  rw [startsWord, Bool.or_eq_true] at h
  rw [continuesWord]
  rcases h with h | h <;> simp [h]

theorem isSolid_of_isDigit (h : c.isDigit) : isSolid c :=
  isSolid_of_continuesWord (continuesWord_of_isDigit h)

theorem isSolid_of_isSign (h : Numeral.isSign c) : isSolid c := by
  rcases (Bool.or_eq_true _ _).mp h with h | h <;> rw [beq_iff_eq.1 h] <;> decide

theorem isSolid_of_isPoint (h : Numeral.isPoint c) : isSolid c := by
  rw [beq_iff_eq.1 h]
  decide

theorem isSolid_of_isMark (h : Numeral.isMark c) : isSolid c := by
  rcases (Bool.or_eq_true _ _).mp h with h | h <;> rw [beq_iff_eq.1 h] <;> decide

/-! ### Skipping -/

theorem skip_cons_of_isSolid (h : isSolid c) : skip (c :: cs) = c :: cs := by
  rw [isSolid, Bool.and_eq_true, bne_iff_ne, Bool.not_eq_true'] at h
  rw [skip, skipFrom, if_neg h.1, if_neg (by simp [h.2])]

theorem skip_cons_of_isBlank (h : Text.isBlank c) : skip (c :: cs) = skip cs := by
  have hne : c ≠ ';' := by
    rintro rfl
    exact absurd h (by decide)
  rw [skip, skipFrom, if_neg hne, if_pos h, skip]

theorem skip_semicolon : skip (';' :: cs) = skipFrom true cs := rfl

theorem skipFrom_newline (inComment : Bool) : skipFrom inComment ('\n' :: cs) = skip cs := by
  cases inComment with
  | true => rfl
  | false => exact skip_cons_of_isBlank (by decide)

theorem skip_append_of_isBlank {blanks : List Char} (h : ∀ c ∈ blanks, Text.isBlank c) :
    skip (blanks ++ cs) = skip cs := by
  induction blanks with
  | nil => rfl
  | cons c blanks ih =>
      rw [List.cons_append, skip_cons_of_isBlank (h c List.mem_cons_self)]
      exact ih fun d hd => h d (List.mem_cons_of_mem c hd)

/-- A comment is skipped to the end of its line. -/
theorem skipFrom_true_append {line : List Char} (h : '\n' ∉ line) :
    skipFrom true (line ++ cs) = skipFrom true cs := by
  induction line with
  | nil => rfl
  | cons c line ih =>
      have hc : c ≠ '\n' := fun he => h (he ▸ List.mem_cons_self)
      rw [List.cons_append, skipFrom, bne_iff_ne.2 hc]
      exact ih fun hmem => h (List.mem_cons_of_mem c hmem)

/-- Skipping comes to a solid character or to the end. -/
theorem skipFrom_cases (inComment : Bool) (cs : List Char) : skipFrom inComment cs = [] ∨
    ∃ c rest, skipFrom inComment cs = c :: rest ∧ isSolid c := by
  fun_induction skipFrom inComment cs with
  | case1 => exact .inl rfl
  | case2 c cs ih => exact ih
  | case3 cs ih => exact ih
  | case4 c cs hc hblank ih => exact ih
  | case5 c cs hc hblank => exact .inr ⟨c, cs, rfl, by simp [isSolid, hc, hblank]⟩

theorem skip_cases (cs : List Char) : skip cs = [] ∨ ∃ c rest, skip cs = c :: rest ∧ isSolid c :=
  skipFrom_cases false cs

theorem skip_skip (cs : List Char) : skip (skip cs) = skip cs := by
  rcases skip_cases cs with h | ⟨c, rest, h, hc⟩
  · rw [h]
    rfl
  · rw [h, skip_cons_of_isSolid hc]

/-! ### Readers -/

theorem word_skip (cs : List Char) : word (skip cs) = word cs := by
  rw [word, skip_skip, word]

theorem lessEqual_eq (cs : List Char) :
    lessEqual cs = match Text.after? ['<', '='] (skip cs) with
      | some rest => .ok ((), rest)
      | none => .error (.fault (.expectedSign "<=") (skip cs)) := by
  unfold lessEqual
  split
  · rename_i rest hrest
    rw [hrest]
    rfl
  · rename_i hother
    cases hafter : Text.after? ['<', '='] (skip cs) with
    | none => rfl
    | some rest => exact absurd (Text.after?_eq_some_iff.1 hafter) (hother rest)

/-- One round of the loop over the definitions. -/
theorem definitions_eq (known : List Definition) (cs : List Char) :
    definitions known cs = match skip cs with
      | [] => .error (.fault .unclosed [])
      | c :: rest =>
          if c = '\x7d' then .ok (known, rest)
          else definition cs >>= fun (d, rest) =>
            if known.any (·.name == d.name) then .error (.duplicate d.name)
            else definitions (known ++ [d]) rest := by
  rw [definitions]
  cases skip cs with
  | nil => rfl
  | cons c rest =>
      dsimp only
      split
      · rfl
      · split
        · rename_i hd
          rw [hd]
          rfl
        · rename_i hd
          rw [hd]
          rfl

end TreeText
end TreeCode
