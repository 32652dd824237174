import Mathlib.Tactic.Common
import TreeCode.Text.Lines

/-! # Lines and their ends

A text that follows a line is a row of lines, each behind a line end, and perhaps one line end more
(`EndsAndLines`). Cutting a text into lines finds the lines of this row
(`exists_endsAndLines`), and cutting it into pieces finds what stands between the separators
(`pieces_append_cons`). -/

namespace TreeCode.Text

/-- A line feed, or a carriage return and a line feed. -/
def IsLineEnd (ending : List Char) : Prop := ending = ['\n'] ∨ ending = ['\r', '\n']

/-- The text is a row of these lines, each behind a line end, and so many line ends more. -/
inductive EndsAndLines : Nat → List (List Char) → List Char → Prop where
  | nil : EndsAndLines 0 [] []
  | final {ending : List Char} : IsLineEnd ending → EndsAndLines 1 [] ending
  | line {final : Nat} {ls : List (List Char)} {ending l rest : List Char} :
      IsLineEnd ending → '\n' ∉ l → EndsAndLines final ls rest →
        EndsAndLines final (l :: ls) (ending ++ (l ++ rest))

variable {cs : List Char} {final : Nat} {ls : List (List Char)}

theorem IsLineEnd.eq_of_cons {ending : List Char} (h : IsLineEnd ending) {c : Char}
    {rest rest' : List Char} (he : ending ++ rest = c :: rest') (hc : c = '\n') :
    ending = ['\n'] ∧ rest = rest' := by
  subst hc
  rcases h with rfl | rfl
  · exact ⟨rfl, (List.cons.inj he).2⟩
  · exact absurd (List.cons.inj he).1 (by decide)

namespace EndsAndLines

theorem final_le_one (h : EndsAndLines final ls cs) : final ≤ 1 := by
  induction h with
  | nil => exact Nat.zero_le 1
  | final => exact Nat.le_refl 1
  | line _ _ _ ih => exact ih

theorem not_mem (h : EndsAndLines final ls cs) : ∀ l ∈ ls, '\n' ∉ l := by
  induction h with
  | nil => exact nofun
  | final => exact nofun
  | line _ hline _ ih => exact List.forall_mem_cons.2 ⟨hline, ih⟩

/-- Each line has one line end before it. -/
theorem count_newline (h : EndsAndLines final ls cs) : cs.count '\n' = ls.length + final := by
  have hone {ending : List Char} (h : IsLineEnd ending) : ending.count '\n' = 1 := by
    rcases h with rfl | rfl <;> decide
  induction h with
  | nil => rfl
  | final hend => rw [hone hend, List.length_nil]
  | line hend hline _ ih =>
      rw [List.count_append, List.count_append, hone hend, List.count_eq_zero_of_not_mem hline, ih,
        List.length_cons]
      omega

/-- A line feed may become a carriage return and a line feed. -/
theorem carriage (h : EndsAndLines final ls ('\n' :: cs)) :
    EndsAndLines final ls ('\r' :: '\n' :: cs) := by
  generalize htext : '\n' :: cs = text at h
  cases h with
  | nil => cases htext
  | final hend =>
      obtain ⟨rfl, -⟩ := hend.eq_of_cons ((List.append_nil _).trans htext.symm) rfl
      exact .final (.inr rfl)
  | line hend hline hrest =>
      obtain ⟨rfl, -⟩ := hend.eq_of_cons htext.symm rfl
      exact .line (.inr rfl) hline hrest

/-- A character may be put in front of the first line. -/
theorem consFirst {c : Char} (hc : c ≠ '\n') (h : EndsAndLines final ls ('\n' :: cs)) :
    ∃ final, EndsAndLines final (consFirst c ls) ('\n' :: c :: cs) := by
  generalize htext : '\n' :: cs = text at h
  cases h with
  | nil => cases htext
  | final hend =>
      obtain ⟨rfl, hnil⟩ := hend.eq_of_cons ((List.append_nil _).trans htext.symm) rfl
      rw [← hnil]
      exact ⟨0, .line (l := [c]) (.inl rfl) (by simpa using hc.symm) .nil⟩
  | @line _ _ _ l _ hend hline hrest =>
      obtain ⟨rfl, hcs⟩ := hend.eq_of_cons htext.symm rfl
      rw [← hcs]
      refine ⟨final, .line (l := c :: l) (.inl rfl) ?_ hrest⟩
      simpa [hc.symm] using hline

end EndsAndLines

/-- **The lines of a text** are those that follow if the text is put behind a line end. -/
theorem exists_endsAndLines (cs : List Char) : ∃ final, EndsAndLines final (lines cs) ('\n' :: cs) := by
  fun_induction lines cs with
  | case1 => exact ⟨1, .final (.inl rfl)⟩
  | case2 cs ih =>
      obtain ⟨final, h⟩ := ih
      exact ⟨final, .line (l := []) (.inl rfl) (by simp) h⟩
  | case3 cs ih =>
      obtain ⟨final, h⟩ := ih
      exact ⟨final, .line (l := []) (.inl rfl) (by simp) h.carriage⟩
  | case4 c cs hnewline hcarriage ih =>
      obtain ⟨final, h⟩ := ih
      exact h.consFirst (fun he => hnewline he)

/-! ### Pieces -/

section pieces

variable {separates : Char → Bool} {part : List Char}

theorem pieces_of_not_separates (h : ∀ c ∈ part, separates c = false) :
    pieces separates part = [part] := by
  induction part with
  | nil => rfl
  | cons c part ih =>
      rw [List.forall_mem_cons] at h
      simp [pieces, h.1, ih h.2, Text.consFirst]

/-- A separator ends the piece in front of it. -/
theorem pieces_append_cons {c : Char} (h : ∀ c ∈ part, separates c = false)
    (hc : separates c = true) (rest : List Char) :
    pieces separates (part ++ c :: rest) = part :: pieces separates rest := by
  induction part with
  | nil => simp [pieces, hc]
  | cons c' part ih =>
      rw [List.forall_mem_cons] at h
      simp [pieces, h.1, ih h.2, Text.consFirst]

end pieces

end TreeCode.Text
