import Mathlib.Data.List.TakeWhile
import TreeCode.Text.Lines

/-! # Trimming

Trimming takes blanks from both ends: what is left of a text stands in it behind blanks
(`exists_blanks_append_trim`), and nothing is left of blanks only (`trim_eq_nil_iff`). -/

namespace TreeCode.Text

variable {cs : List Char}

theorem trimRight_eq_nil_iff : trimRight cs = [] ↔ ∀ c ∈ cs, isBlank c := by
  rw [trimRight, List.reverse_eq_nil_iff, List.dropWhile_eq_nil_iff]
  simp only [List.mem_reverse]

theorem exists_blanks_append_trimLeft (cs : List Char) :
    ∃ blanks, (∀ c ∈ blanks, isBlank c) ∧ cs = blanks ++ trimLeft cs :=
  ⟨cs.takeWhile isBlank, fun _ hc => List.mem_takeWhile_imp hc,
    List.takeWhile_append_dropWhile.symm⟩

theorem trimRight_prefix (cs : List Char) : trimRight cs <+: cs := by
  rw [← List.reverse_suffix, trimRight, List.reverse_reverse]
  exact List.dropWhile_suffix _

theorem exists_blanks_append_trim (cs : List Char) :
    ∃ blanks rest, (∀ c ∈ blanks, isBlank c) ∧ cs = blanks ++ (trim cs ++ rest) := by
  obtain ⟨blanks, hblanks, hcs⟩ := exists_blanks_append_trimLeft cs
  obtain ⟨rest, hrest⟩ := trimRight_prefix (trimLeft cs)
  refine ⟨blanks, rest, hblanks, ?_⟩
  rw [trim, hrest]
  exact hcs

theorem trim_eq_nil_iff : trim cs = [] ↔ ∀ c ∈ cs, isBlank c := by
  rw [trim, trimRight_eq_nil_iff]
  obtain ⟨blanks, hblanks, hcs⟩ := exists_blanks_append_trimLeft cs
  constructor
  · intro h c hc
    rw [hcs] at hc
    rcases List.mem_append.1 hc with hc | hc
    · exact hblanks c hc
    · exact h c hc
  · intro h c hc
    exact h c (hcs ▸ List.mem_append_right blanks hc)

end TreeCode.Text
