import TreeCode.CType
import TreeCode.Proofs.Number.Digits

/-! # Characters of literals

A literal is written in letters, digits, minus signs and points (`isLiteral_of_mem_literal`), so
what stands around it in a text shows where it ends. -/

namespace TreeCode

/-- A letter, a digit, a minus sign or a point. -/
def isLiteral (c : Char) : Bool := c.isAlphanum || c == '-' || c == '.'

/-- A character of literals differs from every other one. -/
theorem ne_of_isLiteral {c other : Char} (h : isLiteral c = true)
    (hother : isLiteral other = false) : c ≠ other := by
  rintro rfl
  rw [h] at hother
  cases hother

theorem isLiteral_of_isDigit {c : Char} (h : c.isDigit = true) : isLiteral c = true := by
  simp [isLiteral, Char.isAlphanum, h]

theorem isLiteral_of_mem_natText {n : Nat} {c : Char} (h : c ∈ natText n) : isLiteral c = true :=
  isLiteral_of_isDigit (isDigit_of_mem_natText h)

theorem isLiteral_of_mem_intText {n : Int} {c : Char} (h : c ∈ intText n) : isLiteral c = true := by
  cases n with
  | ofNat n => exact isLiteral_of_mem_natText h
  | negSucc n =>
      rcases List.mem_cons.1 h with rfl | h
      · decide
      · exact isLiteral_of_mem_natText h

theorem isLiteral_of_mem_paddedText {width n : Nat} {c : Char} (h : c ∈ paddedText width n) :
    isLiteral c = true := by
  rcases List.mem_append.1 h with h | h
  · obtain rfl := List.eq_of_mem_replicate h
    decide
  · exact isLiteral_of_mem_natText h

theorem isLiteral_of_mem_plain {d : Decimal} {c : Char} (h : c ∈ d.plain) : isLiteral c = true := by
  unfold Decimal.plain at h
  split at h
  · exact isLiteral_of_mem_natText h
  · rcases List.mem_append.1 h with h | h
    · exact isLiteral_of_mem_natText h
    · rcases List.mem_cons.1 h with rfl | h
      · decide
      · exact isLiteral_of_mem_paddedText h

theorem isLiteral_of_mem_signText {negative : Bool} {c : Char} (h : c ∈ signText negative) :
    isLiteral c = true := by
  cases negative with
  | false => cases h
  | true =>
      obtain rfl := List.mem_singleton.1 h
      decide

theorem Exact.isLiteral_of_mem_plain {x : Exact} {fmt : Float.Model.Format} {c : Char}
    (h : c ∈ x.plain fmt) : isLiteral c = true := by
  have hsigned {negative : Bool} {text : List Char} (htext : ∀ c ∈ text, isLiteral c = true)
      (h : c ∈ signText negative ++ text) : isLiteral c = true := by
    rcases List.mem_append.1 h with h | h
    · exact isLiteral_of_mem_signText h
    · exact htext c h
  unfold plain at h
  split at h
  · exact List.all_eq_true.1 (by decide) c h
  · exact hsigned (List.all_eq_true.1 (by decide)) h
  · exact hsigned (List.all_eq_true.1 (by decide)) h
  · exact hsigned (fun c => TreeCode.isLiteral_of_mem_plain) h

namespace CType

theorem isLiteral_of_mem_withPoint {text : List Char} (htext : ∀ c ∈ text, isLiteral c = true)
    {c : Char} (h : c ∈ withPoint text) : isLiteral c = true := by
  unfold withPoint at h
  split at h
  · exact htext c h
  · rcases List.mem_append.1 h with h | h
    · exact htext c h
    · exact List.all_eq_true.1 (by decide) c h

/-- **Literals** have no blanks, commas or brackets. -/
theorem isLiteral_of_mem_literal {type : CType} {x : Float} {c : Char} (h : c ∈ type.literal x) :
    isLiteral c = true := by
  cases type with
  | unsigned w => exact isLiteral_of_mem_intText h
  | signed w => exact isLiteral_of_mem_intText h
  | float =>
      rcases List.mem_append.1 h with h | h
      · exact isLiteral_of_mem_withPoint (fun c => Exact.isLiteral_of_mem_plain) h
      · obtain rfl := List.mem_singleton.1 h
        decide
  | double => exact isLiteral_of_mem_withPoint (fun c => Exact.isLiteral_of_mem_plain) h

end CType
end TreeCode
