import Mathlib.Algebra.Order.Ring.Int
import Mathlib.Tactic.SplitIfs
import TreeCode.CType

/-! # Ranges of integer types

A type of so many bits holds so many integers, and keeps of any other one only what it is up to
a power of two. So storing an integer leaves it as it is if and only if the type holds it
(`store_eq_self_iff`). The width chosen for a bound holds all numbers up to the bound, unless it is
the greatest width there is. -/

namespace TreeCode
namespace CType

def isInteger : CType → Bool
  | unsigned _ => true
  | signed _ => true
  | float => false
  | double => false

/-- The integers of an integer type. -/
def Holds : CType → Int → Prop
  | unsigned w, n => 0 ≤ n ∧ n < 2 ^ w.bits
  | signed w, n => -2 ^ (w.bits - 1) ≤ n ∧ n < 2 ^ (w.bits - 1)
  | float, _ => False
  | double, _ => False

instance (type : CType) (n : Int) : Decidable (type.Holds n) :=
  match type with
  | unsigned _ => inferInstanceAs (Decidable (_ ∧ _))
  | signed _ => inferInstanceAs (Decidable (_ ∧ _))
  | float => inferInstanceAs (Decidable False)
  | double => inferInstanceAs (Decidable False)

/-- What becomes of an integer in a field or variable of an integer type: of all the integers
that differ from it by a multiple of the number of integers of the type, the one in the type. -/
def store : CType → Int → Int
  | unsigned w, n => n % 2 ^ w.bits
  | signed w, n => n.bmod (2 ^ w.bits)
  | float, n => n
  | double, n => n

/-- **Storing an integer** leaves it as it is exactly if the type holds it. -/
theorem store_eq_self_iff {type : CType} {n : Int} (h : type.isInteger = true) :
    type.store n = n ↔ type.Holds n := by
  cases type with
  | unsigned w => cases w <;> simp only [store, Holds, Width.bits] <;> omega
  | signed w => cases w <;> simp only [store, Holds, Width.bits, Int.bmod_def] <;> omega
  | float => cases h
  | double => cases h

end CType

/-! ### Widths -/

theorem bitsNeeded_le_iff {n b : Nat} (hb : 0 < b) : bitsNeeded n ≤ b ↔ n < 2 ^ b := by
  unfold bitsNeeded
  split_ifs with hn
  · subst hn
    exact iff_of_true hb (Nat.two_pow_pos b)
  · rw [Nat.succ_le_iff, Nat.log2_lt hn]

namespace Width

theorem ofBits_cases (b : Nat) : ofBits b = w32 ∨ b ≤ (ofBits b).bits := by
  unfold ofBits
  split_ifs with h8 h16
  · exact .inr h8
  · exact .inr h16
  · exact .inl rfl

theorem bits_pos (w : Width) : 0 < w.bits - 1 := by cases w <;> decide

theorem lt_of_forUnsigned_ne {bound : Nat} (h : forUnsigned bound ≠ w32) :
    bound < 2 ^ (forUnsigned bound).bits := by
  rw [← bitsNeeded_le_iff (Nat.lt_of_lt_of_le (bits_pos _) (Nat.sub_le _ 1))]
  exact (ofBits_cases _).resolve_left h

/-- The width chosen is the least that has so many bits. -/
theorem bits_ofBits_le_iff {b : Nat} (hb : b ≤ 32) (w : Width) :
    (ofBits b).bits ≤ w.bits ↔ b ≤ w.bits := by
  unfold ofBits
  split_ifs <;> cases w <;> simp only [bits] <;> omega

/-- Among the widths, `w` is the narrowest one for unsigned numbers up to `bound`. -/
def Narrowest (w : Width) (bound : Nat) : Prop :=
  bound < 2 ^ w.bits ∧ ∀ w' : Width, bound < 2 ^ w'.bits → w.bits ≤ w'.bits

theorem narrowest_forUnsigned {bound : Nat} (h : bound < 2 ^ 32) :
    (forUnsigned bound).Narrowest bound := by
  have hbits : bitsNeeded bound ≤ 32 := (bitsNeeded_le_iff (by decide)).2 h
  have hle (w : Width) : (forUnsigned bound).bits ≤ w.bits ↔ bound < 2 ^ w.bits := by
    rw [← bitsNeeded_le_iff (Nat.lt_of_lt_of_le (bits_pos w) (Nat.sub_le _ 1))]
    exact bits_ofBits_le_iff hbits w
  exact ⟨(hle _).1 (Nat.le_refl _), fun w' => (hle w').2⟩

theorem lt_of_forSigned_ne {magnitude : Nat} (h : forSigned magnitude ≠ w32) :
    magnitude < 2 ^ ((forSigned magnitude).bits - 1) := by
  rw [← bitsNeeded_le_iff (bits_pos _)]
  exact Nat.le_sub_of_add_le ((ofBits_cases _).resolve_left h)

end Width
end TreeCode
