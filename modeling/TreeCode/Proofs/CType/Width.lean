import Mathlib.Order.Bounds.Basic
import TreeCode.Proofs.CType.Range

/-! # Widths of integer types

The number of binary digits is the least that a number fits in, also when it is found by counting
leading zeros (`bitsOfWord_eq`). So the width chosen for a number is the narrowest that holds it,
with a bit for the sign if it is for both signs, up to the widest there is (`widths_tight`). -/

namespace TreeCode

variable {n b : Nat}

/-! ### Binary digits -/

theorem isLeast_bitsNeeded (n : Nat) : IsLeast {b | 1 ≤ b ∧ n < 2 ^ b} (bitsNeeded n) := by
  have hpos : 0 < bitsNeeded n := by
    unfold bitsNeeded
    split <;> omega
  refine ⟨⟨hpos, (bitsNeeded_le_iff hpos).1 (Nat.le_refl _)⟩, ?_⟩
  rintro b ⟨hb, hn⟩
  exact (bitsNeeded_le_iff hb).2 hn

theorem bitsNeeded_mono : Monotone bitsNeeded := by
  intro n n' h
  obtain ⟨hpos, hn'⟩ := (isLeast_bitsNeeded n').1
  exact (bitsNeeded_le_iff hpos).2 (Nat.lt_of_le_of_lt h hn')

/-- Behind its leading zeros a word has its binary digits, and zero has none. -/
theorem bitsOfWord_eq (n : UInt64) : bitsOfWord n = bitsNeeded n.toNat := by
  have hlt : n.toNat < 2 ^ (64 - n.toBitVec.clz.toNat) := BitVec.toNat_lt_two_pow_sub_clz
  apply le_antisymm
  · obtain ⟨hpos, hfits⟩ := (isLeast_bitsNeeded n.toNat).1
    refine max_le ?_ hpos
    by_cases hzero : n.toBitVec = 0#64
    · have hclz : (0#64).clz.toNat = 64 := by decide
      rw [hzero, hclz]
      exact Nat.zero_le _
    · -- the first digit behind the zeros is a one
      have hle : 2 ^ (63 - n.toBitVec.clz.toNat) ≤ n.toNat :=
        BitVec.two_pow_sub_clz_le_toNat_of_ne_zero (by decide) hzero
      have := (Nat.pow_lt_pow_iff_right (by decide : 1 < 2)).1 (Nat.lt_of_le_of_lt hle hfits)
      omega
  · refine (bitsNeeded_le_iff (by unfold bitsOfWord; omega)).2 (Nat.lt_of_lt_of_le hlt ?_)
    exact Nat.pow_le_pow_right (by decide) (le_max_left _ _)

/-! ### Widths -/

namespace Width

theorem bits_mem (w : Width) : w.bits ∈ ({8, 16, 32} : Set Nat) := by cases w <;> simp [bits]

theorem exists_bits_eq (hb : b ∈ ({8, 16, 32} : Set Nat)) : ∃ w : Width, w.bits = b := by
  rcases hb with rfl | rfl | rfl
  · exact ⟨w8, rfl⟩
  · exact ⟨w16, rfl⟩
  · exact ⟨w32, rfl⟩

theorem isLeast_bits_ofBits (h : n ≤ 32) :
    IsLeast {b | b ∈ ({8, 16, 32} : Set Nat) ∧ n ≤ b} (ofBits n).bits := by
  refine ⟨⟨bits_mem _, (bits_ofBits_le_iff h _).1 (Nat.le_refl _)⟩, ?_⟩
  rintro b ⟨hb, hn⟩
  obtain ⟨w, rfl⟩ := exists_bits_eq hb
  exact (bits_ofBits_le_iff h w).2 hn

theorem ofBits_eq_widest (h : 16 < n) : ofBits n = w32 := by
  rw [ofBits, if_neg (by omega), if_neg (by omega)]

theorem bits_ofBits_mono : Monotone fun n => (ofBits n).bits := by
  intro n n' h
  dsimp only
  unfold ofBits
  split_ifs <;> simp only [bits] <;> omega

/-- The widths that have room for a number are those with as many bits as it needs. -/
theorem lt_two_pow_iff (hb : b ∈ ({8, 16, 32} : Set Nat)) :
    n < 2 ^ b ↔ bitsNeeded n ≤ b := by
  obtain ⟨w, rfl⟩ := exists_bits_eq hb
  exact (bitsNeeded_le_iff (Nat.lt_of_lt_of_le w.bits_pos (Nat.sub_le _ 1))).symm

/-- The numbers that have room in so many bits together with their opposites. -/
def signedRange (b : Nat) : Set Int := {i | -(2 ^ (b - 1) - 1) ≤ i ∧ i ≤ 2 ^ (b - 1) - 1}

/-- Both signs of a magnitude have room if one bit more than it needs is there. -/
theorem mem_signedRange_iff (hb : b ∈ ({8, 16, 32} : Set Nat)) :
    ((n : Int) ∈ signedRange b ∧ -(n : Int) ∈ signedRange b) ↔ bitsNeeded n + 1 ≤ b := by
  obtain ⟨w, rfl⟩ := exists_bits_eq hb
  have hroom : bitsNeeded n + 1 ≤ w.bits ↔ n < 2 ^ (w.bits - 1) := by
    rw [← bitsNeeded_le_iff w.bits_pos]
    have := w.bits_pos
    omega
  have hcast : n < 2 ^ (w.bits - 1) ↔ (n : Int) < 2 ^ (w.bits - 1) := by norm_cast
  rw [hroom, hcast, signedRange, Set.mem_ofPred_eq, Set.mem_ofPred_eq]
  generalize (2 ^ (w.bits - 1) : Int) = limit
  omega

theorem isLeast_bits_forUnsigned (hn : n < 2 ^ 32) :
    IsLeast {b | b ∈ ({8, 16, 32} : Set Nat) ∧ n ≤ 2 ^ b - 1} (forUnsigned n).bits := by
  have hbits : bitsNeeded n ≤ 32 := (bitsNeeded_le_iff (by decide)).2 hn
  have hset : {b | b ∈ ({8, 16, 32} : Set Nat) ∧ n ≤ 2 ^ b - 1} =
      {b | b ∈ ({8, 16, 32} : Set Nat) ∧ bitsNeeded n ≤ b} := by
    ext b
    refine and_congr_right fun hb => ?_
    rw [← lt_two_pow_iff hb, Nat.lt_iff_le_pred (Nat.two_pow_pos b)]
  rw [hset]
  exact isLeast_bits_ofBits hbits

theorem isLeast_bits_forSigned (hn : n < 2 ^ 31) :
    IsLeast {b | b ∈ ({8, 16, 32} : Set Nat) ∧ (n : Int) ∈ signedRange b ∧
      -(n : Int) ∈ signedRange b} (forSigned n).bits := by
  have hbits : bitsNeeded n ≤ 31 := (bitsNeeded_le_iff (by decide)).2 hn
  have hset : {b | b ∈ ({8, 16, 32} : Set Nat) ∧ (n : Int) ∈ signedRange b ∧
      -(n : Int) ∈ signedRange b} =
        {b | b ∈ ({8, 16, 32} : Set Nat) ∧ bitsNeeded n + 1 ≤ b} := by
    ext b
    exact and_congr_right fun hb => mem_signedRange_iff hb
  rw [hset]
  exact isLeast_bits_ofBits (Nat.succ_le_succ hbits)

theorem forUnsigned_of_le (h : 2 ^ 32 ≤ n) : forUnsigned n = w32 := by
  apply ofBits_eq_widest
  have := (bitsNeeded_le_iff (by decide : 0 < 32)).not.2 (Nat.not_lt.2 h)
  omega

theorem forSigned_of_le (h : 2 ^ 31 ≤ n) : forSigned n = w32 := by
  apply ofBits_eq_widest
  have := (bitsNeeded_le_iff (by decide : 0 < 31)).not.2 (Nat.not_lt.2 h)
  omega

/-- **The width chosen** is the narrowest that holds a number, and the widest for numbers that no
width holds. -/
theorem widths_tight :
    (∀ n : UInt64, IsLeast {b | 1 ≤ b ∧ n.toNat < 2 ^ b} (bitsOfWord n) ∧
      bitsOfWord n = bitsNeeded n.toNat) ∧
    (∀ n : Nat, n < 2 ^ 32 → IsLeast {b | b ∈ ({8, 16, 32} : Set Nat) ∧ n ≤ 2 ^ b - 1}
      (forUnsigned n).bits) ∧
    (∀ m : Nat, m < 2 ^ 31 → IsLeast {b | b ∈ ({8, 16, 32} : Set Nat) ∧
      (m : Int) ∈ signedRange b ∧ -(m : Int) ∈ signedRange b} (forSigned m).bits) ∧
    (∀ n, 2 ^ 32 ≤ n → forUnsigned n = w32) ∧ (∀ m, 2 ^ 31 ≤ m → forSigned m = w32) ∧
    (Monotone fun n => (forUnsigned n).bits) ∧ Monotone fun m => (forSigned m).bits := by
  refine ⟨fun n => ?_, fun n => isLeast_bits_forUnsigned, fun m => isLeast_bits_forSigned,
    fun n => forUnsigned_of_le, fun m => forSigned_of_le, ?_, ?_⟩
  · rw [bitsOfWord_eq]
    exact ⟨isLeast_bitsNeeded _, rfl⟩
  · exact bits_ofBits_mono.comp bitsNeeded_mono
  · exact bits_ofBits_mono.comp fun n n' h => Nat.succ_le_succ (bitsNeeded_mono h)

/-- The bounds 255 and 127 are the last ones of the narrowest width. -/
theorem widths_tight_byte : 255 < 2 ^ 32 ∧ 127 < 2 ^ 31 ∧ 2 ^ 32 ≤ 2 ^ 40 ∧ 2 ^ 31 ≤ 2 ^ 40 ∧
    IsLeast {b | b ∈ ({8, 16, 32} : Set Nat) ∧ 255 ≤ 2 ^ b - 1} 8 ∧
    IsLeast {b | b ∈ ({8, 16, 32} : Set Nat) ∧
      ((127 : Nat) : Int) ∈ signedRange b ∧ -((127 : Nat) : Int) ∈ signedRange b} 8 ∧
    forUnsigned (2 ^ 40) = w32 ∧ forSigned (2 ^ 40) = w32 := by
  obtain ⟨-, hunsigned, hsigned, hbeyond, hbeyond', -⟩ := widths_tight
  exact ⟨by decide, by decide, by decide, by decide, hunsigned 255 (by decide),
    hsigned 127 (by decide), hbeyond _ (by decide), hbeyond' _ (by decide)⟩

end Width
end TreeCode
