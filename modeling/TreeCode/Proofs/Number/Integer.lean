import Mathlib.Tactic.Linarith
import TreeCode.Proofs.Number.Value

/-! # Integers among floating-point numbers

A number without a fractional part stands for an integer (`isIntegral_iff_exists`), and its integer
part is that integer, kept within 64 bits (`integerPart_of_value?`). Every integer of at most 53
binary digits is the value of a floating-point number (`exists_value?_eq_int`). -/

namespace TreeCode

open Float.Model (UnpackedFloat Format)

/-! ### Magnitudes -/

/-- A mantissa that stands for `k` under a negative exponent is `k` with so many zeros behind. -/
theorem scaled_eq_iff {m k j : Nat} : (m : ℚ) * 2 ^ (-(j : Int)) = k ↔ m = k * 2 ^ j := by
  rw [zpow_neg, zpow_natCast, mul_inv_eq_iff_eq_mul₀ (by positivity)]
  exact_mod_cast Iff.rfl

namespace Exact

section magnitude

variable {m : Nat} {e : Int}

theorem floorAbs_eq {k : Nat} (h : (m : ℚ) * 2 ^ e = k) :
    floorAbs m e = k ∧ (decide (0 ≤ e) || m % Nat.pow 2 (-e).toNat == 0) = true := by
  unfold floorAbs
  by_cases he : 0 ≤ e
  · obtain ⟨j, rfl⟩ := Int.eq_ofNat_of_zero_le he
    rw [if_pos he]
    refine ⟨?_, by simp⟩
    have h : ((m * 2 ^ j : Nat) : ℚ) = k := by
      push_cast
      exact h
    exact_mod_cast h
  · obtain ⟨j, rfl⟩ : ∃ j : Nat, e = -j := ⟨(-e).toNat, by omega⟩
    rw [if_neg he, neg_neg, Int.toNat_natCast]
    have h : m = k * 2 ^ j := scaled_eq_iff.1 h
    refine ⟨?_, by simp [h]⟩
    rw [h]
    exact Nat.mul_div_cancel k (Nat.two_pow_pos j)

theorem eq_floorAbs (h : (decide (0 ≤ e) || m % Nat.pow 2 (-e).toNat == 0) = true) :
    (m : ℚ) * 2 ^ e = floorAbs m e := by
  unfold floorAbs
  by_cases he : 0 ≤ e
  · obtain ⟨j, rfl⟩ := Int.eq_ofNat_of_zero_le he
    rw [if_pos he]
    change (m : ℚ) * 2 ^ (j : ℤ) = ((m * 2 ^ j : Nat) : ℚ)
    push_cast
    rfl
  · obtain ⟨j, rfl⟩ : ∃ j : Nat, e = -j := ⟨(-e).toNat, by omega⟩
    rw [if_neg he, neg_neg, Int.toNat_natCast]
    rw [neg_neg, Int.toNat_natCast, decide_eq_false he, Bool.false_or, beq_iff_eq] at h
    obtain ⟨k, rfl⟩ := Nat.dvd_of_mod_eq_zero h
    have hk : Nat.pow 2 j * k / Nat.pow 2 j = k := Nat.mul_div_cancel_left k (Nat.two_pow_pos j)
    rw [hk]
    exact scaled_eq_iff.2 (Nat.mul_comm _ _)

/-- A number that stands for an integer has that integer's sign and magnitude. -/
theorem magnitude_eq {negative : Bool} {n : Int}
    (h : (finite negative m e).value? = some (n : ℚ)) :
    ∃ k : Nat, (m : ℚ) * 2 ^ e = k ∧ n = if negative then -(k : Int) else k := by
  have hpos : (0 : ℚ) ≤ m * 2 ^ e := by positivity
  have h := Option.some.inj h
  cases negative with
  | true =>
      have h : -((m : ℚ) * 2 ^ e) = n := h
      have hn : (n : ℚ) ≤ 0 := by linarith
      have hn : n ≤ 0 := by exact_mod_cast hn
      obtain ⟨k, rfl⟩ : ∃ k : Nat, n = -k := ⟨n.natAbs, by omega⟩
      refine ⟨k, ?_, rfl⟩
      push_cast at h
      linarith
  | false =>
      have h : (m : ℚ) * 2 ^ e = n := h
      have hn : (0 : ℚ) ≤ n := by linarith
      have hn : 0 ≤ n := by exact_mod_cast hn
      obtain ⟨k, rfl⟩ := Int.eq_ofNat_of_zero_le hn
      exact ⟨k, h, rfl⟩

end magnitude

/-! ### Integral numbers -/

theorem isIntegral_iff {x : Exact} : x.isIntegral = true ↔ ∃ n : Int, x.value? = some (n : ℚ) := by
  cases x with
  | nan => simp [isIntegral, value?]
  | infinite negative => simp [isIntegral, value?]
  | finite negative m e =>
      constructor
      · intro h
        refine ⟨if negative then -(floorAbs m e : Int) else floorAbs m e, ?_⟩
        rw [value?, eq_floorAbs h]
        cases negative <;> simp
      · rintro ⟨n, h⟩
        obtain ⟨k, hk, -⟩ := magnitude_eq h
        exact (floorAbs_eq hk).2

theorem integerPart_eq {x : Exact} {n low high : Int} (h : x.value? = some (n : ℚ)) :
    x.integerPart low high = max low (min high n) := by
  cases x with
  | nan => cases h
  | infinite negative => cases h
  | finite negative m e =>
      obtain ⟨k, hk, hn⟩ := magnitude_eq h
      rw [integerPart, (floorAbs_eq hk).1, ← hn]

end Exact

theorem isIntegral_iff_exists {x : Float} :
    isIntegral x = true ↔ ∃ n : Int, value? x = some (n : ℚ) :=
  Exact.isIntegral_iff

/-- **The integer part** of an integer is that integer within the signed 64-bit integers. -/
theorem integerPart_of_value? {x : Float} {n : Int} (h : value? x = some (n : ℚ)) :
    integerPart x = max Int64.minValue.toInt (min Int64.maxValue.toInt n) :=
  Exact.integerPart_eq h

/-! ### Every integer that is not too large -/

/-- The sign is the first of the bits. -/
theorem unpackSign_packComponents (s : UnpackedFloat.Sign) (e : BitVec 11) (m : BitVec 52) :
    UnpackedFloat.Sign.ofBitVec (UnpackedFloat.unpackSign
      (UnpackedFloat.packComponents Format.binary64 s e m)) = s := by
  change UnpackedFloat.Sign.ofBitVec ((s.toBitVec ++ e ++ m).extractLsb' 63 1) = s
  rw [BitVec.extractLsb'_append_eq_of_le (by decide),
    BitVec.extractLsb'_append_eq_of_le (by decide)]
  cases s <;> rfl

section encoding

variable {m b : Nat} (s : UnpackedFloat.Sign) (hm : 2 ^ 52 ≤ m) (hm' : m < 2 ^ 53) (hb : 0 < b)
  (hb' : b < 2047)
include hm hm' hb hb'

/-- A number with all its digits is packed without the leading one. -/
theorem pack_finite (hpos : 0 < m) :
    UnpackedFloat.pack Format.binary64 (.finite s m (b - (1023 + 52)) hpos) =
      UnpackedFloat.packComponents Format.binary64 s (BitVec.ofNat 11 b) (BitVec.ofNat 52 m) := by
  have hlog : m.log2 = 52 := (Nat.log2_eq_iff (by omega)).2 ⟨hm, hm'⟩
  have hexponent : ((b : Int) - (1023 + 52) + 1023 + 52).toNat = b := by omega
  change (if 2 ^ 11 ≤ ((b : Int) - (1023 + 52) + 1023 + 52).toNat + 1 then _ else
    if m.log2 + 1 = 53 then _ else _) = _
  rw [if_neg (by omega), if_pos (by omega)]
  congr 2

theorem unpack_packComponents :
    Exact.ofUnpacked (UnpackedFloat.unpack Format.binary64
      (UnpackedFloat.packComponents Format.binary64 s (BitVec.ofNat 11 b) (BitVec.ofNat 52 m))) =
      .finite (Exact.isNegative s) m (b - (1023 + 52)) := by
  have hdigits : (1#1 ++ BitVec.ofNat 52 m).toNat = m := by
    rw [toNat_one_append, BitVec.toNat_ofNat]
    omega
  have hexponent : (BitVec.ofNat 11 b).toNat = b := by
    rw [BitVec.toNat_ofNat]
    omega
  have hones : BitVec.ofNat 11 b ≠ -1#11 := fun h => by
    rw [h] at hexponent
    change 2047 = b at hexponent
    omega
  have hzeros : BitVec.ofNat 11 b ≠ 0#11 := fun h => by
    rw [h] at hexponent
    change 0 = b at hexponent
    omega
  unfold UnpackedFloat.unpack
  dsimp only
  rw [if_neg (by rw [UnpackedFloat.unpackExponent_packComponents]; exact hones),
    if_neg (by rw [UnpackedFloat.unpackExponent_packComponents]; exact hzeros)]
  change Exact.finite (Exact.isNegative (.ofBitVec (UnpackedFloat.unpackSign _)))
    (1#1 ++ UnpackedFloat.unpackMantissa _).toNat
    ((UnpackedFloat.unpackExponent _).toNat - ((1023 : Nat) + (52 : Nat) : Int)) = _
  rw [unpackSign_packComponents, UnpackedFloat.unpackMantissa_packComponents,
    UnpackedFloat.unpackExponent_packComponents, hdigits, hexponent]
  rfl

end encoding

/-- Every number in normal form with all its digits can be encoded. -/
theorem exists_ofFloat_eq {m : Nat} {e : Int} (negative : Bool) (hm : 2 ^ 52 ≤ m)
    (hm' : m < 2 ^ 53) (he : -1074 ≤ e) (he' : e ≤ 0) :
    ∃ x, Exact.ofFloat x = .finite negative m e := by
  obtain ⟨b, hb, hb', rfl⟩ : ∃ b : Nat, 0 < b ∧ b < 2047 ∧ e = b - (1023 + 52) :=
    ⟨(e + 1023 + 52).toNat, by omega⟩
  have hpos : 0 < m := by omega
  refine ⟨.ofModel (.pack (.finite (Exact.signOf negative) m (b - (1023 + 52)) hpos)), ?_⟩
  change Exact.ofUnpacked (UnpackedFloat.unpack Format.binary64
    (UnpackedFloat.pack Format.binary64 _)) = _
  rw [pack_finite _ hm hm' hb hb', unpack_packComponents _ hm hm' hb hb']
  cases negative <;> rfl

/-- Digits may be shifted up if the exponent makes up for it. -/
theorem value?_of_shifted {x : Float} {s : Bool} {k j : Nat}
    (h : Exact.ofFloat x = .finite s (k * 2 ^ j) (-j)) :
    value? x = some (if s then -(k : ℚ) else k) := by
  rw [value?, h, Exact.value?, scaled_eq_iff.2 rfl]

theorem value?_zero : value? 0 = some 0 := by
  change (Exact.finite false 0 0).value? = _
  simp [Exact.value?]

/-- **Every integer** of at most 53 digits is the value of a floating-point number. -/
theorem exists_value?_eq_int {n : Int} (h : n.natAbs < 2 ^ 53) :
    ∃ x, value? x = some (n : ℚ) := by
  by_cases hn : n = 0
  · subst hn
    exact ⟨0, value?_zero⟩
  · -- the digits are shifted up until there are 53 of them
    obtain ⟨hlow, hhigh⟩ := (Nat.log2_eq_iff (Int.natAbs_ne_zero.2 hn)).1 rfl
    have hlog : n.natAbs.log2 < 53 := (Nat.pow_lt_pow_iff_right (by decide)).1 (hlow.trans_lt h)
    obtain ⟨j, hj⟩ : ∃ j, n.natAbs.log2 + j = 52 := ⟨52 - n.natAbs.log2, by omega⟩
    have hmin : 2 ^ 52 ≤ n.natAbs * 2 ^ j := by
      rw [← hj, pow_add]
      gcongr
    have hmax : n.natAbs * 2 ^ j < 2 ^ 53 := by
      have hpow : 2 ^ 53 = 2 ^ (n.natAbs.log2 + 1) * 2 ^ j := by
        rw [← pow_add, Nat.add_right_comm, hj]
      rw [hpow]
      gcongr
    obtain ⟨x, hx⟩ := exists_ofFloat_eq (e := -j) (decide (n < 0)) hmin hmax (by omega) (by omega)
    refine ⟨x, ?_⟩
    rw [value?_of_shifted hx, Nat.cast_natAbs]
    rcases lt_or_ge n 0 with hneg | hpos
    · rw [if_pos (decide_eq_true hneg), abs_of_neg hneg]
      simp
    · rw [if_neg (by simpa using hpos), abs_of_nonneg hpos]

end TreeCode
