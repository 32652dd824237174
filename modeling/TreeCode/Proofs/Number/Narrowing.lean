import TreeCode.Proofs.Number.Rounding

/-! # Narrowing to single precision

A number of double precision is rounded to 24 digits, and single precision has no exponent above
104 for them. So numbers of a magnitude that is rounded to `2 ^ 128` or more become infinite: those
from `2 ^ 128 - 2 ^ 103` on, half a unit in the last place before `2 ^ 128`
(`Exact.exists_value?_single_iff`). All other numbers stay finite. -/

namespace TreeCode

open Float.Model (UnpackedFloat Format)
open Float.Model.UnpackedFloat (ExtendedMantissa)

/-! ### Rounding to 24 digits -/

/-- The exponent at which a number with this mantissa and exponent is rounded. -/
def singleTarget (m : Nat) (e : Int) : Int := max (m.log2 + 1 + e - 24) (-149)

/-- The mantissa after rounding at the exponent `singleTarget m e`. -/
def singleRounded (m : Nat) (e : Int) : Nat :=
  ((⟨m, false, false⟩ : ExtendedMantissa) >>> (singleTarget m e - e).toNat).roundedMantissa

section rounding

variable {m r : Nat} {e : Int}

theorem shiftToTargetExponent_single (m : Nat) (e : Int) :
    UnpackedFloat.shiftToTargetExponent Format.binary32 m e .exact =
      ((⟨m, false, false⟩ : ExtendedMantissa) >>> (singleTarget m e - e).toNat,
        e + (singleTarget m e - e).toNat) := rfl

/-- A number of double precision has no digits to be added. -/
theorem le_singleTarget (h : (Exact.finite false m e).Normal) (hm : 0 < m) :
    e ≤ singleTarget m e := by
  obtain ⟨-, -, hn⟩ := h
  rw [singleTarget]
  rcases hn with rfl | rfl | hn
  · cases hm
  · omega
  · have hlog : 52 ≤ m.log2 := by rwa [Nat.le_log2 (by omega)]
    omega

theorem singleRounded_le (he : e ≤ singleTarget m e) : singleRounded m e ≤ 2 ^ 24 := by
  refine (rounded_le_succ _).trans ?_
  rw [mantissa_shift]
  have hlt : m < 2 ^ (24 + (singleTarget m e - e).toNat) := by
    have hlog : m < 2 ^ (m.log2 + 1) := Nat.lt_log2_self
    refine hlog.trans_le (Nat.pow_le_pow_right (by decide) ?_)
    rw [singleTarget] at he ⊢
    omega
  rw [pow_add] at hlt
  exact Nat.div_lt_of_lt_mul (by rwa [Nat.mul_comm])

theorem singleRounded_pos (hm : 0 < m) (h : -149 < singleTarget m e) : 0 < singleRounded m e := by
  refine lt_of_lt_of_le ?_ (mantissa_le_rounded _)
  rw [mantissa_shift]
  refine Nat.div_pos (le_trans ?_ (Nat.log2_self_le hm.ne')) (Nat.two_pow_pos _)
  change 2 ^ _ ≤ 2 ^ m.log2
  refine Nat.pow_le_pow_right (by decide) ?_
  rw [singleTarget] at h ⊢
  omega

/-- A mantissa that has been rounded up to 25 digits loses the last one, a zero. -/
theorem shift_singleRounded (hr : r ≤ 2 ^ 24) (he : -149 ≤ e) :
    UnpackedFloat.shiftToTargetExponent Format.binary32 r e .exact =
      if r = 2 ^ 24 then (⟨2 ^ 23, false, false⟩, e + 1) else (⟨r, false, false⟩, e) := by
  rw [shiftToTargetExponent_single]
  split_ifs with h
  · have hone : (singleTarget r e - e).toNat = 1 := by
      have hlog : r.log2 = 24 := by rw [h]; exact Nat.log2_two_pow
      rw [singleTarget, hlog]
      omega
    have hshift : (⟨2 ^ 24, false, false⟩ : ExtendedMantissa) >>> 1 = ⟨2 ^ 23, false, false⟩ :=
      shift_exact (2 ^ 23) 1
    rw [hone, h, hshift]
    rfl
  · have hlog : r.log2 < 24 := by
      rcases Nat.eq_zero_or_pos r with rfl | hpos
      · decide
      · exact (Nat.log2_lt hpos.ne').2 (Nat.lt_of_le_of_ne hr h)
    have hzero : (singleTarget r e - e).toNat = 0 := by
      rw [singleTarget]
      omega
    rw [hzero, shift_zero]
    simp

/-- **Rounding** gives zero, or a number whose exponent is the one of the rounding, or the next one
if the mantissa has been rounded up to 25 digits. -/
theorem round_single (s : UnpackedFloat.Sign) (he : e ≤ singleTarget m e) :
    (UnpackedFloat.round Format.binary32 s m e = .zero s ∧ singleRounded m e = 0) ∨
      ∃ fm fe h, UnpackedFloat.round Format.binary32 s m e = .finite s fm fe h ∧
        fe = if singleRounded m e = 2 ^ 24 then singleTarget m e + 1 else singleTarget m e := by
  have hround : UnpackedFloat.round Format.binary32 s m e =
      UnpackedFloat.roundWithAccuracy Format.binary32 s m e .exact := by
    have hzero : (e - singleTarget m e).toNat = 0 := by omega
    change UnpackedFloat.roundWithAccuracy Format.binary32 s (m <<< (e - singleTarget m e).toNat)
      (e - (e - singleTarget m e).toNat) .exact = _
    rw [hzero, Nat.shiftLeft_zero, Int.natCast_zero, Int.sub_zero]
  have hexponent : e + (singleTarget m e - e).toNat = singleTarget m e := by omega
  have hmin : -149 ≤ singleTarget m e := le_max_right _ _
  have hshift := shift_singleRounded (singleRounded_le he) hmin
  rw [hround]
  unfold UnpackedFloat.roundWithAccuracy
  rw [shiftToTargetExponent_single, hexponent]
  dsimp only
  rw [← singleRounded]
  by_cases hup : singleRounded m e = 2 ^ 24
  · rw [if_pos hup] at hshift
    rw [hshift]
    exact .inr ⟨2 ^ 23, singleTarget m e + 1, by decide, rfl, (if_pos hup).symm⟩
  · rw [if_neg hup] at hshift
    rw [hshift]
    by_cases hzero : singleRounded m e = 0
    · exact .inl ⟨dif_pos hzero, hzero⟩
    · exact .inr ⟨singleRounded m e, singleTarget m e, Nat.pos_of_ne_zero hzero, dif_neg hzero,
        (if_neg hup).symm⟩

end rounding

/-! ### Storing -/

section storing

variable {spec : Format} {s : UnpackedFloat.Sign} {m : Nat} {e : Int}

/-- Only the greatest exponent stands for what is not a number. -/
theorem isFinite_unpack {b : BitVec spec.numBits}
    (h : UnpackedFloat.unpackExponent b ≠ -1#(spec.exponentBits)) :
    (UnpackedFloat.unpack spec b).isFinite = true := by
  unfold UnpackedFloat.unpack
  dsimp only
  rw [if_neg h]
  by_cases hexponent : UnpackedFloat.unpackExponent b = 0#(spec.exponentBits)
  · rw [if_pos hexponent]
    by_cases hmantissa : UnpackedFloat.unpackMantissa b = 0#(spec.mantissaBitsWithoutImplicit)
    · rw [dif_pos hmantissa]
      rfl
    · rw [dif_neg hmantissa]
      rfl
  · rw [if_neg hexponent]
    rfl

theorem isFinite_unpack_packComponents {exponent : BitVec spec.exponentBits}
    (mantissa : BitVec spec.mantissaBitsWithoutImplicit) (h : exponent ≠ -1#(spec.exponentBits)) :
    (UnpackedFloat.unpack spec
      (UnpackedFloat.packComponents spec s exponent mantissa)).isFinite = true :=
  isFinite_unpack (by rwa [UnpackedFloat.unpackExponent_packComponents])

/-- **A rounded number** stays finite if its exponent is not too large. -/
theorem isFinite_unpack_pack_iff (hm : 0 < m) :
    (UnpackedFloat.unpack Format.binary32
      (UnpackedFloat.pack Format.binary32 (.finite s m e hm))).isFinite = true ↔ e ≤ 104 := by
  have hpack : UnpackedFloat.pack Format.binary32 (.finite s m e hm) =
      if 2 ^ 8 ≤ (e + 127 + 23).toNat + 1 then UnpackedFloat.packedInfinity Format.binary32 s
      else if m.log2 + 1 = 24 then UnpackedFloat.packComponents Format.binary32 s
        (BitVec.ofNat 8 (e + 127 + 23).toNat) (BitVec.ofNat 23 m)
      else UnpackedFloat.packComponents Format.binary32 s 0#8 (BitVec.ofNat 23 m) := rfl
  rw [hpack]
  by_cases he : e ≤ 104
  · rw [if_neg (by omega)]
    refine iff_of_true ?_ he
    have hexponent : BitVec.ofNat 8 (e + 127 + 23).toNat ≠ -1#8 := fun h => by
      have h := congrArg BitVec.toNat h
      rw [BitVec.toNat_ofNat] at h
      change _ = 255 at h
      omega
    split
    · exact isFinite_unpack_packComponents _ hexponent
    · exact isFinite_unpack_packComponents _ (by decide)
  · rw [if_pos (by omega)]
    refine iff_of_false ?_ he
    cases s <;> decide

end storing

/-! ### Overflow -/

section overflow

variable {m : Nat} {e : Int}

/-- At the greatest exponent the mantissa is rounded up to 25 digits from half a unit before them
on. -/
theorem singleRounded_eq_iff (he : singleTarget m e - e = 29) :
    singleRounded m e = 2 ^ 24 ↔ 2 ^ 53 - 2 ^ 28 ≤ m := by
  have hle : singleRounded m e ≤ 2 ^ 24 := singleRounded_le (by omega)
  have hshift : (singleTarget m e - e).toNat = 29 := by omega
  have hmono {a b : Nat} (h : a ≤ b) :
      ((⟨a, false, false⟩ : ExtendedMantissa) >>> 29).roundedMantissa ≤
        ((⟨b, false, false⟩ : ExtendedMantissa) >>> 29).roundedMantissa :=
    rounded_shift_mono (by simpa [digits] using h) 29
  have hlow : ((⟨2 ^ 53 - 2 ^ 28 - 1, false, false⟩ : ExtendedMantissa) >>> 29).roundedMantissa =
      2 ^ 24 - 1 := by decide
  have hhigh : ((⟨2 ^ 53 - 2 ^ 28, false, false⟩ : ExtendedMantissa) >>> 29).roundedMantissa =
      2 ^ 24 := by decide
  unfold singleRounded at hle ⊢
  rw [hshift] at hle ⊢
  constructor
  · intro h
    by_contra hlt
    have := hmono (show m ≤ 2 ^ 53 - 2 ^ 28 - 1 by omega)
    omega
  · intro h
    exact le_antisymm hle (hhigh ▸ hmono h)

/-- **Numbers that are rounded to `2 ^ 128` or more** are those from half a unit before it on. -/
theorem overflow_iff (h : (Exact.finite false m e).Normal) (hm : 0 < m) :
    104 < singleTarget m e ∨ singleTarget m e = 104 ∧ singleRounded m e = 2 ^ 24 ↔
      (2 : ℚ) ^ 128 - 2 ^ 103 ≤ m * 2 ^ e := by
  obtain ⟨hlow, hhigh⟩ := (Nat.log2_eq_iff hm.ne').1 rfl
  have hlowq : (2 : ℚ) ^ ((m.log2 : Int) + e) ≤ m * 2 ^ e := by
    rw [zpow_add₀ two_ne_zero, zpow_natCast]
    gcongr
    exact_mod_cast hlow
  have hhighq : (m : ℚ) * 2 ^ e < 2 ^ ((m.log2 : Int) + 1 + e) := by
    rw [zpow_add₀ two_ne_zero, ← Nat.cast_succ, zpow_natCast]
    gcongr
    exact_mod_cast hhigh
  rcases lt_trichotomy (singleTarget m e) 104 with hlt | heq | hgt
  · refine iff_of_false (by omega) (not_le.2 ?_)
    have hexponent : (m.log2 : Int) + 1 + e ≤ 127 := by
      rw [singleTarget] at hlt
      omega
    calc (m : ℚ) * 2 ^ e < 2 ^ ((m.log2 : Int) + 1 + e) := hhighq
      _ ≤ 2 ^ (127 : Int) := by gcongr; norm_num
      _ < 2 ^ 128 - 2 ^ 103 := by norm_num
  · -- all 53 digits are there, and 29 of them are dropped
    obtain ⟨hmax, -, hn⟩ := h
    have hlog : m.log2 < 53 := (Nat.log2_lt hm.ne').2 hmax
    have htotal : (m.log2 : Int) + 1 + e = 128 := by
      rw [singleTarget] at heq
      omega
    have hfull : m.log2 = 52 := by
      have hn : 2 ^ 52 ≤ m := (hn.resolve_left hm.ne').resolve_left (by omega)
      have : 52 ≤ m.log2 := by rwa [Nat.le_log2 hm.ne']
      omega
    obtain rfl : e = 75 := by omega
    have hscale : ((2 : ℚ) ^ 128 - 2 ^ 103) = ((2 ^ 53 - 2 ^ 28 : Nat) : ℚ) * 2 ^ (75 : Int) := by
      norm_num
    rw [singleRounded_eq_iff (by omega), hscale, mul_le_mul_iff_left₀ (by positivity),
      Nat.cast_le]
    simp [heq]
  · refine iff_of_true (.inl hgt) ?_
    have hexponent : 128 ≤ (m.log2 : Int) + e := by
      rw [singleTarget] at hgt
      omega
    calc (2 : ℚ) ^ 128 - 2 ^ 103 ≤ 2 ^ (128 : Int) := by norm_num
      _ ≤ 2 ^ ((m.log2 : Int) + e) := by gcongr; norm_num
      _ ≤ m * 2 ^ e := hlowq

/-- A rounded number is finite unless it has been rounded to `2 ^ 128` or more. -/
theorem isFinite_round_single_iff (s : UnpackedFloat.Sign) (h : (Exact.finite false m e).Normal)
    (hm : 0 < m) :
    (UnpackedFloat.unpack Format.binary32 (UnpackedFloat.pack Format.binary32
      (UnpackedFloat.round Format.binary32 s m e))).isFinite = true ↔
      (m : ℚ) * 2 ^ e < 2 ^ 128 - 2 ^ 103 := by
  rw [← not_le, ← overflow_iff h hm]
  rcases round_single s (le_singleTarget h hm) with ⟨hround, hzero⟩ | ⟨fm, fe, hpos, hround, hfe⟩
  · have hmin : ¬-149 < singleTarget m e := fun hlt => (singleRounded_pos hm hlt).ne' hzero
    rw [hround]
    refine iff_of_true ?_ (by omega)
    cases s <;> decide
  · rw [hround, isFinite_unpack_pack_iff, hfe]
    split_ifs <;> omega

end overflow

namespace Exact

theorem normalize_zero {spec : Format} (negative : Bool) (e : Int) :
    UnpackedFloat.normalize spec ((signOf negative).apply (0 : Nat)) e (signOf negative) =
      .zero (signOf negative) := by
  have hcompare : compare ((signOf negative).apply (0 : Nat)) 0 = .eq := by
    cases negative <;> decide
  rw [UnpackedFloat.normalize, hcompare]

theorem normalize_signOf {spec : Format} {m : Nat} (negative : Bool) (e : Int) (hm : 0 < m) :
    UnpackedFloat.normalize spec ((signOf negative).apply m) e (signOf negative) =
      UnpackedFloat.round spec (signOf negative) m e := by
  cases negative with
  | false =>
      have hcompare : compare (m : Int) 0 = .gt := Std.compare_eq_gt.2 (by omega)
      change UnpackedFloat.normalize spec (m : Int) e .positive = _
      rw [UnpackedFloat.normalize, hcompare]
      rfl
  | true =>
      have hcompare : compare (-(m : Int)) 0 = .lt := Std.compare_eq_lt.2 (by omega)
      change UnpackedFloat.normalize spec (-(m : Int)) e .negative = _
      rw [UnpackedFloat.normalize, hcompare]
      simp [signOf]

/-- **Narrowing** keeps a number finite if and only if its magnitude is below
`2 ^ 128 - 2 ^ 103`. -/
theorem exists_value?_single_iff {x : Exact} {q : ℚ} (hn : x.Normal) (hq : x.value? = some q) :
    (∃ p, x.single.value? = some p) ↔ |q| < 2 ^ 128 - 2 ^ 103 := by
  cases x with
  | nan => cases hq
  | infinite negative => cases hq
  | finite negative m e =>
      have habs : |q| = m * 2 ^ e := by
        have hpos : (0 : ℚ) ≤ m * 2 ^ e := by positivity
        obtain rfl := Option.some.inj hq
        cases negative <;> simp [abs_of_nonneg hpos]
      rw [habs, single, exists_value?_ofUnpacked_iff]
      rcases Nat.eq_zero_or_pos m with rfl | hm
      · refine iff_of_true ?_ (by norm_num)
        rw [normalize_zero]
        cases negative <;> decide
      · rw [normalize_signOf negative e hm]
        exact isFinite_round_single_iff (signOf negative) hn hm

end Exact
end TreeCode
