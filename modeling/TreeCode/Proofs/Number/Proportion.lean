import TreeCode.Proofs.Number.Rounding

/-! # Proportions

A proportion is a number from 0 to 1. The product of two proportions is a proportion that is not
greater than the first (`Proportion.mul`), and a part of a whole number is in proportion to it
(`proportion_div`), although both are rounded. -/

namespace TreeCode

open Float.Model (UnpackedFloat Format)
open Float.Model.UnpackedFloat (ExtendedMantissa)

/-- A number from 0 to 1 without a sign. -/
def Proportion (x : Float) : Prop :=
  ∃ m e, Exact.ofFloat x = .finite false m e ∧ (m : ℚ) * 2 ^ e ≤ 1

section decoding

variable {m : Nat} {e : Int}

theorem unpacked_eq {u : UnpackedFloat} (h : Exact.ofUnpacked u = .finite false m e) :
    (u = .zero .positive ∧ m = 0) ∨ ∃ hm, u = .finite .positive m e hm := by
  cases u with
  | notANumber => cases h
  | infinity s => cases h
  | zero s =>
      cases s with
      | positive =>
          cases h
          exact .inl ⟨rfl, rfl⟩
      | negative => cases h
  | finite s m' e' hm =>
      cases s with
      | positive =>
          cases h
          exact .inr ⟨hm, rfl⟩
      | negative => cases h

/-- An integer times a power of two is at least that power. -/
theorem exponent_lt {k : Int} (hm : 0 < m) (h : (m : ℚ) * 2 ^ e < 2 ^ k) : e < k := by
  have hmq : (1 : ℚ) ≤ m := by exact_mod_cast hm
  rw [← zpow_lt_zpow_iff_right₀ (one_lt_two (α := ℚ))]
  calc (2 : ℚ) ^ e = 1 * 2 ^ e := (one_mul _).symm
    _ ≤ m * 2 ^ e := by gcongr
    _ < 2 ^ k := h

end decoding

/-! ### Products -/

section products

variable {x y : Float} {m m' : Nat} {e e' : Int}

theorem le_target_mul (h : (Exact.finite false m e).Normal) (hm : 0 < m) (hm' : 0 < m')
    (he' : e' ≤ 0) : e + e' ≤ target (m * m') (e + e') := by
  obtain ⟨-, -, hn⟩ := h
  refine le_target ?_
  rcases hn.resolve_left hm.ne' with rfl | hge
  · exact .inl (by omega)
  · exact .inr (hge.trans (Nat.le_mul_of_pos_right m hm'))

/-- The product with a number that is not too large is the rounded product of the values. -/
theorem exists_mul_eq (hx : Exact.ofFloat x = .finite false m e)
    (hy : Exact.ofFloat y = .finite false m' e') (hm : 0 < m) (hm' : 0 < m') (he' : e' ≤ 0)
    (hlt : roundedValue (m * m') (e + e') .exact < 2 ^ (971 : Int)) : ∃ fm fe,
      Exact.ofFloat (x * y) = .finite false fm fe ∧
        (fm : ℚ) * 2 ^ fe = roundedValue (m * m') (e + e') .exact := by
  obtain ⟨hm₁, hux⟩ := (unpacked_eq hx).resolve_left fun h => hm.ne' h.2
  obtain ⟨hm₂, huy⟩ := (unpacked_eq hy).resolve_left fun h => hm'.ne' h.2
  have htarget := le_target_mul (hx ▸ normal_ofFloat x) hm hm' he'
  obtain ⟨fm, fe, hround, hnormal, hvalue⟩ :=
    exists_roundWithAccuracy .exact .positive (Nat.mul_pos hm hm') htarget
  refine ⟨fm, fe, ?_, hvalue⟩
  have hproduct : x * y = .ofModel (.pack (UnpackedFloat.mul Format.binary64 x.toModel.unpack
    y.toModel.unpack)) := rfl
  rw [hproduct, hux, huy]
  exact ofFloat_pack hround hnormal fun hfm => (exponent_lt hfm (hvalue.trans_lt hlt)).le

/-- The product with one has the same value. -/
theorem exists_mul_one (hx : Exact.ofFloat x = .finite false m e)
    (hy : Exact.ofFloat y = .finite false (2 ^ 52) (-52)) (hm : 0 < m)
    (hlt : (m : ℚ) * 2 ^ e < 2 ^ (971 : Int)) : ∃ fm fe,
      Exact.ofFloat (x * y) = .finite false fm fe ∧ (fm : ℚ) * 2 ^ fe = m * 2 ^ e := by
  have hnormal : (Exact.finite false m e).Normal := hx ▸ normal_ofFloat x
  have hsame : roundedValue (m * 2 ^ 52) (e + -52) .exact = m * 2 ^ e := by
    have htarget : e + -52 ≤ target (m * 2 ^ 52) (e + -52) :=
      le_target_mul hnormal hm (by decide) (by decide)
    refine roundedValue_eq (by omega) htarget hnormal ?_
    rw [zpow_add₀ two_ne_zero]
    push_cast
    norm_num
    ring
  rw [← hsame] at hlt ⊢
  exact exists_mul_eq hx hy hm (by decide) (by decide) hlt

/-- **A product** with a proportion is not greater than the other factor. -/
theorem exists_mul_le (hx : Exact.ofFloat x = .finite false m e) (hx' : (m : ℚ) * 2 ^ e ≤ 1)
    (hy : Proportion y) : ∃ fm fe,
      Exact.ofFloat (x * y) = .finite false fm fe ∧ (fm : ℚ) * 2 ^ fe ≤ m * 2 ^ e := by
  obtain ⟨m', e', hy, hle⟩ := hy
  by_cases hzero : m = 0 ∨ m' = 0
  · have hproduct : UnpackedFloat.mul Format.binary64 x.toModel.unpack y.toModel.unpack =
        .zero .positive := by
      rcases unpacked_eq hx with ⟨hux, -⟩ | ⟨hm, hux⟩ <;>
        rcases unpacked_eq hy with ⟨huy, -⟩ | ⟨hm', huy⟩ <;> rw [hux, huy]
      · rfl
      · rfl
      · rfl
      · omega
    refine ⟨0, 0, ?_, by simp; positivity⟩
    change Exact.ofFloat (.ofModel (.pack (UnpackedFloat.mul Format.binary64 x.toModel.unpack
      y.toModel.unpack))) = _
    rw [hproduct]
    rfl
  · obtain ⟨hm, hm'⟩ : 0 < m ∧ 0 < m' := by omega
    have hnormal : (Exact.finite false m e).Normal := hx ▸ normal_ofFloat x
    have he' : e' < 1 := exponent_lt hm' (hle.trans_lt (by norm_num))
    have hbound : roundedValue (m * m') (e + e') .exact ≤ m * 2 ^ e := by
      refine roundedValue_le (Nat.mul_pos hm hm') (le_target_mul hnormal hm hm' (by omega))
        hnormal ?_
      have hdigits : digits (.ofMantissaAndAccuracy (m * m') .exact) = 4 * (m * m') := by
        simp [digits, ExtendedMantissa.ofMantissaAndAccuracy]
      rw [hdigits, zpow_add₀ two_ne_zero]
      push_cast
      calc (4 * ((m : ℚ) * m')) * (2 ^ e * 2 ^ e') = 4 * (m * 2 ^ e) * (m' * 2 ^ e') := by ring
        _ ≤ 4 * (m * 2 ^ e) * 1 := by gcongr
        _ = 4 * (m * 2 ^ e) := mul_one _
    obtain ⟨fm, fe, hxy, hvalue⟩ := exists_mul_eq hx hy hm hm' (by omega)
      ((hbound.trans hx').trans_lt (one_lt_zpow₀ one_lt_two (by decide)))
    exact ⟨fm, fe, hxy, hvalue.trans_le hbound⟩

end products

/-! ### Whole numbers -/

/-- The number that a whole number is converted to. -/
def nearest (n : Nat) : ℚ := roundedValue (n * 2 ^ 53) (-53) .exact

section whole

variable {n n' : Nat}

theorem le_target_whole (hn : 0 < n) : -53 ≤ target (n * 2 ^ 53) (-53) :=
  le_target (.inr (by omega))

theorem nearest_mono (hn : 0 < n) (h : n ≤ n') : nearest n ≤ nearest n' :=
  roundedValue_mono (by omega) (Nat.mul_le_mul_right _ h) (le_target_whole hn)

/-- A whole number of at most 53 digits in normal form. -/
theorem exists_normal_eq (hn : 0 < n) (h : n < 2 ^ 53) : ∃ j : Nat, j ≤ 52 ∧
    n.log2 + j = 52 ∧ (Exact.finite false (n * 2 ^ j) (-j)).Normal := by
  have hlog : n.log2 < 53 := (Nat.log2_lt hn.ne').2 h
  refine ⟨52 - n.log2, by omega, by omega, ?_, by omega, .inr (.inr ?_)⟩
  · have hpow : 2 ^ 53 = 2 ^ (n.log2 + 1) * 2 ^ (52 - n.log2) := by
      rw [← pow_add]
      congr 1
      omega
    rw [hpow]
    have hlt : n < 2 ^ (n.log2 + 1) := Nat.lt_log2_self
    gcongr
  · have hpow : 2 ^ 52 = 2 ^ n.log2 * 2 ^ (52 - n.log2) := by
      rw [← pow_add]
      congr 1
      omega
    rw [hpow]
    have hle : 2 ^ n.log2 ≤ n := Nat.log2_self_le hn.ne'
    gcongr

theorem nearest_of_lt (hn : 0 < n) (h : n < 2 ^ 53) : nearest n = n := by
  obtain ⟨j, -, -, hnormal⟩ := exists_normal_eq hn h
  have hvalue : ((n * 2 ^ j : Nat) : ℚ) * 2 ^ (-(j : Int)) = n := scaled_eq_iff.2 rfl
  have hscaled : ((n * 2 ^ 53 : Nat) : ℚ) * 2 ^ (-53 : Int) = n := (scaled_eq_iff (j := 53)).2 rfl
  rw [nearest, roundedValue_eq (by omega) (le_target_whole hn) hnormal (hscaled.trans hvalue.symm),
    hvalue]

theorem one_le_nearest (hn : 0 < n) : 1 ≤ nearest n := by
  rw [← Nat.cast_one, ← nearest_of_lt Nat.one_pos (by decide)]
  exact nearest_mono Nat.one_pos hn

theorem nearest_le (hn : 0 < n) (h : n ≤ 2 ^ 65) : nearest n ≤ 2 ^ 65 := by
  have hbound : ((2 ^ 52 : Nat) : ℚ) * 2 ^ (13 : Int) = 2 ^ 65 := by norm_num
  rw [nearest, ← hbound]
  refine roundedValue_le (by omega) (le_target_whole hn)
    ⟨by decide, by decide, .inr (.inr (Nat.le_refl _))⟩ ?_
  have hdigits : digits (.ofMantissaAndAccuracy (n * 2 ^ 53) .exact) = 4 * (n * 2 ^ 53) := by
    simp [digits, ExtendedMantissa.ofMantissaAndAccuracy]
  have hscaled : ((n * 2 ^ 53 : Nat) : ℚ) * 2 ^ (-53 : Int) = n := (scaled_eq_iff (j := 53)).2 rfl
  have hq : (n : ℚ) ≤ 2 ^ 65 := by exact_mod_cast h
  rw [hdigits, hbound, Nat.cast_mul, mul_assoc, hscaled]
  push_cast
  gcongr

/-- The conversion of a whole number that is stored as it is. -/
theorem exists_toFloat (hn : 0 < n) (h : n < 2 ^ 53) :
    ∃ m e, Exact.ofFloat n.toUInt64.toFloat = .finite false m e ∧ (m : ℚ) * 2 ^ e = n := by
  obtain ⟨j, hj, hlog, hnormal⟩ := exists_normal_eq hn h
  have hscaled : ((n * 2 ^ j : Nat) : ℚ) * 2 ^ (-(j : Int)) = n := scaled_eq_iff.2 rfl
  have hpos : 0 < n * 2 ^ j := Nat.mul_pos hn (Nat.two_pow_pos j)
  have htarget : -(j : Int) ≤ target (n * 2 ^ j) (-j) :=
    le_target (hnormal.2.2.resolve_left hpos.ne' |>.imp_left le_of_eq)
  obtain ⟨fm, fe, hround, hnormal', hvalue⟩ :=
    exists_roundWithAccuracy .exact .positive hpos htarget
  rw [roundedValue_eq hpos htarget hnormal rfl, hscaled] at hvalue
  refine ⟨fm, fe, ?_, hvalue⟩
  have hshift : (0 - target n 0).toNat = j ∧ 0 - ((0 - target n 0).toNat : Int) = -j := by
    rw [target]
    omega
  have hconvert : n.toUInt64.toFloat =
      .ofModel (.pack (UnpackedFloat.roundWithAccuracy Format.binary64 .positive (n * 2 ^ j) (-j)
        .exact)) := by
    have hnat : n.toUInt64.toNat = n := UInt64.toNat_ofNat_of_lt' (by unfold UInt64.size; omega)
    have hcompare : compare (n : Int) 0 = .gt := Std.compare_eq_gt.2 (by omega)
    change Float.ofModel (.pack (UnpackedFloat.normalize Format.binary64 (n.toUInt64.toNat : Int) 0
      .positive)) = _
    rw [hnat, UnpackedFloat.normalize, hcompare]
    change Float.ofModel (.pack (UnpackedFloat.roundWithAccuracy Format.binary64 .positive
      (n <<< (0 - target n 0).toNat) (0 - ((0 - target n 0).toNat : Int)) .exact)) = _
    rw [hshift.2, hshift.1, Nat.shiftLeft_eq]
  rw [hconvert]
  refine ofFloat_pack hround hnormal' fun hfm => ?_
  have hlt : (fm : ℚ) * 2 ^ fe < 2 ^ (53 : Int) := by
    rw [hvalue]
    exact_mod_cast h
  have := exponent_lt hfm hlt
  omega

/-- **Whole numbers** are converted to the nearest floating-point number. -/
theorem exists_ofNat (hn : 0 < n) (h : n < 2 ^ 65) :
    ∃ m e, Exact.ofFloat (Float.ofNat n) = .finite false m e ∧ (m : ℚ) * 2 ^ e = nearest n := by
  rcases Nat.lt_or_ge n (2 ^ 53) with hsmall | hlarge
  · -- multiplied by one
    obtain ⟨m, e, hx, hvalue⟩ := exists_toFloat hn hsmall
    have hone : Exact.ofFloat Float.exactlyRepresentablePowersOfTen[0] =
        .finite false (2 ^ 52) (-52) := by decide
    have hproduct : Float.ofNat n =
        n.toUInt64.toFloat * Float.exactlyRepresentablePowersOfTen[0] :=
      dif_pos ⟨hsmall, by decide⟩
    have hm : 0 < m := by
      rcases Nat.eq_zero_or_pos m with rfl | hm
      · have hnq : (0 : ℚ) < n := by exact_mod_cast hn
        simp [← hvalue] at hnq
      · exact hm
    have hlt : (m : ℚ) * 2 ^ e < 2 ^ (971 : Int) := by
      rw [hvalue]
      calc (n : ℚ) < 2 ^ (53 : Int) := by exact_mod_cast hsmall
        _ < 2 ^ (971 : Int) := zpow_lt_zpow_right₀ one_lt_two (by decide)
    obtain ⟨fm, fe, hxy, hvalue'⟩ := exists_mul_one hx hone hm hlt
    rw [hproduct]
    exact ⟨fm, fe, hxy, by rw [hvalue', hvalue, nearest_of_lt hn hsmall]⟩
  · obtain ⟨fm, fe, hround, hnormal, hvalue⟩ := exists_roundWithAccuracy .exact
      .positive (by omega : 0 < n * 2 ^ 53) (le_target_whole hn)
    have hconvert : Float.ofNat n = .ofModel (.pack (UnpackedFloat.roundWithAccuracy
        Format.binary64 .positive (n * 2 ^ 53) (-53) .exact)) := by
      have hscientific : Float.ofNat n = .ofModel (.pack
          (UnpackedFloat.ofScientific Format.binary64 n 0)) := dif_neg fun h => by omega
      have hrange : (0 : Int) ≤ 2 ^ Format.binary64.exponentBits := by positivity
      rw [hscientific, UnpackedFloat.ofScientific, dif_neg hn.ne', if_neg (by decide),
        if_neg (by omega), if_pos (by decide)]
      change Float.ofModel (.pack (UnpackedFloat.roundWithAccuracy Format.binary64 .positive
        ((n <<< 53) * 1) (-53) .exact)) = _
      rw [Nat.mul_one, Nat.shiftLeft_eq]
    refine ⟨fm, fe, ?_, hvalue⟩
    rw [hconvert]
    refine ofFloat_pack hround hnormal fun hfm => ?_
    have hlt : (fm : ℚ) * 2 ^ fe < 2 ^ (66 : Int) := by
      calc (fm : ℚ) * 2 ^ fe = nearest n := hvalue
        _ ≤ 2 ^ 65 := nearest_le hn h.le
        _ < 2 ^ (66 : Int) := by norm_num
    have := exponent_lt hfm hlt
    omega

end whole

/-! ### Parts of a whole -/

section parts

variable {m m' : Nat} {e e' : Int} {x y : Float}

/-- A number from 1 up has all its digits. -/
theorem full_of_one_le (h : (Exact.finite false m e).Normal) (hle : (1 : ℚ) ≤ m * 2 ^ e) :
    2 ^ 52 ≤ m ∧ m < 2 ^ 53 := by
  obtain ⟨hm, -, hn⟩ := h
  refine ⟨?_, hm⟩
  rcases hn with rfl | rfl | hge
  · norm_num at hle
  · have hmq : (m : ℚ) < 2 ^ (53 : Int) := by exact_mod_cast hm
    have hlt : (m : ℚ) * 2 ^ (-1074 : Int) < 1 := by
      calc (m : ℚ) * 2 ^ (-1074 : Int) < 2 ^ (53 : Int) * 2 ^ (-1074 : Int) := by gcongr
        _ = 2 ^ (-1021 : Int) := by rw [← zpow_add₀ two_ne_zero]; norm_num
        _ ≤ 1 := zpow_le_one_of_nonpos₀ one_le_two (by decide)
    exact absurd hle hlt.not_ge
  · exact hge

/-- The quotient of mantissas with its remainder is at most a bound on the quotient. -/
theorem digits_quotient_le {a b c : Nat} (h : a ≤ b * c) :
    digits (.ofMantissaAndAccuracy (a / b) (UnpackedFloat.accuracyOfFraction (a % b) b)) ≤
      4 * c := by
  have hdiv := Nat.div_add_mod a b
  rcases Nat.eq_zero_or_pos (a % b) with hrest | hrest
  · have hle : a / b ≤ c := Nat.div_le_of_le_mul h
    rw [hrest]
    simp [UnpackedFloat.accuracyOfFraction, digits, ExtendedMantissa.ofMantissaAndAccuracy, hle]
  · have hlt : a / b < c := Nat.lt_of_mul_lt_mul_left (by omega : b * (a / b) < b * c)
    refine (digits_ofMantissaAndAccuracy _ _).trans ?_
    omega

/-- A quotient of mantissas that is at most a power of two is at most 1 at its exponent. -/
theorem roundedValue_quotient_le {a b j : Nat} (h : a ≤ b * 2 ^ j) (hq : 2 ^ 52 ≤ a / b) :
    roundedValue (a / b) (-(j : Int)) (UnpackedFloat.accuracyOfFraction (a % b) b) ≤ 1 := by
  have hone : ((2 ^ 52 : Nat) : ℚ) * 2 ^ (-52 : Int) = 1 := by norm_num
  have hpow : ((2 ^ j : Nat) : ℚ) * 2 ^ (-(j : Int)) = 1 := by
    rw [zpow_neg, zpow_natCast]
    push_cast
    exact mul_inv_cancel₀ (by positivity)
  have hdigits := digits_quotient_le h
  rw [← hone]
  refine roundedValue_le (by omega) (le_target (.inr hq))
    ⟨by decide, by decide, .inr (.inr (Nat.le_refl _))⟩ ?_
  calc (digits (.ofMantissaAndAccuracy (a / b)
          (UnpackedFloat.accuracyOfFraction (a % b) b)) : ℚ) * 2 ^ (-(j : Int))
      ≤ ((4 * 2 ^ j : Nat) : ℚ) * 2 ^ (-(j : Int)) := by gcongr
    _ = 4 * (((2 ^ j : Nat) : ℚ) * 2 ^ (-(j : Int))) := by push_cast; ring
    _ = 4 * (((2 ^ 52 : Nat) : ℚ) * 2 ^ (-52 : Int)) := by rw [hpow, hone]

/-- The quotient of mantissas with all their digits has 53 binary places more than the difference
of the exponents. -/
theorem divCore_eq {k : Nat} (hm : m.log2 = 52) (hm' : m'.log2 = 52) (hk : k ≤ 1000) :
    UnpackedFloat.divCore Format.binary64 m e m' (e + k) = (m * 2 ^ 53 / m',
      -((53 + k : Nat) : Int), UnpackedFloat.accuracyOfFraction (m * 2 ^ 53 % m') m') := by
  have hexponent : Format.binary64.targetExponent (Float.Model.totalExponent m e -
      Float.Model.totalExponent m' (e + k)) = -((53 + k : Nat) : Int) := by
    change max (m.log2 + 1 + e - (m'.log2 + 1 + (e + k)) - 53 : Int) (-1074) = _
    omega
  have hleast : min (e - (e + k)) (-((53 + k : Nat) : Int)) = -((53 + k : Nat) : Int) := by omega
  have hshift : (e - (e + k) - -((53 + k : Nat) : Int)).toNat = 53 := by omega
  simp only [UnpackedFloat.divCore, hexponent, hleast, hshift, Nat.shiftLeft_eq]

/-- **A quotient** of numbers with all their digits is a proportion unless it exceeds 1. -/
theorem proportion_div_of_le (hx : Exact.ofFloat x = .finite false m e)
    (hy : Exact.ofFloat y = .finite false m' e') (hm : 2 ^ 52 ≤ m) (hm' : 2 ^ 52 ≤ m')
    (hle : (m : ℚ) * 2 ^ e ≤ m' * 2 ^ e') (hmin : e' ≤ e + 1000) : Proportion (x / y) := by
  have hnormal : (Exact.finite false m e).Normal := hx ▸ normal_ofFloat x
  have hnormal' : (Exact.finite false m' e').Normal := hy ▸ normal_ofFloat y
  obtain ⟨hpos, hux⟩ := (unpacked_eq hx).resolve_left fun h => by omega
  obtain ⟨hpos', huy⟩ := (unpacked_eq hy).resolve_left fun h => by omega
  have hlog : m.log2 = 52 := (Nat.log2_eq_iff hpos.ne').2 ⟨hm, hnormal.1⟩
  have hlog' : m'.log2 = 52 := (Nat.log2_eq_iff hpos'.ne').2 ⟨hm', hnormal'.1⟩
  obtain ⟨k, rfl⟩ : ∃ k : Nat, e' = e + k := by
    have htarget := target_le hpos hle hnormal'
    have := le_target (e := e) (.inr hm)
    exact ⟨(e' - e).toNat, by omega⟩
  have hmk : m ≤ m' * 2 ^ k := by
    have hpow : (0 : ℚ) < 2 ^ e := by positivity
    rw [zpow_add₀ two_ne_zero, zpow_natCast] at hle
    have hcast : (m : ℚ) ≤ m' * 2 ^ k := le_of_mul_le_mul_right (hle.trans_eq (by ring)) hpow
    exact_mod_cast hcast
  have hscaled : m * 2 ^ 53 ≤ m' * 2 ^ (53 + k) := by
    calc m * 2 ^ 53 ≤ m' * 2 ^ k * 2 ^ 53 := Nat.mul_le_mul_right _ hmk
      _ = m' * 2 ^ (53 + k) := by ring
  have hq : 2 ^ 52 ≤ m * 2 ^ 53 / m' := by
    have := hnormal'.1
    rw [Nat.le_div_iff_mul_le hpos']
    omega
  obtain ⟨fm, fe, hround, hnormalq, hvalue⟩ := exists_roundWithAccuracy
    (UnpackedFloat.accuracyOfFraction (m * 2 ^ 53 % m') m') .positive
    (by omega : 0 < m * 2 ^ 53 / m') (le_target (e := -((53 + k : Nat) : Int)) (.inr hq))
  have hone : (fm : ℚ) * 2 ^ fe ≤ 1 := hvalue.trans_le (roundedValue_quotient_le hscaled hq)
  refine ⟨fm, fe, ?_, hone⟩
  have hquotient : x / y = .ofModel (.pack (UnpackedFloat.div Format.binary64 x.toModel.unpack
    y.toModel.unpack)) := rfl
  have hdiv : UnpackedFloat.div Format.binary64 (.finite .positive m e hpos)
      (.finite .positive m' (e + k) hpos') =
        let (q, i, accuracy) := UnpackedFloat.divCore Format.binary64 m e m' (e + k)
        UnpackedFloat.roundWithAccuracy Format.binary64 .positive q i accuracy := rfl
  rw [hquotient, hux, huy, hdiv, divCore_eq hlog hlog' (by omega)]
  refine ofFloat_pack hround hnormalq fun hfm => ?_
  have := exponent_lt (k := 1) hfm (hone.trans_lt (by norm_num))
  omega

end parts

/-- **A part of a whole number** is a proportion of it. -/
theorem proportion_div {a b : Nat} (h : a ≤ b) (hb : 0 < b) (hb' : b < 2 ^ 65) :
    Proportion (Float.ofNat a / Float.ofNat b) := by
  obtain ⟨m', e', hy, hvalue'⟩ := exists_ofNat hb hb'
  have hfull' := full_of_one_le (hy ▸ normal_ofFloat _) (hvalue' ▸ one_le_nearest hb)
  rcases Nat.eq_zero_or_pos a with rfl | ha
  · obtain ⟨hpos, huy⟩ := (unpacked_eq hy).resolve_left fun h => by omega
    have hux : (Float.ofNat 0).toModel.unpack = .zero .positive := rfl
    refine ⟨0, 0, ?_, by simp⟩
    change Exact.ofFloat (.ofModel (.pack (UnpackedFloat.div Format.binary64
      (Float.ofNat 0).toModel.unpack (Float.ofNat b).toModel.unpack))) = _
    have hzero : UnpackedFloat.div Format.binary64 (.zero .positive)
        (.finite .positive m' e' hpos) = .zero .positive := rfl
    rw [hux, huy, hzero]
    rfl
  · obtain ⟨m, e, hx, hvalue⟩ := exists_ofNat ha (by omega)
    have hfull := full_of_one_le (hx ▸ normal_ofFloat _) (hvalue ▸ one_le_nearest ha)
    have hle : (m : ℚ) * 2 ^ e ≤ m' * 2 ^ e' := by
      rw [hvalue, hvalue']
      exact nearest_mono ha h
    have hlow : -53 < e := by
      have hmq : (m : ℚ) < 2 ^ (53 : Int) := by exact_mod_cast hfull.2
      have hlt : (2 : ℚ) ^ (0 : Int) < 2 ^ (53 + e) := by
        calc (2 : ℚ) ^ (0 : Int) = 1 := zpow_zero 2
          _ ≤ m * 2 ^ e := hvalue ▸ one_le_nearest ha
          _ < 2 ^ (53 : Int) * 2 ^ e := by gcongr
          _ = 2 ^ (53 + e) := (zpow_add₀ two_ne_zero _ _).symm
      have := (zpow_lt_zpow_iff_right₀ one_lt_two).1 hlt
      omega
    have hhigh : e' < 66 := by
      refine exponent_lt (m := m') (by omega) ?_
      calc (m' : ℚ) * 2 ^ e' = nearest b := hvalue'
        _ ≤ 2 ^ 65 := nearest_le hb hb'.le
        _ < 2 ^ (66 : Int) := by norm_num
    exact proportion_div_of_le hx hy hfull.1 hfull'.1 hle (by omega)

theorem proportion_half : Proportion 0.5 :=
  ⟨2 ^ 52, -53, by decide, by norm_num⟩

theorem proportion_one : Proportion 1 :=
  ⟨2 ^ 52, -52, by decide, by norm_num⟩

/-! ### Order -/

namespace Proportion

variable {x y : Float}

theorem exists_value? (hx : Proportion x) : ∃ p, value? x = some p ∧ 0 ≤ p ∧ p ≤ 1 := by
  obtain ⟨m, e, hx, hle⟩ := hx
  exact ⟨m * 2 ^ e, by rw [value?, hx]; rfl, by positivity, hle⟩

theorem zero_le (hx : Proportion x) : 0 ≤ x := by
  obtain ⟨p, hp, hpos, -⟩ := hx.exists_value?
  exact (le_iff_of_value? value?_zero hp).2 hpos

theorem le_one (hx : Proportion x) : x ≤ 1 := by
  obtain ⟨p, hp, -, hle⟩ := hx.exists_value?
  have hone : value? 1 = some 1 := by
    have hfloat : Exact.ofFloat 1 = .finite false (2 ^ 52) (-52) := by decide
    rw [value?, hfloat, Exact.value?]
    norm_num
  exact (le_iff_of_value? hp hone).2 hle

/-- **The product** of proportions is a proportion, and not greater than the first one. -/
theorem mul (hx : Proportion x) (hy : Proportion y) : Proportion (x * y) ∧ x * y ≤ x := by
  obtain ⟨m, e, hx, hle⟩ := hx
  obtain ⟨fm, fe, hxy, hbound⟩ := exists_mul_le hx hle hy
  have hp : value? (x * y) = some ((fm : ℚ) * 2 ^ fe) := by rw [value?, hxy]; rfl
  have hq : value? x = some ((m : ℚ) * 2 ^ e) := by rw [value?, hx]; rfl
  exact ⟨⟨fm, fe, hxy, hbound.trans hle⟩, (le_iff_of_value? hp hq).2 hbound⟩

end Proportion

end TreeCode
