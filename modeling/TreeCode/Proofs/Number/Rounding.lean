import TreeCode.Proofs.Number.Integer

/-! # Rounding

A result with too many digits is shifted to the exponent that leaves 53 of them, and the two digits
and the rest that were dropped decide whether the mantissa is increased. Rounding is monotone in
what was there before (`rounded_shift_mono`, `roundedValue_mono`), so a result never exceeds a bound
that is itself a floating-point number (`roundedValue_le`), and such a number is not changed at all
(`roundedValue_eq`). -/

namespace TreeCode

open Float.Model (UnpackedFloat Format)
open Float.Model.UnpackedFloat (ExtendedMantissa Accuracy)

/-! ### Shifting and rounding mantissas -/

/-- The mantissa with its next binary digit, and with a last one for all the others. -/
def digits (em : ExtendedMantissa) : Nat :=
  4 * em.mantissa + 2 * em.roundBit.toNat + em.stickyBit.toNat

section shifting

variable {em em' : ExtendedMantissa} {m n k : Nat}

theorem shift_zero (em : ExtendedMantissa) : em >>> 0 = em := rfl

theorem shift_succ (em : ExtendedMantissa) (k : Nat) :
    em >>> (k + 1) = (em >>> k).shiftRightOne := rfl

theorem digits_shiftRightOne (em : ExtendedMantissa) :
    digits em.shiftRightOne = 2 * em.mantissa + (em.roundBit || em.stickyBit).toNat := by
  have hbit : (em.mantissa % 2 != 0).toNat = em.mantissa % 2 := by
    rcases Nat.mod_two_eq_zero_or_one em.mantissa with h | h <;> simp [h]
  simp only [digits, ExtendedMantissa.shiftRightOne, hbit]
  omega

theorem digits_shift_mono (h : digits em ≤ digits em') (k : Nat) :
    digits (em >>> k) ≤ digits (em' >>> k) := by
  induction k with
  | zero => exact h
  | succ k ih =>
      rw [shift_succ, shift_succ, digits_shiftRightOne, digits_shiftRightOne]
      generalize em >>> k = a at ih
      generalize em' >>> k = b at ih
      rw [digits, digits] at ih
      rcases a with ⟨m, _ | _, _ | _⟩ <;> rcases b with ⟨m', _ | _, _ | _⟩ <;>
        simp at ih ⊢ <;> omega

theorem rounded_mono (h : digits em ≤ digits em') : em.roundedMantissa ≤ em'.roundedMantissa := by
  rw [digits, digits] at h
  rcases em with ⟨m, _ | _, _ | _⟩ <;> rcases em' with ⟨m', _ | _, _ | _⟩ <;>
    simp [ExtendedMantissa.roundedMantissa, ExtendedMantissa.accuracy,
      Accuracy.roundToNearestEven] at h ⊢ <;> omega

/-- **Rounding is monotone.** -/
theorem rounded_shift_mono (h : digits em ≤ digits em') (k : Nat) :
    (em >>> k).roundedMantissa ≤ (em' >>> k).roundedMantissa :=
  rounded_mono (digits_shift_mono h k)

/-- Zeros are dropped without a trace. -/
theorem shift_exact (m k : Nat) :
    (⟨m * 2 ^ k, false, false⟩ : ExtendedMantissa) >>> k = ⟨m, false, false⟩ := by
  induction k generalizing m with
  | zero => rw [pow_zero, Nat.mul_one, shift_zero]
  | succ k ih =>
      have hm : m * 2 ^ (k + 1) = m * 2 * 2 ^ k := by ring
      rw [shift_succ, hm, ih]
      simp [ExtendedMantissa.shiftRightOne]

theorem mantissa_shift (em : ExtendedMantissa) (k : Nat) :
    (em >>> k).mantissa = em.mantissa / 2 ^ k := by
  induction k with
  | zero => rw [pow_zero, Nat.div_one, shift_zero]
  | succ k ih =>
      rw [shift_succ, ExtendedMantissa.shiftRightOne, ih, Nat.div_div_eq_div_mul, ← pow_succ]

theorem mantissa_le_rounded (em : ExtendedMantissa) : em.mantissa ≤ em.roundedMantissa := by
  rcases em with ⟨m, _ | _, _ | _⟩ <;>
    simp [ExtendedMantissa.roundedMantissa, ExtendedMantissa.accuracy, Accuracy.roundToNearestEven]

theorem rounded_le_succ (em : ExtendedMantissa) : em.roundedMantissa ≤ em.mantissa + 1 := by
  rcases em with ⟨m, _ | _, _ | _⟩ <;>
    simp [ExtendedMantissa.roundedMantissa, ExtendedMantissa.accuracy, Accuracy.roundToNearestEven]
  omega

theorem rounded_exact (m : Nat) : (⟨m, false, false⟩ : ExtendedMantissa).roundedMantissa = m := rfl

theorem mantissa_ofMantissaAndAccuracy (m : Nat) (accuracy : Accuracy) :
    (ExtendedMantissa.ofMantissaAndAccuracy m accuracy).mantissa = m := by
  rcases accuracy with _ | _ | _ | _ <;> rfl

theorem digits_ofMantissaAndAccuracy (m : Nat) (accuracy : Accuracy) :
    digits (.ofMantissaAndAccuracy m accuracy) ≤ 4 * m + 3 := by
  rcases accuracy with _ | _ | _ | _ <;> simp [ExtendedMantissa.ofMantissaAndAccuracy, digits]

end shifting

/-! ### Rounding numbers -/

/-- The exponent at which a number with this mantissa and exponent is rounded. -/
def target (m : Nat) (e : Int) : Int := max (m.log2 + 1 + e - 53) (-1074)

/-- The mantissa after rounding at the exponent `target m e`. -/
def roundedAt (m : Nat) (e : Int) (accuracy : Accuracy) : Nat :=
  (ExtendedMantissa.ofMantissaAndAccuracy m accuracy >>> (target m e - e).toNat).roundedMantissa

/-- The value after rounding. -/
def roundedValue (m : Nat) (e : Int) (accuracy : Accuracy) : ℚ :=
  roundedAt m e accuracy * 2 ^ target m e

section rounding

variable {m m' : Nat} {e e' : Int} {accuracy : Accuracy}

/-- A mantissa with enough digits is only shifted down. -/
theorem le_target (h : e ≤ -1074 ∨ 2 ^ 52 ≤ m) : e ≤ target m e := by
  rw [target]
  rcases h with h | h
  · omega
  · have hlog : 52 ≤ m.log2 := by rwa [Nat.le_log2 (by omega)]
    omega

theorem lt_two_pow_target (he : e ≤ target m e) : m < 2 ^ (53 + (target m e - e).toNat) := by
  have hlog : m < 2 ^ (m.log2 + 1) := Nat.lt_log2_self
  refine hlog.trans_le (Nat.pow_le_pow_right (by decide) ?_)
  rw [target] at he ⊢
  omega

/-- All 53 digits are used unless the exponent is the least one. -/
theorem target_cases (hm : 0 < m) (he : e ≤ target m e) :
    target m e = -1074 ∨ 2 ^ 52 * 2 ^ (target m e - e).toNat ≤ m := by
  rcases eq_or_ne (target m e) (-1074) with h | h
  · exact .inl h
  · have hlog : 2 ^ m.log2 ≤ m := Nat.log2_self_le hm.ne'
    refine .inr (le_trans ?_ hlog)
    rw [← pow_add]
    refine Nat.pow_le_pow_right (by decide) ?_
    rw [target] at he h ⊢
    omega

theorem roundedAt_le (he : e ≤ target m e) : roundedAt m e accuracy ≤ 2 ^ 53 := by
  refine (rounded_le_succ _).trans ?_
  rw [mantissa_shift, mantissa_ofMantissaAndAccuracy]
  have hlt := lt_two_pow_target he
  rw [pow_add] at hlt
  exact Nat.div_lt_of_lt_mul (by rwa [Nat.mul_comm])

theorem le_roundedAt (h : 2 ^ 52 * 2 ^ (target m e - e).toNat ≤ m) :
    2 ^ 52 ≤ roundedAt m e accuracy := by
  refine le_trans ?_ (mantissa_le_rounded _)
  rw [mantissa_shift, mantissa_ofMantissaAndAccuracy]
  exact (Nat.le_div_iff_mul_le (Nat.two_pow_pos _)).2 h

theorem shiftToTargetExponent_eq (m : Nat) (e : Int) (accuracy : Accuracy) :
    UnpackedFloat.shiftToTargetExponent Format.binary64 m e accuracy =
      (ExtendedMantissa.ofMantissaAndAccuracy m accuracy >>> (target m e - e).toNat,
        e + (target m e - e).toNat) := rfl

/-- Rounding up to 54 digits leaves a zero to be dropped. -/
theorem shift_rounded {r : Nat} (hr : r ≤ 2 ^ 53) (he : -1074 ≤ e)
    (hn : e = -1074 ∨ 2 ^ 52 ≤ r) : ∃ fm fe,
      UnpackedFloat.shiftToTargetExponent Format.binary64 r e .exact = (⟨fm, false, false⟩, fe) ∧
        (fm < 2 ^ 53 ∧ -1074 ≤ fe ∧ (fm = 0 ∨ fe = -1074 ∨ 2 ^ 52 ≤ fm)) ∧
        (fm : ℚ) * 2 ^ fe = r * 2 ^ e := by
  rw [shiftToTargetExponent_eq]
  rcases Nat.lt_or_eq_of_le hr with hlt | rfl
  · have hlog : r.log2 < 53 := by
      rcases Nat.eq_zero_or_pos r with rfl | hpos
      · decide
      · exact (Nat.log2_lt hpos.ne').2 hlt
    have hzero : (target r e - e).toNat = 0 := by
      rw [target]
      omega
    rw [hzero]
    exact ⟨r, e, by rw [shift_zero]; simp [ExtendedMantissa.ofMantissaAndAccuracy],
      ⟨hlt, he, .inr hn⟩, rfl⟩
  · have hone : (target (2 ^ 53) e - e).toNat = 1 := by
      have hlog : (2 ^ 53 : Nat).log2 = 53 := Nat.log2_two_pow
      rw [target, hlog]
      omega
    rw [hone]
    refine ⟨2 ^ 52, e + 1, ?_, ⟨by decide, by omega, .inr (.inr (Nat.le_refl _))⟩, ?_⟩
    · have hshift : ExtendedMantissa.ofMantissaAndAccuracy (2 ^ 53) .exact >>> 1 =
          ⟨2 ^ 52, false, false⟩ := by
        rw [pow_succ 2 52]
        exact shift_exact (2 ^ 52) 1
      rw [hshift]
      rfl
    · rw [zpow_add₀ (by norm_num)]
      push_cast
      ring

/-- **Rounding** gives the rounded value in normal form. -/
theorem exists_roundWithAccuracy (accuracy : Accuracy) (s : UnpackedFloat.Sign) (hm : 0 < m)
    (he : e ≤ target m e) :
    ∃ fm fe, Exact.ofUnpacked
        (UnpackedFloat.roundWithAccuracy Format.binary64 s m e accuracy) =
        .finite (Exact.isNegative s) fm fe ∧
      (Exact.finite (Exact.isNegative s) fm fe).Normal ∧
      (fm : ℚ) * 2 ^ fe = roundedValue m e accuracy := by
  have hexponent : e + (target m e - e).toNat = target m e := by omega
  have hn : target m e = -1074 ∨ 2 ^ 52 ≤ roundedAt m e accuracy :=
    (target_cases hm he).imp_right le_roundedAt
  have hle : roundedAt m e accuracy ≤ 2 ^ 53 := roundedAt_le he
  obtain ⟨fm, fe, hshift, hnormal, hvalue⟩ :=
    shift_rounded (e := target m e) hle (le_max_right _ _) hn
  unfold UnpackedFloat.roundWithAccuracy
  rw [shiftToTargetExponent_eq, hexponent]
  dsimp only
  rw [← roundedAt, hshift]
  dsimp only
  by_cases hzero : fm = 0
  · rw [dif_pos hzero]
    refine ⟨0, 0, rfl, ⟨by decide, by decide, .inl rfl⟩, ?_⟩
    rw [roundedValue, ← hvalue, hzero]
    simp
  · rw [dif_neg hzero]
    exact ⟨fm, fe, rfl, hnormal, hvalue⟩

/-- A number is rounded at an exponent that is at most that of a greater one. -/
theorem target_le (hm : 0 < m) (h : (m : ℚ) * 2 ^ e ≤ m' * 2 ^ e')
    (h' : (Exact.finite false m' e').Normal) : target m e ≤ e' := by
  obtain ⟨hm', he', -⟩ := h'
  have hlog : ((2 ^ m.log2 : Nat) : ℚ) ≤ m := by exact_mod_cast Nat.log2_self_le hm.ne'
  have hm'q : (m' : ℚ) < 2 ^ 53 := by exact_mod_cast hm'
  have hpow : (2 : ℚ) ^ ((m.log2 : Int) + e) < 2 ^ ((53 : Int) + e') := by
    rw [zpow_add₀ two_ne_zero, zpow_add₀ two_ne_zero]
    push_cast at hlog
    calc (2 : ℚ) ^ (m.log2 : Int) * 2 ^ e ≤ m * 2 ^ e := by
          rw [zpow_natCast]
          gcongr
      _ ≤ m' * 2 ^ e' := h
      _ < 2 ^ 53 * 2 ^ e' := by gcongr
  have hlt := (zpow_lt_zpow_iff_right₀ one_lt_two).1 hpow
  rw [target]
  omega

/-- At the exponent of the rounding, a greater number that is in normal form is an integer. -/
theorem exists_multiple (hm : 0 < m) (he : e ≤ target m e) (h' : (Exact.finite false m' e').Normal)
    (h : (m : ℚ) * 2 ^ e ≤ m' * 2 ^ e') : ∃ k : Nat,
      (k : ℚ) * 2 ^ target m e = m' * 2 ^ e' ∧
        ((k * 2 ^ (target m e - e).toNat : Nat) : ℚ) * 2 ^ e = m' * 2 ^ e' := by
  have htarget := target_le hm h h'
  obtain ⟨i, hi⟩ : ∃ i : Nat, e' = target m e + i := ⟨(e' - target m e).toNat, by omega⟩
  obtain ⟨j, hj⟩ : ∃ j : Nat, target m e = e + j := ⟨(target m e - e).toNat, by omega⟩
  have hshift : (target m e - e).toNat = j := by omega
  have hpow : (2 : ℚ) ^ e' = 2 ^ i * 2 ^ target m e := by
    rw [hi, zpow_add₀ two_ne_zero, zpow_natCast, mul_comm]
  have hpow' : (2 : ℚ) ^ target m e = 2 ^ j * 2 ^ e := by
    rw [hj, zpow_add₀ two_ne_zero, zpow_natCast, mul_comm]
  refine ⟨m' * 2 ^ i, ?_, ?_⟩
  · push_cast
    rw [hpow]
    ring
  · rw [hshift, hpow, hpow']
    push_cast
    ring

/-- **A bound** that is in normal form is kept by rounding. -/
theorem roundedValue_le (hm : 0 < m) (he : e ≤ target m e) (h' : (Exact.finite false m' e').Normal)
    (hle : (digits (.ofMantissaAndAccuracy m accuracy) : ℚ) * 2 ^ e ≤ 4 * (m' * 2 ^ e')) :
    roundedValue m e accuracy ≤ m' * 2 ^ e' := by
  have hpos : (0 : ℚ) < 2 ^ e := by positivity
  have hmd : 4 * m ≤ digits (.ofMantissaAndAccuracy m accuracy) := by
    rw [digits, mantissa_ofMantissaAndAccuracy]
    omega
  have hmq : (4 * m : ℚ) ≤ digits (.ofMantissaAndAccuracy m accuracy) := by exact_mod_cast hmd
  have hvalue : (m : ℚ) * 2 ^ e ≤ m' * 2 ^ e' := by
    have : (4 * m : ℚ) * 2 ^ e ≤ 4 * (m' * 2 ^ e') := le_trans (by gcongr) hle
    linarith
  obtain ⟨k, hk, hscaled⟩ := exists_multiple hm he h' hvalue
  have hdigits : digits (.ofMantissaAndAccuracy m accuracy) ≤
      digits ⟨k * 2 ^ (target m e - e).toNat, false, false⟩ := by
    rw [← hscaled, ← mul_assoc] at hle
    have hq := le_of_mul_le_mul_right hle hpos
    have hnat : digits (.ofMantissaAndAccuracy m accuracy) ≤
        4 * (k * 2 ^ (target m e - e).toNat) := by exact_mod_cast hq
    simpa [digits] using hnat
  have hrounded := rounded_shift_mono hdigits (target m e - e).toNat
  rw [shift_exact, rounded_exact] at hrounded
  rw [roundedValue, ← hk]
  gcongr
  exact hrounded

/-- A number that can be stored as it is does not change. -/
theorem roundedValue_eq (hm : 0 < m) (he : e ≤ target m e) (h' : (Exact.finite false m' e').Normal)
    (h : (m : ℚ) * 2 ^ e = m' * 2 ^ e') : roundedValue m e .exact = m' * 2 ^ e' := by
  have hpos : (0 : ℚ) < 2 ^ e := by positivity
  obtain ⟨k, hk, hscaled⟩ := exists_multiple hm he h' h.le
  have hq : (m : ℚ) = (k * 2 ^ (target m e - e).toNat : Nat) :=
    mul_right_cancel₀ hpos.ne' (h.trans hscaled.symm)
  have hmk : m = k * 2 ^ (target m e - e).toNat := by exact_mod_cast hq
  have hrounded : roundedAt m e .exact = k := by
    have hshift := shift_exact k (target m e - e).toNat
    rw [← hmk] at hshift
    exact congrArg ExtendedMantissa.roundedMantissa hshift
  rw [roundedValue, hrounded, hk]

/-- **Greater numbers** are not rounded to smaller ones. -/
theorem roundedValue_mono (hm : 0 < m) (hle : m ≤ m') (he : e ≤ target m e) :
    roundedValue m e .exact ≤ roundedValue m' e .exact := by
  have hlog : m.log2 ≤ m'.log2 := by
    rw [Nat.le_log2 (by omega)]
    exact (Nat.log2_self_le hm.ne').trans hle
  have htarget : target m e ≤ target m' e := by
    rw [target, target]
    omega
  rw [roundedValue, roundedValue]
  rcases htarget.eq_or_lt with heq | hlt
  · rw [heq]
    gcongr
    rw [roundedAt, roundedAt, heq]
    refine rounded_shift_mono ?_ _
    simpa [digits, ExtendedMantissa.ofMantissaAndAccuracy] using hle
  · -- a power of two lies between them
    have hmin : -1074 ≤ target m e := le_max_right _ _
    have hfull := (target_cases (by omega : 0 < m') (he.trans htarget)).resolve_left (by omega)
    have hupper : (roundedAt m e .exact : ℚ) ≤ 2 ^ 53 := by exact_mod_cast roundedAt_le he
    have hlower : (2 ^ 52 : ℚ) ≤ roundedAt m' e .exact := by exact_mod_cast le_roundedAt hfull
    calc (roundedAt m e .exact : ℚ) * 2 ^ target m e ≤ 2 ^ 53 * 2 ^ target m e := by gcongr
      _ = 2 ^ 52 * 2 ^ (target m e + 1) := by rw [zpow_add₀ two_ne_zero]; ring
      _ ≤ 2 ^ 52 * 2 ^ target m' e := by gcongr; norm_num; omega
      _ ≤ roundedAt m' e .exact * 2 ^ target m' e := by gcongr

end rounding

/-! ### Numbers that are stored -/

section storing

variable {m : Nat} {e : Int}

theorem unpack_subnormal (s : UnpackedFloat.Sign) (hm : 0 < m) (hm' : m < 2 ^ 52) :
    Exact.ofUnpacked (UnpackedFloat.unpack Format.binary64
      (UnpackedFloat.packComponents Format.binary64 s 0#11 (BitVec.ofNat 52 m))) =
      .finite (Exact.isNegative s) m (-1074) := by
  have hdigits : (BitVec.ofNat 52 m).toNat = m := by
    rw [BitVec.toNat_ofNat]
    omega
  have hnonzero : BitVec.ofNat 52 m ≠ 0#52 := fun h => by
    rw [h] at hdigits
    exact hm.ne hdigits
  unfold UnpackedFloat.unpack
  dsimp only
  rw [if_neg (by rw [UnpackedFloat.unpackExponent_packComponents]; decide),
    if_pos (by rw [UnpackedFloat.unpackExponent_packComponents]),
    dif_neg (by rw [UnpackedFloat.unpackMantissa_packComponents]; exact hnonzero)]
  change Exact.finite (Exact.isNegative (.ofBitVec (UnpackedFloat.unpackSign _)))
    (UnpackedFloat.unpackMantissa _).toNat
    ((UnpackedFloat.unpackExponent _).toNat - ((1023 : Nat) + (52 : Nat) : Int) + 1) = _
  rw [unpackSign_packComponents, UnpackedFloat.unpackMantissa_packComponents,
    UnpackedFloat.unpackExponent_packComponents, hdigits]
  rfl

/-- **A number in normal form** whose exponent is not too large is read back as it was stored. -/
theorem ofFloat_pack {u : UnpackedFloat} {negative : Bool}
    (hu : Exact.ofUnpacked u = .finite negative m e) (hn : (Exact.finite negative m e).Normal)
    (he : 0 < m → e ≤ 971) : Exact.ofFloat (.ofModel (.pack u)) = .finite negative m e := by
  change Exact.ofUnpacked (UnpackedFloat.unpack Format.binary64
    (UnpackedFloat.pack Format.binary64 u)) = _
  cases u with
  | notANumber => cases hu
  | infinity s => cases hu
  | zero s =>
      cases hu
      cases s <;> rfl
  | finite s m e hpos =>
      cases hu
      have he := he hpos
      obtain ⟨hm, hmin, hn⟩ := hn
      rcases Nat.lt_or_ge m (2 ^ 52) with hlt | hge
      · obtain rfl : e = -1074 := by omega
        have hlog : m.log2 ≠ 52 := by
          have := (Nat.log2_lt hpos.ne').2 hlt
          omega
        have hpack : UnpackedFloat.pack Format.binary64 (.finite s m (-1074) hpos) =
            UnpackedFloat.packComponents Format.binary64 s 0#11 (BitVec.ofNat 52 m) := by
          change (if m.log2 + 1 = 53 then _ else _) = _
          rw [if_neg (by omega)]
        rw [hpack, unpack_subnormal s hpos hlt]
      · obtain ⟨b, hb, hb', rfl⟩ : ∃ b : Nat, 0 < b ∧ b < 2047 ∧ e = b - (1023 + 52) :=
          ⟨(e + 1023 + 52).toNat, by omega⟩
        rw [pack_finite s hge hm hb hb', unpack_packComponents s hge hm hb hb']

end storing

end TreeCode
