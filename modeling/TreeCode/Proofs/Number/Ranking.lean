import TreeCode.Proofs.Number.Proportion

/-! # Positions in the total order

The bits of a floating-point number without a sign count the numbers that are less. So proportions,
which have no sign, are in the total order as they are by value (`Proportion.totalRank_le_iff`). -/

namespace TreeCode

open Float.Model (UnpackedFloat Format)

variable {x y : Float} {m m' : Nat} {e e' : Int}

/-- The three parts of the bits. -/
theorem toNat_eq_parts (b : BitVec Format.binary64.numBits) : b.toNat =
    (UnpackedFloat.unpackSign b).toNat * 2 ^ 63 + (UnpackedFloat.unpackExponent b).toNat * 2 ^ 52 +
      (UnpackedFloat.unpackMantissa b).toNat := by
  have hlt : b.toNat < 2 ^ 64 := b.isLt
  have hmantissa : (UnpackedFloat.unpackMantissa b).toNat = b.toNat % 2 ^ 52 := by
    simp [UnpackedFloat.unpackMantissa]
  have hexponent : (UnpackedFloat.unpackExponent b).toNat = b.toNat / 2 ^ 52 % 2 ^ 11 := by
    simp [UnpackedFloat.unpackExponent, Nat.shiftRight_eq_div_pow]
  have hsign : (UnpackedFloat.unpackSign b).toNat = b.toNat / 2 ^ 63 % 2 := by
    change (BitVec.extractLsb 63 63 b).toNat = _
    rw [BitVec.extractLsb_toNat, Nat.shiftRight_eq_div_pow]
  omega

/-- The bits of a number without a sign count the numbers below it. -/
theorem toNat_unpack {b : BitVec Format.binary64.numBits}
    (hb : Exact.ofUnpacked (UnpackedFloat.unpack Format.binary64 b) = .finite false m e) :
    (b.toNat : Int) = if m = 0 then 0 else (e + 1074) * 2 ^ 52 + m := by
  have hparts := toNat_eq_parts b
  have hsign (h : Exact.isNegative (.ofBitVec (UnpackedFloat.unpackSign b)) = false) :
      (UnpackedFloat.unpackSign b).toNat = 0 := by
    rw [UnpackedFloat.Sign.ofBitVec] at h
    split_ifs at h with hzero
    · rw [hzero]
      rfl
    · cases h
  unfold UnpackedFloat.unpack at hb
  dsimp only at hb
  by_cases hones : UnpackedFloat.unpackExponent b = -1#(Format.binary64.exponentBits)
  · rw [if_pos hones] at hb
    by_cases hnumber : UnpackedFloat.unpackMantissa b = 0#52
    · rw [if_pos hnumber] at hb
      cases hb
    · rw [if_neg hnumber] at hb
      cases hb
  · rw [if_neg hones] at hb
    by_cases hzeros : UnpackedFloat.unpackExponent b = 0#(Format.binary64.exponentBits)
    · -- the least exponent, without the leading digit
      rw [if_pos hzeros] at hb
      by_cases hzero : UnpackedFloat.unpackMantissa b = 0#52
      · rw [dif_pos hzero] at hb
        obtain ⟨hs, rfl, -⟩ := Exact.finite.inj hb
        rw [hsign hs, hzeros, hzero] at hparts
        rw [if_pos rfl, hparts]
        rfl
      · rw [dif_neg hzero] at hb
        obtain ⟨hs, rfl, rfl⟩ := Exact.finite.inj hb
        have hpos : (UnpackedFloat.unpackMantissa b).toNat ≠ 0 := fun h =>
          hzero (BitVec.eq_of_toNat_eq h)
        rw [hsign hs, hzeros] at hparts
        rw [if_neg hpos, hparts, hzeros]
        change ((0 * 2 ^ 63 + 0 * 2 ^ 52 + (UnpackedFloat.unpackMantissa b).toNat : Nat) : Int) =
          ((0 : Nat) - ((1023 : Nat) + (52 : Nat)) + 1 + 1074) * 2 ^ 52 +
            (UnpackedFloat.unpackMantissa b).toNat
        omega
    · -- the leading digit stands in front of the stored ones
      rw [if_neg hzeros] at hb
      obtain ⟨hs, rfl, rfl⟩ := Exact.finite.inj hb
      have hdigits := toNat_one_append (UnpackedFloat.unpackMantissa b)
      rw [hsign hs] at hparts
      rw [if_neg (by omega), hparts]
      change _ =
        ((UnpackedFloat.unpackExponent b).toNat - ((1023 : Nat) + (52 : Nat)) + 1074 : Int) *
          2 ^ 52 + (1#1 ++ UnpackedFloat.unpackMantissa b).toNat
      rw [hdigits]
      push_cast
      ring

theorem toNat_toBits (hx : Exact.ofFloat x = .finite false m e) :
    (x.toBits.toNat : Int) = if m = 0 then 0 else (e + 1074) * 2 ^ 52 + m :=
  toNat_unpack (b := x.toModel.toBits.toBitVec) hx

theorem totalRank_eq (hx : Exact.ofFloat x = .finite false m e) (hle : (m : ℚ) * 2 ^ e ≤ 1) :
    totalRank x = if m = 0 then 0 else (e + 1074) * 2 ^ 52 + m := by
  have hbits := toNat_toBits hx
  have hm : m < 2 ^ 53 := (hx ▸ normal_ofFloat x : (Exact.finite false m e).Normal).1
  have hmax : (x.toBits.toNat : Int) ≤ Int64.maxValue.toInt := by
    have htoInt : Int64.maxValue.toInt = 2 ^ 63 - 1 := rfl
    rw [hbits, htoInt]
    split_ifs with hzero
    · decide
    · have := exponent_lt (k := 1) (Nat.pos_of_ne_zero hzero) (hle.trans_lt (by norm_num))
      omega
  rw [totalRank, if_pos hmax, hbits]

/-- A greater position belongs to a greater value. -/
theorem value_lt_of_rank_lt (h : (Exact.finite false m e).Normal)
    (h' : (Exact.finite false m' e').Normal)
    (hlt : (if m = 0 then 0 else (e + 1074) * 2 ^ 52 + m : Int) <
      if m' = 0 then 0 else (e' + 1074) * 2 ^ 52 + m') : (m : ℚ) * 2 ^ e < m' * 2 ^ e' := by
  obtain ⟨hm, he, hn⟩ := h
  obtain ⟨hm', he', hn'⟩ := h'
  have hpos' : 0 < m' := by
    apply Nat.pos_of_ne_zero
    rintro rfl
    rw [if_pos rfl] at hlt
    split_ifs at hlt <;> omega
  rw [if_neg hpos'.ne'] at hlt
  rcases Nat.eq_zero_or_pos m with rfl | hpos
  · have hmq : (0 : ℚ) < m' := by exact_mod_cast hpos'
    rw [Nat.cast_zero, zero_mul]
    positivity
  · rw [if_neg hpos.ne'] at hlt
    exact scaled_lt hm he (hn'.resolve_left hpos'.ne') (by omega)

/-- The same position belongs to the same value. -/
theorem value_eq_of_rank_eq (h : (Exact.finite false m e).Normal)
    (h' : (Exact.finite false m' e').Normal)
    (heq : (if m = 0 then 0 else (e + 1074) * 2 ^ 52 + m : Int) =
      if m' = 0 then 0 else (e' + 1074) * 2 ^ 52 + m') : (m : ℚ) * 2 ^ e = m' * 2 ^ e' := by
  obtain ⟨hm, he, hn⟩ := h
  obtain ⟨hm', he', hn'⟩ := h'
  split_ifs at heq with hzero hzero' hzero'
  · rw [hzero, hzero']
    simp
  · omega
  · omega
  · obtain ⟨rfl, rfl⟩ : m = m' ∧ e = e' := by omega
    rfl

/-- **Proportions** are in the total order as they are by value. -/
theorem Proportion.totalRank_le_iff (hx : Proportion x) (hy : Proportion y) :
    totalRank x ≤ totalRank y ↔ x ≤ y := by
  obtain ⟨m, e, hx, hle⟩ := hx
  obtain ⟨m', e', hy, hle'⟩ := hy
  have hp : value? x = some ((m : ℚ) * 2 ^ e) := by rw [value?, hx]; rfl
  have hq : value? y = some ((m' : ℚ) * 2 ^ e') := by rw [value?, hy]; rfl
  have hn : (Exact.finite false m e).Normal := hx ▸ normal_ofFloat x
  have hn' : (Exact.finite false m' e').Normal := hy ▸ normal_ofFloat y
  rw [le_iff_of_value? hp hq, totalRank_eq hx hle, totalRank_eq hy hle']
  constructor
  · intro h
    rcases h.lt_or_eq with hlt | heq
    · exact (value_lt_of_rank_lt hn hn' hlt).le
    · exact (value_eq_of_rank_eq hn hn' heq).le
  · intro h
    by_contra hnot
    exact absurd h (value_lt_of_rank_lt hn' hn (not_le.1 hnot)).not_ge

theorem Proportion.totalRank_lt_iff (hx : Proportion x) (hy : Proportion y) :
    totalRank x < totalRank y ↔ x < y := by
  obtain ⟨p, hp, -⟩ := hx.exists_value?
  obtain ⟨q, hq, -⟩ := hy.exists_value?
  rw [← not_le, hy.totalRank_le_iff hx, le_iff_of_value? hq hp, lt_iff_of_value? hp hq, not_le]

end TreeCode
