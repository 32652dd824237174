import Mathlib.Algebra.Order.Field.Power
import Mathlib.Algebra.Order.Ring.Rat
import Mathlib.Order.Compare
import Mathlib.Tactic.NormNum
import Mathlib.Tactic.Positivity
import Mathlib.Tactic.Ring
import TreeCode.Proofs.Number.Comparison

/-! # Values of floating-point numbers

A finite floating-point number stands for a rational number. Numbers are compared by exponent
first and by mantissa second. That is the order of the values because numbers are decoded in
normal form, where the mantissa has all its digits unless the exponent is the least one
(`normal_ofFloat`). So comparing finite numbers is comparing their values (`le_iff_of_value?`,
`lt_iff_of_value?`). -/

namespace TreeCode

open Float.Model (UnpackedFloat Format)

namespace Exact

/-- The rational number that is stood for, if there is one. -/
def value? : Exact → Option ℚ
  | finite negative m e => some (if negative then -(m * 2 ^ e) else m * 2 ^ e)
  | _ => none

/-- The mantissa has at most 53 binary digits, and fewer only if the exponent is the least one. -/
def Normal : Exact → Prop
  | finite _ m e => m < 2 ^ 53 ∧ -1074 ≤ e ∧ (m = 0 ∨ e = -1074 ∨ 2 ^ 52 ≤ m)
  | _ => True

theorem exists_value?_ofUnpacked_iff {u : UnpackedFloat} :
    (∃ q, (ofUnpacked u).value? = some q) ↔ u.isFinite = true := by
  cases u with
  | notANumber => exact iff_of_false (fun h => nomatch h) Bool.false_ne_true
  | infinity s => exact iff_of_false (fun h => nomatch h) Bool.false_ne_true
  | zero s => exact iff_of_true ⟨_, rfl⟩ rfl
  | finite s m e hm => exact iff_of_true ⟨_, rfl⟩ rfl

end Exact

/-- The rational number that a floating-point number stands for, if it is finite. -/
def value? (x : Float) : Option ℚ := (Exact.ofFloat x).value?

theorem exists_value?_iff {x : Float} : (∃ q, value? x = some q) ↔ x.isFinite = true :=
  Exact.exists_value?_ofUnpacked_iff

/-! ### Normal form -/

theorem toNat_one_append (v : BitVec 52) : (1#1 ++ v).toNat = 2 ^ 52 + v.toNat := by
  rw [BitVec.toNat_append, ← Nat.shiftLeft_add_eq_or_of_lt v.isLt]
  rfl

theorem normal_unpack (bits : BitVec Format.binary64.numBits) :
    (Exact.ofUnpacked (UnpackedFloat.unpack Format.binary64 bits)).Normal := by
  have hmantissa : (UnpackedFloat.unpackMantissa bits).toNat < 2 ^ 52 := BitVec.isLt _
  unfold UnpackedFloat.unpack
  dsimp only
  by_cases hones : UnpackedFloat.unpackExponent bits = -1#(Format.binary64.exponentBits)
  · rw [if_pos hones]
    by_cases hnumber : UnpackedFloat.unpackMantissa bits = 0#52
    · rw [if_pos hnumber]
      trivial
    · rw [if_neg hnumber]
      trivial
  · rw [if_neg hones]
    by_cases hzeros : UnpackedFloat.unpackExponent bits = 0#(Format.binary64.exponentBits)
    · -- the least exponent, without the leading digit
      rw [if_pos hzeros, hzeros]
      by_cases hzero : UnpackedFloat.unpackMantissa bits = 0#52
      · rw [dif_pos hzero]
        exact ⟨by decide, by decide, .inl rfl⟩
      · rw [dif_neg hzero]
        exact ⟨by omega, by decide, .inr (.inl (by decide))⟩
    · -- the leading digit stands in front of the stored ones
      rw [if_neg hzeros]
      have hexponent : (UnpackedFloat.unpackExponent bits).toNat ≠ 0 :=
        fun h => hzeros (BitVec.eq_of_toNat_eq h)
      have hdigits := toNat_one_append (UnpackedFloat.unpackMantissa bits)
      refine ⟨?_, ?_, .inr (.inr ?_)⟩
      · rw [hdigits]
        omega
      · change -1074 ≤ ((UnpackedFloat.unpackExponent bits).toNat : Int) -
          ((1023 : Nat) + (52 : Nat))
        omega
      · rw [hdigits]
        omega

/-- **Numbers are decoded in normal form.** -/
theorem normal_ofFloat (x : Float) : (Exact.ofFloat x).Normal :=
  normal_unpack x.toModel.toBits.toBitVec

/-! ### Order -/

section magnitudes

variable {m m' : Nat} {e e' : Int}

/-- In normal form a greater exponent makes up for any mantissa. -/
theorem scaled_lt (hm : m < 2 ^ 53) (he : -1074 ≤ e) (hm' : e' = -1074 ∨ 2 ^ 52 ≤ m')
    (h : e < e' ∨ e = e' ∧ m < m') : (m : ℚ) * 2 ^ e < m' * 2 ^ e' := by
  rcases h with hlt | ⟨rfl, hlt⟩
  · have hm' : 2 ^ 52 ≤ m' := hm'.resolve_left (by omega)
    have hmq : (m : ℚ) < 2 ^ 53 := by exact_mod_cast hm
    have hmq' : (2 : ℚ) ^ 52 ≤ m' := by exact_mod_cast hm'
    calc (m : ℚ) * 2 ^ e < 2 ^ 53 * 2 ^ e := by gcongr
      _ = 2 ^ 52 * 2 ^ (e + 1) := by rw [zpow_add₀ (by norm_num)]; ring
      _ ≤ 2 ^ 52 * 2 ^ e' := by gcongr; norm_num; omega
      _ ≤ m' * 2 ^ e' := by gcongr
  · gcongr

/-- Comparing exponents and then mantissas compares the values. -/
theorem compare_eq_cmp (h : (Exact.finite false m e).Normal) (h' : (Exact.finite false m' e').Normal)
    (hm : 0 < m) (hm' : 0 < m') :
    (compare e e').then (compare m m') = cmp ((m : ℚ) * 2 ^ e) (m' * 2 ^ e') := by
  obtain ⟨hlt, hle, hn⟩ := h
  obtain ⟨hlt', hle', hn'⟩ := h'
  have hn := hn.resolve_left (by omega)
  have hn' := hn'.resolve_left (by omega)
  rcases lt_trichotomy e e' with he | rfl | he
  · rw [compare_lt_iff_lt.2 he, (cmp_eq_lt_iff _ _).2 (scaled_lt hlt hle hn' (.inl he))]
    rfl
  · rw [compare_eq_iff_eq.2 rfl]
    rcases lt_trichotomy m m' with hmm | rfl | hmm
    · rw [compare_lt_iff_lt.2 hmm, (cmp_eq_lt_iff _ _).2 (scaled_lt hlt hle hn' (.inr ⟨rfl, hmm⟩))]
      rfl
    · rw [compare_eq_iff_eq.2 rfl, cmp_self_eq_eq]
      rfl
    · rw [compare_gt_iff_gt.2 hmm, (cmp_eq_gt_iff _ _).2 (scaled_lt hlt' hle hn (.inr ⟨rfl, hmm⟩))]
      rfl
  · rw [compare_gt_iff_gt.2 he, (cmp_eq_gt_iff _ _).2 (scaled_lt hlt' hle' hn (.inl he))]
    rfl

end magnitudes

theorem finite_cases {a : UnpackedFloat} {p : ℚ} (h : (Exact.ofUnpacked a).value? = some p) :
    (∃ s, a = .zero s ∧ p = 0) ∨
      (∃ m e hm, a = .finite .positive m e hm ∧ p = m * 2 ^ e ∧ 0 < p) ∨
      ∃ m e hm, a = .finite .negative m e hm ∧ p = -(m * 2 ^ e) ∧ p < 0 := by
  cases a with
  | notANumber => cases h
  | infinity s => cases h
  | zero s =>
      obtain rfl := Option.some.inj h
      exact .inl ⟨s, rfl, by simp⟩
  | finite s m e hm =>
      obtain rfl := Option.some.inj h
      have hpos : (0 : ℚ) < m * 2 ^ e := by positivity
      cases s with
      | positive => exact .inr (.inl ⟨m, e, hm, rfl, rfl, hpos⟩)
      | negative => exact .inr (.inr ⟨m, e, hm, rfl, rfl, neg_neg_of_pos hpos⟩)

/-- **Comparing numbers** in normal form compares their values. -/
theorem compare_ofUnpacked {a b : UnpackedFloat} {p q : ℚ} (ha : (Exact.ofUnpacked a).Normal)
    (hb : (Exact.ofUnpacked b).Normal) (hp : (Exact.ofUnpacked a).value? = some p)
    (hq : (Exact.ofUnpacked b).value? = some q) : a.compare b = some (cmp p q) := by
  rcases finite_cases hp with ⟨s, rfl, rfl⟩ | ⟨m, e, hm, rfl, hp, hpos⟩ | ⟨m, e, hm, rfl, hp, hneg⟩
  · rcases finite_cases hq with ⟨s', rfl, rfl⟩ | ⟨_, _, _, rfl, -, hpos'⟩ | ⟨_, _, _, rfl, -, hneg'⟩
    · rw [cmp_self_eq_eq]; rfl
    · rw [(cmp_eq_lt_iff _ _).2 hpos']; rfl
    · rw [(cmp_eq_gt_iff _ _).2 hneg']; rfl
  · rcases finite_cases hq with ⟨s', rfl, rfl⟩ | ⟨m', e', hm', rfl, hq, -⟩ | ⟨_, _, _, rfl, -, hneg'⟩
    · rw [(cmp_eq_gt_iff _ _).2 hpos]; rfl
    · rw [hp, hq, ← compare_eq_cmp ha hb hm hm']; rfl
    · rw [(cmp_eq_gt_iff _ _).2 (hneg'.trans hpos)]; rfl
  · rcases finite_cases hq with ⟨s', rfl, rfl⟩ | ⟨_, _, _, rfl, -, hpos'⟩ | ⟨m', e', hm', rfl, hq, -⟩
    · rw [(cmp_eq_lt_iff _ _).2 hneg]; rfl
    · rw [(cmp_eq_lt_iff _ _).2 (hneg.trans hpos')]; rfl
    · -- of two negative numbers the one with the greater magnitude is the smaller one
      have hswap : cmp p q = (cmp ((m : ℚ) * 2 ^ e) (m' * 2 ^ e')).swap := by
        rw [hp, hq, cmp_swap]
        simp only [cmp, cmpUsing, neg_lt_neg_iff]
      rw [hswap, ← compare_eq_cmp ha hb hm hm']
      rfl

section values

variable {x t : Float} {p q : ℚ} (hp : value? x = some p) (hq : value? t = some q)
include hp hq

theorem thresholdOrder_eq_cmp : thresholdOrder x t = some (cmp p q) :=
  compare_ofUnpacked (normal_ofFloat x) (normal_ofFloat t) hp hq

theorem le_iff_of_value? : x ≤ t ↔ p ≤ q := by
  rw [le_iff_thresholdOrder, thresholdOrder_eq_cmp hp hq, Option.some_inj, Option.some_inj,
    cmp_eq_lt_iff, cmp_eq_eq_iff, le_iff_lt_or_eq]

theorem lt_iff_of_value? : x < t ↔ p < q := by
  rw [lt_iff_thresholdOrder, thresholdOrder_eq_cmp hq hp, Option.some_inj, cmp_eq_gt_iff]

end values

end TreeCode
