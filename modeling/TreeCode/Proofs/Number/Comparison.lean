import TreeCode.Number.Exact

/-! # Comparing floating-point numbers

Comparing two numbers the other way round gives the opposite result, and there is a result
unless one of them is not a number. So a value is at most a threshold or greater, but for values
that are not numbers: these are neither (`threshold_lt_iff`). -/

namespace TreeCode

open Float.Model (UnpackedFloat)

/-! ### Unpacked numbers -/

theorem swap_compare (a b : UnpackedFloat) : (a.compare b).map Ordering.swap = b.compare a := by
  cases a with
  | notANumber => cases b <;> rfl
  | infinity s =>
      cases b with
      | infinity s' => cases s <;> cases s' <;> rfl
      | finite s' m' e' h' => cases s <;> cases s' <;> rfl
      | _ => cases s <;> rfl
  | zero s =>
      cases b with
      | infinity s' => cases s' <;> rfl
      | finite s' m' e' h' => cases s' <;> rfl
      | _ => rfl
  | finite s m e h =>
      cases b with
      | infinity s' => cases s <;> cases s' <;> rfl
      | finite s' m' e' h' =>
          have hswap : ((compare e e').then (compare m m')).swap =
              (compare e' e).then (compare m' m) := by
            rw [Ordering.swap_then, Int.compare_swap, Nat.compare_swap]
          cases s with
          | negative =>
              cases s' with
              | negative => exact congrArg (fun o => some o.swap) hswap
              | positive => rfl
          | positive =>
              cases s' with
              | negative => rfl
              | positive => exact congrArg some hswap
      | _ => cases s <;> rfl

theorem isNaN_of_compare_eq_none {a b : UnpackedFloat} (h : a.compare b = none) :
    a.isNaN = true ∨ b.isNaN = true := by
  cases a with
  | notANumber => exact .inl rfl
  | infinity s =>
      cases b with
      | notANumber => exact .inr rfl
      | infinity s' => cases s <;> cases s' <;> cases h
      | _ => cases s <;> cases h
  | zero s =>
      cases b with
      | notANumber => exact .inr rfl
      | infinity s' => cases s' <;> cases h
      | zero s' => cases h
      | finite s' m' e' h' => cases s' <;> cases h
  | finite s m e hm =>
      cases b with
      | notANumber => exact .inr rfl
      | zero s' => cases s <;> cases h
      | _ s' => cases s <;> cases s' <;> cases h

theorem compare_eq_none {a b : UnpackedFloat} (h : b.isNaN = true) : a.compare b = none := by
  cases b with
  | notANumber => cases a <;> rfl
  | _ => cases h

/-! ### Values and thresholds -/

variable {v t : Float}

/-- How a value compares with a threshold. -/
def thresholdOrder (v t : Float) : Option Ordering := v.toModel.unpack.compare t.toModel.unpack

theorem le_iff_thresholdOrder :
    v ≤ t ↔ thresholdOrder v t = some .lt ∨ thresholdOrder v t = some .eq := by
  change decide (v.toModel ≤ t.toModel) = true ↔ _
  rw [decide_eq_true_iff]
  change (thresholdOrder v t).any (·.isLE) = true ↔ _
  cases thresholdOrder v t with
  | none => simp
  | some o => cases o <;> simp

theorem lt_iff_thresholdOrder : t < v ↔ thresholdOrder v t = some .gt := by
  change decide (t.toModel < v.toModel) = true ↔ _
  rw [decide_eq_true_iff]
  change (t.toModel.unpack.compare v.toModel.unpack == some .lt) = true ↔ _
  rw [beq_iff_eq, ← swap_compare]
  change (thresholdOrder v t).map Ordering.swap = some .lt ↔ _
  cases thresholdOrder v t with
  | none => simp
  | some o => cases o <;> simp

theorem thresholdOrder_of_isNaN (hv : v.isNaN = true) : thresholdOrder v t = none := by
  have := compare_eq_none (a := t.toModel.unpack) hv
  rwa [← swap_compare, Option.map_eq_none_iff] at this

theorem thresholdOrder_eq_none_iff (ht : t.isFinite = true) :
    thresholdOrder v t = none ↔ v.isNaN = true := by
  refine ⟨fun h => ?_, thresholdOrder_of_isNaN⟩
  rcases isNaN_of_compare_eq_none h with hv | hn
  · exact hv
  · change t.toModel.unpack.isFinite = true at ht
    revert ht hn
    cases t.toModel.unpack with
    | notANumber => exact fun _ ht => nomatch ht
    | _ => exact fun hn => nomatch hn

/-- **A value** is greater than a finite threshold if it is neither at most the threshold nor
something that is not a number. -/
theorem threshold_lt_iff (ht : t.isFinite = true) : t < v ↔ ¬(v ≤ t ∨ v.isNaN = true) := by
  rw [lt_iff_thresholdOrder, le_iff_thresholdOrder, ← thresholdOrder_eq_none_iff ht]
  cases thresholdOrder v t with
  | none => simp
  | some o => cases o <;> simp

theorem not_le_of_isNaN (hv : v.isNaN = true) : ¬v ≤ t := by
  rw [le_iff_thresholdOrder, thresholdOrder_of_isNaN hv]
  simp

end TreeCode
