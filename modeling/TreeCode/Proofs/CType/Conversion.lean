import TreeCode.Proofs.CType.Threshold
import TreeCode.Proofs.Tree.Evaluation

/-! # Comparisons of integers in C

Before two integers are compared, those of 8 or 16 bits are promoted to `int`, and if one of the
two is still an `unsigned int`, the other one becomes one, too: a negative number then counts as a
large one. Thresholds of type `unsigned int` do not meet signed features, but negative thresholds
meet features of type `unsigned int`. There, and only there, the comparison of the table loop may
go wrong (`comparison_agrees_iff`). -/

namespace TreeCode

/-- The type of a feature in the vector. -/
def FeatureType.cType : FeatureType → CType
  | float => .float
  | double => .double
  | int => .signed .w32
  | short => .signed .w16
  | signedChar => .signed .w8
  | unsignedChar => .unsigned .w8
  | unsignedShort => .unsigned .w16
  | unsignedInt => .unsigned .w32

theorem FeatureType.name_cType (f : FeatureType) : f.cType.name = f.cName := by cases f <;> rfl

namespace CType

/-! ### Conversions -/

/-- The type of an operand after promotion. -/
def promoted : CType → CType
  | unsigned .w8 => signed .w32
  | unsigned .w16 => signed .w32
  | unsigned .w32 => unsigned .w32
  | signed _ => signed .w32
  | float => float
  | double => double

/-- The type in which operands of two integer types are compared. -/
def common (a b : CType) : CType :=
  if a.promoted = unsigned .w32 ∨ b.promoted = unsigned .w32 then unsigned .w32 else signed .w32

/-- The comparison `x <= y` of operands of two integer types. -/
def lessEqual (a b : CType) (x y : Int) : Bool :=
  decide ((common a b).store x ≤ (common a b).store y)

variable {a b type : CType} {x y n : Int}

/-- **Promotion** keeps the value. -/
theorem Holds.promoted (h : type.Holds n) : type.promoted.Holds n := by
  cases type with
  | unsigned w =>
      cases w <;> simp only [Holds, CType.promoted, Width.bits] at h ⊢ <;> omega
  | signed w =>
      cases w <;> simp only [Holds, CType.promoted, Width.bits] at h ⊢ <;> omega
  | float => cases h
  | double => cases h

theorem promoted_cases (h : type.Holds n) :
    type.promoted = unsigned .w32 ∨ type.promoted = signed .w32 := by
  cases type with
  | unsigned w => cases w <;> simp [CType.promoted]
  | signed w => exact .inr rfl
  | float => cases h
  | double => cases h

/-- Two operands that are both promoted to `int` are compared as they are. -/
theorem lessEqual_of_signed (hx : a.Holds x) (hy : b.Holds y) (ha : a.promoted = signed .w32)
    (hb : b.promoted = signed .w32) : lessEqual a b x y = true ↔ x ≤ y := by
  have hcommon : common a b = signed .w32 := by simp [common, ha, hb]
  have hx := (store_eq_self_iff rfl).2 (ha ▸ hx.promoted)
  have hy := (store_eq_self_iff rfl).2 (hb ▸ hy.promoted)
  rw [lessEqual, hcommon, hx, hy, decide_eq_true_iff]

/-- Beside an operand of type `unsigned int` both are compared modulo 2 ^ 32. -/
theorem lessEqual_of_unsigned
    (h : a.promoted = unsigned .w32 ∨ b.promoted = unsigned .w32) :
    lessEqual a b x y = true ↔ x % 2 ^ 32 ≤ y % 2 ^ 32 := by
  rw [lessEqual, common, if_pos h, decide_eq_true_iff]
  rfl

/-! ### Features and thresholds -/

theorem promoted_eq_unsigned_iff : type.promoted = unsigned .w32 ↔ type = unsigned .w32 := by
  cases type with
  | unsigned w => cases w <;> simp [CType.promoted]
  | _ => simp [CType.promoted]

theorem Holds.bounds (h : type.Holds n) : -2 ^ 31 ≤ n ∧ n < 2 ^ 32 := by
  cases type with
  | unsigned w => cases w <;> simp only [Holds, Width.bits] at h <;> omega
  | signed w => cases w <;> simp only [Holds, Width.bits] at h <;> omega
  | float => cases h
  | double => cases h

section features

variable {f : FeatureType} {v : Int}

theorem cType_eq_unsigned_iff : f.cType = unsigned .w32 ↔ f = .unsignedInt := by
  cases f <;> simp [FeatureType.cType]

theorem nonneg_of_isSigned_eq_false (hf : f.isSigned = false) (hv : f.cType.Holds v) : 0 ≤ v := by
  cases f with
  | unsignedChar => exact hv.1
  | unsignedShort => exact hv.1
  | unsignedInt => exact hv.1
  | float => cases hv
  | double => cases hv
  | _ => cases hf

/-- **A feature and a threshold** whose type is not `unsigned int` unless the features are unsigned
are compared as integers, but for a negative threshold and a feature of type `unsigned int` that is
not greater than what the threshold becomes. -/
theorem lessEqual_agrees_iff (hv : f.cType.Holds v) (hn : type.Holds n)
    (h : type = unsigned .w32 → f.isSigned = false) :
    (lessEqual f.cType type v n = true ↔ v ≤ n) ↔
      ¬(f = .unsignedInt ∧ n < 0 ∧ v ≤ n + 2 ^ 32) := by
  have hfeature : f = .unsignedInt → f.isSigned = false := by
    rintro rfl
    rfl
  by_cases hunsigned : f.cType.promoted = unsigned .w32 ∨ type.promoted = unsigned .w32
  · rw [lessEqual_of_unsigned hunsigned]
    rw [promoted_eq_unsigned_iff, promoted_eq_unsigned_iff, cType_eq_unsigned_iff] at hunsigned
    have hv0 : 0 ≤ v := nonneg_of_isSigned_eq_false (hunsigned.elim hfeature h) hv
    have hvmod : v % 2 ^ 32 = v := Int.emod_eq_of_lt hv0 hv.bounds.2
    have hbounds := hn.bounds
    rw [hvmod]
    by_cases hneg : n < 0
    · -- a negative threshold is not of type `unsigned int`, so the feature is
      have hf : f = .unsignedInt := hunsigned.resolve_right fun htype => by
        rw [htype] at hn
        exact absurd hn.1 (not_le.2 hneg)
      have hnmod : n % 2 ^ 32 = n + 2 ^ 32 := by omega
      rw [hnmod]
      simp only [hf, hneg, true_and]
      omega
    · have hnmod : n % 2 ^ 32 = n := Int.emod_eq_of_lt (not_lt.1 hneg) hbounds.2
      rw [hnmod]
      simp [hneg]
  · rw [not_or] at hunsigned
    have hsigned := lessEqual_of_signed hv hn ((promoted_cases hv).resolve_left hunsigned.1)
      ((promoted_cases hn).resolve_left hunsigned.2)
    have hf : f ≠ .unsignedInt := by
      rintro rfl
      exact hunsigned.1 rfl
    simp [hsigned, hf]

end features

theorem isSigned_of_avoidConversion {f : FeatureType}
    (h : avoidConversion f type = unsigned .w32) : f.isSigned = false := by
  unfold avoidConversion at h
  split at h
  · split_ifs at h with hf
    exact eq_false_of_ne_true hf
  · rename_i hne
    exact absurd h hne

theorem isSigned_of_ofThresholds {t : Tree} (hfloat : t.containsFloat = false)
    (h : ofThresholds t = unsigned .w32) : t.featureType.isSigned = false := by
  rw [ofThresholds, if_neg (by simp [hfloat])] at h
  exact isSigned_of_avoidConversion h

end CType

/-! ### Trees -/

namespace Tree

variable {t : Tree} {m : Mark} {f : UInt32} {th : Float} {l r : Node}

/-- **The comparison of the table loop** is that of the integers, and so takes the way that the
evaluation of the tree takes, unless a feature of type `unsigned int` meets a negative threshold
and is not greater than what the threshold becomes. -/
theorem comparison_agrees_iff (hfloat : t.containsFloat = false)
    (hs : .split m f th l r ∈ t.root.subtrees) :
    ∃ n : Int, value? th = some (n : ℚ) ∧ ((CType.ofThresholds t).Holds n →
      ∀ v, t.featureType.cType.Holds v →
        ((CType.lessEqual t.featureType.cType (CType.ofThresholds t) v n = true ↔ v ≤ n) ↔
          ¬(t.featureType = .unsignedInt ∧ n < 0 ∧ v ≤ n + 2 ^ 32)) ∧
        (∃ y, value? y = some (v : ℚ)) ∧
        ∀ (x : FeatureVector) (y : Float), x.read f = .ok y → value? y = some (v : ℚ) →
          (Node.split m f th l r).evaluate x = if v ≤ n then l.evaluate x else r.evaluate x) := by
  have hth : th ∈ t.root.thresholds := Node.mem_thresholds_iff.2 ⟨m, f, l, r, hs⟩
  obtain ⟨n, hn⟩ := t.exists_int_of_mem_thresholds hfloat hth
  refine ⟨n, hn, fun hholds v hv => ⟨?_, ?_, fun x y hread hy => ?_⟩⟩
  · exact CType.lessEqual_agrees_iff hv hholds (CType.isSigned_of_ofThresholds hfloat)
  · have hbounds := hv.bounds
    exact exists_value?_eq_int (by omega)
  · have hle : y ≤ th ↔ v ≤ n := by rw [le_iff_of_value? hy hn, Int.cast_le]
    rw [Node.evaluate_of_read hread]
    simp only [hle]

end Tree

namespace Draft

theorem comparison_agrees_stump : (stump .int 3).build 0 = .ok (stumpTree .int 3) ∧
    (stumpTree .int 3).containsFloat = false ∧
    CType.ofThresholds (stumpTree .int 3) = .unsigned .w8 ∧
    (CType.lessEqual (.signed .w32) (.unsigned .w8) (-7) 3 = true ↔ (-7 : Int) ≤ 3) ∧
    (stumpTree .int 3).evaluate #[-7] = .ok 0 := by
  have hfloat : (stumpTree .int 3).containsFloat = false := by decide
  have hthree : value? 3 = some ((3 : Int) : ℚ) := by
    rw [value?_of_shifted (s := false) (k := 3) (j := 51) (by decide)]
    norm_num
  have hseven : value? (-7) = some ((-7 : Int) : ℚ) := by
    rw [value?_of_shifted (s := true) (k := 7) (j := 50) (by decide)]
    norm_num
  obtain ⟨n, hn, hall⟩ := Tree.comparison_agrees_iff hfloat List.mem_cons_self
  obtain rfl : n = 3 := by exact_mod_cast Option.some.inj (hn.symm.trans hthree)
  obtain ⟨hagrees, -, heval⟩ := hall (by decide) (-7) (by decide)
  refine ⟨build_stump .int (by decide), hfloat, by decide, hagrees.2 (by decide), ?_⟩
  exact heval #[-7] (-7) rfl hseven

/-- A feature of type `unsigned int` and a negative threshold: the comparison holds, but the
evaluation goes right. -/
theorem comparison_disagrees_stump :
    (stump .unsignedInt (-1)).build 0 = .ok (stumpTree .unsignedInt (-1)) ∧
    (stumpTree .unsignedInt (-1)).containsFloat = false ∧
    value? (-1) = some ((-1 : Int) : ℚ) ∧
    CType.ofThresholds (stumpTree .unsignedInt (-1)) = .signed .w8 ∧
    (CType.signed .w8).Holds (-1) ∧ FeatureType.unsignedInt.cType.Holds 5 ∧
    CType.lessEqual FeatureType.unsignedInt.cType (.signed .w8) 5 (-1) = true ∧
    ¬(5 : Int) ≤ -1 ∧ (stumpTree .unsignedInt (-1)).evaluate #[5] = .ok 1 := by
  have hvalue : value? (-1) = some ((-1 : Int) : ℚ) := by
    rw [value?_of_shifted (s := true) (k := 1) (j := 52) (by decide)]
    norm_num
  refine ⟨build_stump .unsignedInt (by decide), by decide, hvalue, ?_⟩
  decide

end Draft
end TreeCode
