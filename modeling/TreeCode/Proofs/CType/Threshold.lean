import TreeCode.Proofs.CType.Range
import TreeCode.Proofs.Tree.Thresholds

/-! # Thresholds in table entries

The type of the thresholds of a tree is as wide as their range asks for, but never wider than 32
bits, and signed if the features are and 16 bits are not enough. A threshold is kept as it is in
a table entry if and only if the 32-bit type that goes with the tree holds it
(`threshold_kept`). -/

namespace TreeCode
namespace CType

/-- The 32-bit type that goes with a tree: a signed one if its features are signed or one of its
thresholds is negative. -/
def widest (t : Tree) : CType :=
  if t.featureType.isSigned || t.root.thresholds.any (· < 0) then signed .w32 else unsigned .w32

/-! ### The type for a range -/

section range

variable {low high : Float} {lo hi n : Int} (hlow : value? low = some (lo : ℚ))
  (hhigh : value? high = some (hi : ℚ))
include hlow hhigh

/-- The type for a range is signed if the range starts below zero, and holds the whole range
unless it has 32 bits. -/
theorem forRange_cases :
    (∃ w, forRange (some (low, high)) = unsigned w ∧ 0 ≤ lo ∧ (w = .w32 ∨ hi < 2 ^ w.bits)) ∨
      ∃ w, forRange (some (low, high)) = signed w ∧ lo < 0 ∧
        (w = .w32 ∨ -2 ^ (w.bits - 1) < lo ∧ hi < 2 ^ (w.bits - 1)) := by
  have hsign : 0 ≤ low ↔ 0 ≤ lo := by
    rw [le_iff_of_value? value?_zero hlow, Int.cast_nonneg_iff]
  have hmin : Int64.minValue.toInt = -2 ^ 63 := rfl
  have hmax : Int64.maxValue.toInt = 2 ^ 63 - 1 := rfl
  unfold forRange
  dsimp only
  split_ifs with h
  · refine .inl ⟨_, rfl, hsign.1 h, ?_⟩
    cases hw : Width.forUnsigned (integerPart high).toNat with
    | w32 => exact .inl rfl
    | _ =>
        have hlt := Width.lt_of_forUnsigned_ne (by rw [hw]; decide)
        rw [hw, integerPart_of_value? hhigh, hmin, hmax] at hlt
        simp only [Width.bits] at hlt ⊢
        omega
  · refine .inr ⟨_, rfl, not_le.1 (mt hsign.2 h), ?_⟩
    cases hw : Width.forSigned (max (-integerPart low) (integerPart high)).toNat with
    | w32 => exact .inl rfl
    | _ =>
        have hlt := Width.lt_of_forSigned_ne (by rw [hw]; decide)
        rw [hw, integerPart_of_value? hlow, integerPart_of_value? hhigh, hmin, hmax] at hlt
        simp only [Width.bits] at hlt ⊢
        omega

end range

/-! ### The type for a tree -/

variable {d : Draft} {head : NodeId} {t : Tree} {th : Float}

theorem containsFloat_eq_false (h : (ofThresholds t).isInteger = true) :
    t.containsFloat = false := by
  by_contra hfloat
  rw [ofThresholds, if_pos (by simpa using hfloat)] at h
  split at h <;> cases h

/-- A threshold is in the type of the thresholds if and only if it is in the 32-bit type that goes
with the tree. -/
theorem holds_ofThresholds_iff (hb : d.build head = .ok t) (h : t.containsFloat = false)
    (hth : th ∈ t.root.thresholds) :
    ∃ n : Int, value? th = some (n : ℚ) ∧ ((ofThresholds t).Holds n ↔ (widest t).Holds n) := by
  obtain ⟨low, high, lo, hi, n, hrange, hlow, hhigh, hn, hle, hle', hneg⟩ :=
    Draft.exists_int_range hb h hth
  refine ⟨n, hn, ?_⟩
  have hany : t.root.thresholds.any (· < 0) = decide (lo < 0) := by
    rw [Bool.eq_iff_iff, List.any_eq_true, decide_eq_true_iff]
    simpa using hneg
  rw [ofThresholds, if_neg (by simp [h]), hrange, widest, hany]
  rcases forRange_cases hlow hhigh with ⟨w, hw, hlo, hhi⟩ | ⟨w, hw, hlo, hhi⟩
  · rw [hw, decide_eq_false (not_lt.2 hlo), Bool.or_false]
    cases hs : t.featureType.isSigned <;> cases w <;>
      simp [avoidConversion, hs, Holds, Width.bits] at hhi ⊢ <;> omega
  · rw [hw, decide_eq_true hlo, Bool.or_true]
    cases w <;> simp [avoidConversion, Holds, Width.bits] at hhi ⊢ <;> omega

/-! ### Literals -/

theorem literal_of_value? {type : CType} {n : Int} (h : type.isInteger = true)
    (hth : value? th = some (n : ℚ)) (hn : Int64.minValue.toInt ≤ n)
    (hn' : n ≤ Int64.maxValue.toInt) : type.literal th = intText n := by
  have hpart : integerPart th = n := by
    rw [integerPart_of_value? hth, min_eq_right hn', max_eq_right hn]
  cases type with
  | unsigned w => exact congrArg intText hpart
  | signed w => exact congrArg intText hpart
  | float => cases h
  | double => cases h

theorem int64_of_holds_widest {n : Int} (h : (widest t).Holds n) :
    Int64.minValue.toInt ≤ n ∧ n ≤ Int64.maxValue.toInt := by
  have hmin : Int64.minValue.toInt = -2 ^ 63 := rfl
  have hmax : Int64.maxValue.toInt = 2 ^ 63 - 1 := rfl
  unfold widest at h
  split at h <;> simp only [Holds, Width.bits] at h <;> omega

end CType

/-! ### Trees that were built -/

namespace Draft

variable {d : Draft} {head : NodeId} {t : Tree} {th : Float}

/-- **A threshold of integer type** is in the range of its type if and only if it is in that of
the 32-bit type that goes with the tree. Then its literal is the threshold itself, and the field
of the table entry keeps it as it is. -/
theorem threshold_kept (hb : d.build head = .ok t)
    (htype : (CType.ofThresholds t).isInteger = true) (hth : th ∈ t.root.thresholds) :
    ∃ n : Int, value? th = some (n : ℚ) ∧
      ((CType.ofThresholds t).Holds n ↔ (CType.widest t).Holds n) ∧
      ((CType.widest t).Holds n →
        (CType.ofThresholds t).literal th = intText n ∧ (CType.ofThresholds t).store n = n) := by
  obtain ⟨n, hn, hiff⟩ :=
    CType.holds_ofThresholds_iff hb (CType.containsFloat_eq_false htype) hth
  refine ⟨n, hn, hiff, fun hwide => ⟨?_, ?_⟩⟩
  · obtain ⟨hmin, hmax⟩ := CType.int64_of_holds_widest hwide
    exact CType.literal_of_value? htype hn hmin hmax
  · exact (CType.store_eq_self_iff htype).2 (hiff.2 hwide)

theorem threshold_kept_stump : (stump .int 300).build 0 = .ok (stumpTree .int 300) ∧
    (CType.ofThresholds (stumpTree .int 300)).isInteger = true ∧
    300 ∈ (stumpTree .int 300).root.thresholds ∧ (CType.widest (stumpTree .int 300)).Holds 300 ∧
    (CType.ofThresholds (stumpTree .int 300)).Holds 300 ∧
    (CType.ofThresholds (stumpTree .int 300)).literal 300 = intText 300 ∧
    (CType.ofThresholds (stumpTree .int 300)).store 300 = 300 := by
  have hb := build_stump .int (show (300 : Float).isFinite = true by decide)
  have htype : (CType.ofThresholds (stumpTree .int 300)).isInteger = true := by decide
  have hwide : (CType.widest (stumpTree .int 300)).Holds 300 := by decide
  have hvalue : value? 300 = some ((300 : Int) : ℚ) := by
    rw [value?_of_shifted (s := false) (k := 300) (j := 44) (by decide)]
    norm_num
  obtain ⟨n, hn, hiff, hkept⟩ := threshold_kept hb htype List.mem_cons_self
  obtain rfl : n = 300 := by exact_mod_cast Option.some.inj (hn.symm.trans hvalue)
  exact ⟨hb, htype, List.mem_cons_self, hwide, hiff.2 hwide, hkept hwide⟩

/-- No type of 32 bits holds what is too large for it: neither `int` for signed features nor
`unsigned int` for unsigned ones. -/
theorem threshold_not_kept :
    ((stump .int 3000000000).build 0 = .ok (stumpTree .int 3000000000) ∧
      3000000000 ∈ (stumpTree .int 3000000000).root.thresholds ∧
      value? 3000000000 = some ((3000000000 : Int) : ℚ) ∧
      CType.ofThresholds (stumpTree .int 3000000000) = .signed .w32 ∧
      ¬(CType.signed .w32).Holds 3000000000 ∧
      (CType.signed .w32).store 3000000000 = -1294967296) ∧
    (stump .unsignedInt 4294967296).build 0 = .ok (stumpTree .unsignedInt 4294967296) ∧
      4294967296 ∈ (stumpTree .unsignedInt 4294967296).root.thresholds ∧
      value? 4294967296 = some ((4294967296 : Int) : ℚ) ∧
      CType.ofThresholds (stumpTree .unsignedInt 4294967296) = .unsigned .w32 ∧
      ¬(CType.unsigned .w32).Holds 4294967296 ∧
      (CType.unsigned .w32).store 4294967296 = 0 := by
  constructor
  · have hvalue : value? 3000000000 = some ((3000000000 : Int) : ℚ) := by
      rw [value?_of_shifted (s := false) (k := 3000000000) (j := 21) (by decide)]
      norm_num
    refine ⟨build_stump .int (by decide), List.mem_cons_self, hvalue, ?_⟩
    decide
  · have hvalue : value? 4294967296 = some ((4294967296 : Int) : ℚ) := by
      rw [value?_of_shifted (s := false) (k := 4294967296) (j := 20) (by decide)]
      norm_num
    refine ⟨build_stump .unsignedInt (by decide), List.mem_cons_self, hvalue, ?_⟩
    decide

end Draft
end TreeCode
