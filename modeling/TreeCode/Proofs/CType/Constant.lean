import TreeCode.Proofs.CType.Literal
import TreeCode.Proofs.Number.Narrowing
import TreeCode.Proofs.Tree.Thresholds

/-! # Constants of C types

A constant of an integer type is decimal digits, one of type `double` is digits with a point among
them, and one of type `float` has an `f` behind it; a minus sign may stand in front. The literals of
numbers are such constants, but for numbers of type `float` that become infinite in single precision
(`Draft.literal_isConstant_iff`): the thresholds of a tree are finite, but they are checked in
double precision only. -/

namespace TreeCode

/-! ### The grammar of constants -/

/-- One or more decimal digits. -/
def IsDigits (text : List Char) : Prop := text ≠ [] ∧ ∀ c ∈ text, c.isDigit = true

/-- Digits without a superfluous zero in front, which would make them octal. -/
def IsWhole (text : List Char) : Prop := IsDigits text ∧ (text.head? = some '0' → text = ['0'])

/-- Digits with a point among them. -/
def IsFractional (text : List Char) : Prop :=
  ∃ whole fraction, IsDigits whole ∧ IsDigits fraction ∧ text = whole ++ '.' :: fraction

/-- A text that may have a minus sign in front. -/
def IsSigned (unsigned : List Char → Prop) (text : List Char) : Prop :=
  ∃ negative rest, unsigned rest ∧ text = signText negative ++ rest

/-- The constants of a type. -/
def CType.IsConstant : CType → List Char → Prop
  | unsigned _, text => IsSigned IsWhole text
  | signed _, text => IsSigned IsWhole text
  | float, text => ∃ decimal, IsSigned IsFractional decimal ∧ text = decimal ++ ['f']
  | double, text => IsSigned IsFractional text

/-! ### Digits -/

theorem isDigits_natText (n : Nat) : IsDigits (natText n) :=
  ⟨natText_ne_nil n, fun _ => isDigit_of_mem_natText⟩

theorem isDigits_paddedText (width n : Nat) : IsDigits (paddedText width n) := by
  refine ⟨List.append_ne_nil_of_right_ne_nil _ (natText_ne_nil n), fun c hc => ?_⟩
  rcases List.mem_append.1 hc with hc | hc
  · obtain rfl := List.eq_of_mem_replicate hc
    decide
  · exact isDigit_of_mem_natText hc

theorem head?_natText_ne {n : Nat} (hn : 0 < n) : (natText n).head? ≠ some '0' := by
  induction n using Nat.strong_induction_on with
  | _ n ih =>
      rcases Nat.lt_or_ge n 10 with hlt | hge
      · rw [natText, Nat.toDigits_of_lt_base hlt]
        simpa using hn.ne'
      · rw [natText, Nat.toDigits_of_base_le (by decide) hge,
          List.head?_append_of_ne_nil _ Nat.toDigits_ne_nil]
        exact ih (n / 10) (by omega) (by omega)

theorem isWhole_natText (n : Nat) : IsWhole (natText n) := by
  refine ⟨isDigits_natText n, fun hzero => ?_⟩
  rcases Nat.eq_zero_or_pos n with rfl | hn
  · rfl
  · exact absurd hzero (head?_natText_ne hn)

theorem isSigned_intText (n : Int) : IsSigned IsWhole (intText n) := by
  cases n with
  | ofNat n => exact ⟨false, natText n, isWhole_natText n, rfl⟩
  | negSucc n => exact ⟨true, natText (n + 1), isWhole_natText (n + 1), rfl⟩

/-! ### Points -/

namespace CType

theorem withPoint_signText (negative : Bool) (text : List Char) :
    withPoint (signText negative ++ text) = signText negative ++ withPoint text := by
  cases negative with
  | false => rfl
  | true =>
      have hcontains : (signText true ++ text).contains '.' = text.contains '.' := by
        simp [signText]
      rw [withPoint, withPoint, hcontains]
      split <;> simp

theorem withPoint_of_isDigits {text : List Char} (h : IsDigits text) :
    withPoint text = text ++ ['.', '0'] := by
  have hpoint : text.contains '.' = false := by
    rw [List.contains_eq_mem, decide_eq_false_iff_not]
    intro hmem
    exact absurd (h.2 _ hmem) (by decide)
  rw [withPoint, hpoint]
  rfl

theorem withPoint_append_point (whole fraction : List Char) :
    withPoint (whole ++ '.' :: fraction) = whole ++ '.' :: fraction := by
  rw [withPoint, if_pos (by simp)]

theorem isFractional_withPoint_natText (n : Nat) : IsFractional (withPoint (natText n)) :=
  ⟨natText n, ['0'], isDigits_natText n, by simp [IsDigits],
    withPoint_of_isDigits (isDigits_natText n)⟩

theorem isFractional_withPoint_plain (d : Decimal) : IsFractional (withPoint d.plain) := by
  unfold Decimal.plain
  split
  · exact isFractional_withPoint_natText _
  · exact ⟨_, _, isDigits_natText _, isDigits_paddedText _ _, withPoint_append_point _ _⟩

end CType

/-- **A decimal with its sign and a point** is a constant of type `double`. -/
theorem Exact.isSigned_withPoint_plain {x : Exact} {q : ℚ} (fmt : Float.Model.Format)
    (hq : x.value? = some q) : IsSigned IsFractional (CType.withPoint (x.plain fmt)) := by
  cases x with
  | nan => cases hq
  | infinite negative => cases hq
  | finite negative m e =>
      cases m with
      | zero => exact ⟨negative, _, CType.isFractional_withPoint_natText 0,
          CType.withPoint_signText negative ['0']⟩
      | succ m => exact ⟨negative, _, CType.isFractional_withPoint_plain _,
          CType.withPoint_signText negative _⟩

/-! ### What is not a number -/

theorem mem_of_isSigned_isFractional {text : List Char} (h : IsSigned IsFractional text) {c : Char}
    (hc : c ∈ text) : c.isDigit = true ∨ c = '-' ∨ c = '.' := by
  obtain ⟨negative, -, ⟨whole, fraction, hwhole, hfraction, rfl⟩, rfl⟩ := h
  rcases List.mem_append.1 hc with hc | hc
  · cases negative with
    | false => cases hc
    | true => exact .inr (.inl (List.mem_singleton.1 hc))
  · rcases List.mem_append.1 hc with hc | hc
    · exact .inl (hwhole.2 c hc)
    · rcases List.mem_cons.1 hc with rfl | hc
      · exact .inr (.inr rfl)
      · exact .inl (hfraction.2 c hc)

theorem CType.mem_withPoint {text : List Char} {c : Char} (hc : c ∈ text) : c ∈ withPoint text := by
  rw [withPoint]
  split
  · exact hc
  · exact List.mem_append_left _ hc

namespace Exact

/-- Texts of what is not finite have letters in them. -/
theorem not_isSigned_withPoint_plain {x : Exact} (fmt : Float.Model.Format)
    (h : ¬∃ q, x.value? = some q) : ¬IsSigned IsFractional (CType.withPoint (x.plain fmt)) := by
  intro hsigned
  cases x with
  | nan =>
      have hletter := mem_of_isSigned_isFractional hsigned (c := 'N')
        (CType.mem_withPoint List.mem_cons_self)
      revert hletter
      decide
  | infinite negative =>
      have hletter := mem_of_isSigned_isFractional hsigned (c := 'n')
        (CType.mem_withPoint (List.mem_append_right _ (by decide)))
      revert hletter
      decide
  | finite negative m e => exact h ⟨_, rfl⟩

theorem isSigned_withPoint_plain_iff {x : Exact} (fmt : Float.Model.Format) :
    IsSigned IsFractional (CType.withPoint (x.plain fmt)) ↔ ∃ q, x.value? = some q :=
  ⟨fun h => by_contra fun hq => not_isSigned_withPoint_plain fmt hq h,
    fun ⟨_, hq⟩ => isSigned_withPoint_plain fmt hq⟩

end Exact

/-! ### Literals -/

namespace CType

/-- **The literal of a number** is a constant of its type, unless the type is `float` and the number
is rounded to `2 ^ 128` or more in single precision. -/
theorem isConstant_literal_iff {x : Float} {q : ℚ} (hq : TreeCode.value? x = some q)
    (type : CType) :
    type.IsConstant (type.literal x) ↔ (type = float → |q| < 2 ^ 128 - 2 ^ 103) := by
  cases type with
  | unsigned w => exact iff_of_true (isSigned_intText _) nofun
  | signed w => exact iff_of_true (isSigned_intText _) nofun
  | double => exact iff_of_true (Exact.isSigned_withPoint_plain _ hq) nofun
  | float =>
      have hdecimal : float.IsConstant (float.literal x) ↔
          IsSigned IsFractional (withPoint (singleText x)) := by
        constructor
        · rintro ⟨decimal, hdecimal, htext⟩
          exact (List.append_cancel_right htext) ▸ hdecimal
        · exact fun h => ⟨_, h, rfl⟩
      rw [hdecimal, singleText, Exact.isSigned_withPoint_plain_iff,
        Exact.exists_value?_single_iff (normal_ofFloat x) hq]
      simp

end CType

namespace Draft

/-- Thresholds of the whole range, the second one beyond that of single precision. -/
def steep : Draft := ⟨"t", 1, .float, #[⟨.split 0 0.5 1 2, none⟩, ⟨.leaf 0, none⟩,
  ⟨.split 0 1e39 3 4, none⟩, ⟨.leaf 1, none⟩, ⟨.leaf 2, none⟩]⟩

def steepTree : Tree :=
  ⟨"t", 1, .float, .split ⟨0, none, 0⟩ 0 0.5 (.leaf ⟨1, none, 0⟩ 0)
    (.split ⟨2, none, 0⟩ 0 1e39 (.leaf ⟨3, none, 0⟩ 1) (.leaf ⟨4, none, 0⟩ 2)), false⟩

set_option maxRecDepth 2000 in
theorem build_steep : steep.build 0 = .ok steepTree := by
  have hhead : steep.checkHead 0 = .ok () := by
    simp [checkHead, steep, show isIdentifier ['t'] = true by decide]
  have hrules : steep.checkSketches 0 [] steep.sketches.toList = .ok [4, 3, 2, 1] := rfl
  have hg : steep.grow steep.sketches.size 0 = some steepTree.root := rfl
  exact build_of_grow hhead hrules (by decide) hg (by decide)

/-- **The literals of a table**, those of the thresholds and that of zero, which stands in the
entries of leaves, are constants of the type of the thresholds; but where that type is `float`, a
threshold of a magnitude from `2 ^ 128 - 2 ^ 103` on has no constant. -/
theorem literal_isConstant_iff {d : Draft} {head : NodeId} {t : Tree} {th : Float}
    (hb : d.build head = .ok t) (hth : th = 0 ∨ th ∈ t.root.thresholds) :
    ∃ q, value? th = some q ∧
      ((CType.ofThresholds t).IsConstant ((CType.ofThresholds t).literal th) ↔
        (CType.ofThresholds t = .float → |q| < 2 ^ 128 - 2 ^ 103)) := by
  have hfinite : ∃ q, value? th = some q := by
    rcases hth with rfl | hth
    · exact ⟨0, value?_zero⟩
    · exact exists_value?_iff.2 ((build_wellFormed hb).isFinite hth)
  obtain ⟨q, hq⟩ := hfinite
  exact ⟨q, hq, CType.isConstant_literal_iff hq _⟩

/-- A threshold of type `float` within the range of single precision. -/
theorem literal_isConstant_steep : steep.build 0 = .ok steepTree ∧
    (0.5 : Float) ∈ steepTree.root.thresholds ∧ CType.ofThresholds steepTree = .float ∧
    value? 0.5 = some (1 / 2) ∧ CType.float.IsConstant (CType.float.literal 0.5) := by
  have hmem : (0.5 : Float) ∈ steepTree.root.thresholds := List.mem_cons_self
  have htype : CType.ofThresholds steepTree = .float := by decide
  have hvalue : value? 0.5 = some (1 / 2) := by
    have hexact : Exact.ofFloat 0.5 = .finite false (2 ^ 52) (-53) := by decide
    rw [value?, hexact, Exact.value?]
    norm_num
  obtain ⟨q, hq, hiff⟩ := literal_isConstant_iff build_steep (.inr hmem)
  obtain rfl : q = 1 / 2 := Option.some.inj (hq.symm.trans hvalue)
  rw [htype] at hiff
  exact ⟨build_steep, hmem, htype, hvalue, hiff.2 fun _ => by norm_num⟩

set_option maxRecDepth 2000 in
/-- The threshold beyond that range comes out as a word. -/
theorem literal_of_steep : steep.build 0 = .ok steepTree ∧
    (1e39 : Float) ∈ steepTree.root.thresholds ∧ CType.ofThresholds steepTree = .float ∧
    CType.float.literal 1e39 = "inf.0f".toList ∧
    ¬CType.float.IsConstant (CType.float.literal 1e39) := by
  have hexact : Exact.ofFloat 1e39 = .finite false 6617444900424221 77 := by decide
  have hliteral : CType.float.literal 1e39 = "inf.0f".toList := by
    rw [CType.literal, singleText, hexact]
    decide
  refine ⟨build_steep, by simp [steepTree, Node.thresholds], by decide, hliteral, ?_⟩
  rw [hliteral]
  rintro ⟨decimal, hdecimal, htext⟩
  obtain rfl : "inf.0".toList = decimal :=
    List.append_cancel_right (show "inf.0".toList ++ ['f'] = decimal ++ ['f'] from htext)
  exact absurd (mem_of_isSigned_isFractional hdecimal (c := 'n') (by decide)) (by decide)

end Draft
end TreeCode
