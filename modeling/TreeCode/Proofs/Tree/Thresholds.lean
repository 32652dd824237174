import TreeCode.Proofs.Number.Integer
import TreeCode.Proofs.Tree.Built

/-! # Thresholds of a tree

In a tree that was built every threshold is finite, and unless some threshold has a fractional
part, each of them is an integer (`exists_int_of_mem_thresholds`). The range of the thresholds
runs from one of them to another, and all lie in it (`spans_thresholdRange?`). -/

namespace TreeCode

theorem Node.mem_thresholds_iff {th : Float} {n : Node} :
    th ∈ n.thresholds ↔ ∃ m f l r, split m f th l r ∈ n.subtrees := by
  induction n with
  | leaf m p => simp [thresholds, subtrees]
  | split m' f' t' l' r' ihl ihr =>
      simp only [thresholds, subtrees, List.mem_cons, List.mem_append, ihl, ihr]
      constructor
      · rintro (rfl | ⟨m, f, l, r, h⟩ | ⟨m, f, l, r, h⟩)
        · exact ⟨m', f', l', r', .inl rfl⟩
        · exact ⟨m, f, l, r, .inr (.inl h)⟩
        · exact ⟨m, f, l, r, .inr (.inr h)⟩
      · rintro ⟨m, f, l, r, h | h | h⟩
        · exact .inl (Node.split.inj h).2.2.1
        · exact .inr (.inl ⟨m, f, l, r, h⟩)
        · exact .inr (.inr ⟨m, f, l, r, h⟩)

theorem Node.WellFormed.isFinite {dim : UInt32} {n : Node} {th : Float} (h : n.WellFormed dim)
    (hth : th ∈ n.thresholds) : th.isFinite = true := by
  obtain ⟨m, f, l, r, hs⟩ := mem_thresholds_iff.1 hth
  exact (h.split hs).2

/-! ### Ranges -/

/-- A range spans numbers if its ends are two of them and all of them lie between the ends. -/
def Spans : Option (Float × Float) → List Float → Prop
  | none, xs => xs = []
  | some (low, high), xs => low ∈ xs ∧ high ∈ xs ∧ ∃ p q, value? low = some p ∧
      value? high = some q ∧ ∀ x ∈ xs, ∃ v, value? x = some v ∧ p ≤ v ∧ v ≤ q

namespace Spans

variable {range : Option (Float × Float)} {xs ys : List Float} {x : Float}

theorem widen {v : ℚ} (h : Spans range xs) (hx : value? x = some v) :
    Spans (Tree.widen range x) (xs ++ [x]) := by
  match range, h with
  | none, h =>
      obtain rfl : xs = [] := h
      exact ⟨by simp, by simp, v, v, hx, hx, by simp [hx]⟩
  | some (low, high), ⟨hlow, hhigh, p, q, hp, hq, hall⟩ =>
      have hmin : value? (if x < low then x else low) = some (min v p) := by
        split_ifs with hlt
        · rw [min_eq_left ((lt_iff_of_value? hx hp).1 hlt).le, hx]
        · rw [min_eq_right (not_lt.1 (mt (lt_iff_of_value? hx hp).2 hlt)), hp]
      have hmax : value? (if high < x then x else high) = some (max v q) := by
        split_ifs with hlt
        · rw [max_eq_left ((lt_iff_of_value? hq hx).1 hlt).le, hx]
        · rw [max_eq_right (not_lt.1 (mt (lt_iff_of_value? hq hx).2 hlt)), hq]
      refine ⟨?_, ?_, _, _, hmin, hmax, fun y hy => ?_⟩
      · split_ifs <;> simp [hlow]
      · split_ifs <;> simp [hhigh]
      · rcases List.mem_append.1 hy with hy | hy
        · obtain ⟨w, hw, hpw, hwq⟩ := hall y hy
          exact ⟨w, hw, (min_le_right v p).trans hpw, hwq.trans (le_max_right v q)⟩
        · obtain rfl := List.mem_singleton.1 hy
          exact ⟨v, hx, min_le_left v p, le_max_left v q⟩

theorem foldl (h : Spans range xs) (hys : ∀ y ∈ ys, ∃ v, value? y = some v) :
    Spans (ys.foldl Tree.widen range) (xs ++ ys) := by
  induction ys generalizing range xs with
  | nil => simpa using h
  | cons y ys ih =>
      obtain ⟨v, hv⟩ := hys y (by simp)
      have := ih (h.widen hv) fun z hz => hys z (by simp [hz])
      rwa [List.append_assoc] at this

end Spans

/-! ### Trees that were built -/

/-- Unless a threshold has a fractional part, each one is an integer. -/
theorem Tree.exists_int_of_mem_thresholds {t : Tree} {th : Float} (h : t.containsFloat = false)
    (hth : th ∈ t.root.thresholds) : ∃ n : Int, value? th = some (n : ℚ) := by
  rw [containsFloat, List.any_eq_false] at h
  exact isIntegral_iff_exists.1 (by simpa using h th hth)

namespace Draft

variable {d : Draft} {head : NodeId} {t : Tree} {th : Float}

/-- **The range of the thresholds** spans them. -/
theorem spans_thresholdRange? (hb : d.build head = .ok t) :
    Spans t.thresholdRange? t.root.thresholds :=
  Spans.foldl (show Spans none [] from rfl) fun _ hx =>
    exists_value?_iff.2 ((build_wellFormed hb).isFinite hx)

/-- A threshold among integers lies in a range of integers, which starts below zero if and only
if some threshold is negative. -/
theorem exists_int_range (hb : d.build head = .ok t) (h : t.containsFloat = false)
    (hth : th ∈ t.root.thresholds) :
    ∃ low high, ∃ lo hi n : Int, t.thresholdRange? = some (low, high) ∧
      value? low = some (lo : ℚ) ∧ value? high = some (hi : ℚ) ∧ value? th = some (n : ℚ) ∧
      lo ≤ n ∧ n ≤ hi ∧ ((∃ y ∈ t.root.thresholds, y < 0) ↔ lo < 0) := by
  have hspans := spans_thresholdRange? hb
  match hrange : t.thresholdRange?, hspans with
  | none, hspans =>
      rw [show t.root.thresholds = [] from hspans] at hth
      cases hth
  | some (low, high), ⟨hlow, hhigh, p, q, hp, hq, hall⟩ =>
      obtain ⟨lo, hlo⟩ := t.exists_int_of_mem_thresholds h hlow
      obtain ⟨hi, hhi⟩ := t.exists_int_of_mem_thresholds h hhigh
      obtain ⟨n, hn⟩ := t.exists_int_of_mem_thresholds h hth
      obtain rfl := Option.some.inj (hlo.symm.trans hp)
      obtain rfl := Option.some.inj (hhi.symm.trans hq)
      obtain ⟨v, hv, hpv, hvq⟩ := hall th hth
      obtain rfl := Option.some.inj (hn.symm.trans hv)
      refine ⟨low, high, lo, hi, n, rfl, hlo, hhi, hn, Int.cast_le.1 hpv, Int.cast_le.1 hvq, ?_⟩
      constructor
      · rintro ⟨y, hy, hneg⟩
        obtain ⟨w, hw, hpw, -⟩ := hall y hy
        have hlt := hpw.trans_lt ((lt_iff_of_value? hw value?_zero).1 hneg)
        exact_mod_cast hlt
      · intro hneg
        refine ⟨low, hlow, (lt_iff_of_value? hp value?_zero).2 ?_⟩
        exact_mod_cast hneg

end Draft
end TreeCode
