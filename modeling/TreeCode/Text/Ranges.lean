/-! # Sets of code points

A set of code points is a list of disjoint ranges in increasing order, so that a search ends
at the first range that starts beyond the code point. -/

namespace TreeCode.Text

/-- Ranges `(first, last)` of code points, both ends included, in increasing order. -/
abbrev Ranges := List (Nat × Nat)

namespace Ranges

/-- Search from the lowest range on, up to the first one that starts beyond `n`. -/
def contains : Ranges → Nat → Bool
  | [], _ => false
  | (first, last) :: rest, n => decide (first ≤ n) && (decide (n ≤ last) || contains rest n)

variable {first last n : Nat} {rest : Ranges}

theorem contains_head (h : first ≤ n) (h' : n ≤ last) : contains ((first, last) :: rest) n := by
  simp [contains, h, h']

theorem contains_tail (h : first ≤ n) (h' : contains rest n) :
    contains ((first, last) :: rest) n := by
  simp [contains, h, h']

end Ranges

end TreeCode.Text
