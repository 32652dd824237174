/-! # Evaluation

A tree and the code made from it answer a feature vector with a prediction. The vector may be
shorter than the greatest feature that is tested, so the answer may be a fault in place of a
prediction. -/

namespace TreeCode

/-- The values of the features, by feature index. -/
abbrev FeatureVector := Array Float

/-- Why a computation breaks off. -/
inductive Fault where
  /-- The feature vector is too short. -/
  | missingFeature (feature : UInt32)
  /-- A table has no entry at this position. -/
  | missingEntry (position : Nat)
  /-- A tree has no node of this number. -/
  | missingNode (id : Nat)
  /-- A count that is zero was to be lowered. -/
  | emptyCount
  /-- The lines of an output end before this position. -/
  | missingLine (position : Nat)
  /-- Two counts have a sum that does not fit in 64 bits. -/
  | countOverflow
deriving DecidableEq, Repr

def Fault.message : Fault → String
  | missingFeature feature => s!"feature {feature} is missing"
  | missingEntry position => s!"there is no entry {position}"
  | missingNode id => s!"there is no node {id}"
  | emptyCount => "a count fell below zero"
  | missingLine position => s!"there is no line {position}"
  | countOverflow => "a sum of counts is too great"

/-- The value of a feature. -/
def FeatureVector.read (x : FeatureVector) (feature : UInt32) : Except Fault Float :=
  match x[feature.toNat]? with
  | some v => .ok v
  | none => .error (.missingFeature feature)

theorem FeatureVector.read_of_lt {x : FeatureVector} {f : UInt32} (h : f.toNat < x.size) :
    x.read f = .ok x[f.toNat] := by
  unfold read
  rw [Array.getElem?_eq_getElem h]

theorem FeatureVector.read_of_le {x : FeatureVector} {f : UInt32} (h : x.size ≤ f.toNat) :
    x.read f = .error (.missingFeature f) := by
  unfold read
  rw [Array.getElem?_eq_none h]

theorem bind_eq_ok_iff {ε α β : Type} {r : Except ε α} {f : α → Except ε β} {b : β} :
    (r >>= f) = .ok b ↔ ∃ a, r = .ok a ∧ f a = .ok b := by
  cases r <;> simp [bind, Except.bind]

end TreeCode
