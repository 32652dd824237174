import TreeCode.Proofs.Tree.Built

/-! # Evaluations

A value that is not a number is neither at most a threshold nor greater than it. `Node.evaluate`
sends it to the right; code that asks whether the value is greater sends it to the left.
`Node.evaluateWith` allows for both, split by split. Such an evaluation comes to a leaf or breaks
off at the first missing feature (`evaluateWith_cases`), and all of them agree on vectors of
numbers (`evaluateWith_eq_evaluate`). -/

namespace TreeCode

theorem FeatureVector.read_cases (x : FeatureVector) (f : UInt32) :
    (∃ v ∈ x, x.read f = .ok v) ∨ x.size ≤ f.toNat ∧ x.read f = .error (.missingFeature f) := by
  by_cases hf : f.toNat < x.size
  · exact .inl ⟨_, Array.getElem_mem hf, read_of_lt hf⟩
  · exact .inr ⟨Nat.le_of_not_lt hf, read_of_le (Nat.le_of_not_lt hf)⟩

namespace Node

/-- A value goes left at a node: it is at most the threshold, or it is not a number and the node
is one of those in `lefts`. -/
def GoesLeft (lefts : List NodeId) (id : NodeId) (v t : Float) : Prop :=
  v ≤ t ∨ v.isNaN = true ∧ id ∈ lefts

instance (lefts : List NodeId) (id : NodeId) (v t : Float) : Decidable (GoesLeft lefts id v t) :=
  inferInstanceAs (Decidable (_ ∨ _))

/-- The prediction when values that are not numbers go left at the nodes in `lefts`, and right at
all others. -/
def evaluateWith (lefts : List NodeId) (x : FeatureVector) : Node → Except Fault UInt32
  | leaf _ p => .ok p
  | split m f t l r => do
      let v ← x.read f
      if GoesLeft lefts m.id v t then l.evaluateWith lefts x else r.evaluateWith lefts x

variable {lefts lefts' : List NodeId} {x : FeatureVector} {n : Node} {m : Mark} {f : UInt32}
  {t v : Float} {l r : Node}

/-! ### One split -/

theorem evaluate_of_read (hv : x.read f = .ok v) :
    (split m f t l r).evaluate x = if v ≤ t then l.evaluate x else r.evaluate x := by
  rw [evaluate, hv]
  rfl

theorem evaluate_of_le (hf : x.size ≤ f.toNat) :
    (split m f t l r).evaluate x = .error (.missingFeature f) := by
  rw [evaluate, FeatureVector.read_of_le hf]
  rfl

theorem evaluateWith_of_read (hv : x.read f = .ok v) :
    (split m f t l r).evaluateWith lefts x =
      if GoesLeft lefts m.id v t then l.evaluateWith lefts x else r.evaluateWith lefts x := by
  rw [evaluateWith, hv]
  rfl

theorem evaluateWith_of_le (hf : x.size ≤ f.toNat) :
    (split m f t l r).evaluateWith lefts x = .error (.missingFeature f) := by
  rw [evaluateWith, FeatureVector.read_of_le hf]
  rfl

/-! ### Whole ways -/

/-- **An evaluation** ends at a leaf or at the first missing feature on its way. -/
theorem evaluateWith_cases (lefts : List NodeId) (x : FeatureVector) (n : Node) :
    (∃ m p, leaf m p ∈ n.subtrees ∧ n.evaluateWith lefts x = .ok p) ∨
      ∃ m f t l r, split m f t l r ∈ n.subtrees ∧ x.size ≤ f.toNat ∧
        n.evaluateWith lefts x = .error (.missingFeature f) := by
  induction n with
  | leaf m p => exact .inl ⟨m, p, mem_subtrees_self _, rfl⟩
  | split m f t l r ihl ihr =>
      rcases x.read_cases f with ⟨v, -, hv⟩ | ⟨hf, -⟩
      · rw [evaluateWith_of_read hv]
        split_ifs
        · rcases ihl with ⟨m', p, ha, he⟩ | ⟨m', f', t', l', r', ha, hle, he⟩
          · exact .inl ⟨m', p, mem_subtrees_trans ha left_mem_subtrees, he⟩
          · exact .inr ⟨m', f', t', l', r', mem_subtrees_trans ha left_mem_subtrees, hle, he⟩
        · rcases ihr with ⟨m', p, ha, he⟩ | ⟨m', f', t', l', r', ha, hle, he⟩
          · exact .inl ⟨m', p, mem_subtrees_trans ha right_mem_subtrees, he⟩
          · exact .inr ⟨m', f', t', l', r', mem_subtrees_trans ha right_mem_subtrees, hle, he⟩
      · exact .inr ⟨m, f, t, l, r, mem_subtrees_self _, hf, evaluateWith_of_le hf⟩

/-- A vector that has all features comes to a leaf. -/
theorem WellFormed.exists_leaf {dim : UInt32} (h : n.WellFormed dim) (hx : dim.toNat ≤ x.size)
    (lefts : List NodeId) :
    ∃ m p, leaf m p ∈ n.subtrees ∧ n.evaluateWith lefts x = .ok p := by
  rcases evaluateWith_cases lefts x n with hleaf | ⟨m, f, t, l, r, hs, hf, -⟩
  · exact hleaf
  · have := UInt32.lt_iff_toNat_lt.1 (h.split hs).1
    omega

theorem evaluateWith_congr (h : ∀ a ∈ n.subtrees, a.id ∈ lefts ↔ a.id ∈ lefts') :
    n.evaluateWith lefts x = n.evaluateWith lefts' x := by
  induction n with
  | leaf m p => rfl
  | split m f t l r ihl ihr =>
      have hm : m.id ∈ lefts ↔ m.id ∈ lefts' := h _ (mem_subtrees_self _)
      have ihl := ihl fun a ha => h a (mem_subtrees_trans ha left_mem_subtrees)
      have ihr := ihr fun a ha => h a (mem_subtrees_trans ha right_mem_subtrees)
      rcases x.read_cases f with ⟨v, -, hv⟩ | ⟨hf, -⟩
      · have hiff : GoesLeft lefts m.id v t ↔ GoesLeft lefts' m.id v t := by
          unfold GoesLeft
          rw [hm]
        rw [evaluateWith_of_read hv, evaluateWith_of_read hv, ihl, ihr]
        simp only [hiff]
      · rw [evaluateWith_of_le hf, evaluateWith_of_le hf]

theorem evaluateWith_nil (x : FeatureVector) (n : Node) : n.evaluateWith [] x = n.evaluate x := by
  induction n with
  | leaf m p => rfl
  | split m f t l r ihl ihr =>
      simp only [evaluateWith, evaluate, GoesLeft, List.not_mem_nil, and_false, or_false, ihl, ihr]

/-- **On vectors of numbers** it does not matter where other values would go. -/
theorem evaluateWith_eq_evaluate (hx : ∀ v ∈ x, v.isNaN = false) (lefts : List NodeId) (n : Node) :
    n.evaluateWith lefts x = n.evaluate x := by
  induction n with
  | leaf m p => rfl
  | split m f t l r ihl ihr =>
      rcases x.read_cases f with ⟨v, hmem, hv⟩ | ⟨hf, -⟩
      · have hiff : GoesLeft lefts m.id v t ↔ v ≤ t := by
          unfold GoesLeft
          rw [hx v hmem]
          simp only [Bool.false_eq_true, false_and, or_false]
        rw [evaluateWith_of_read hv, evaluate_of_read hv, ihl, ihr]
        simp only [hiff]
      · rw [evaluateWith_of_le hf, evaluate_of_le hf]

end Node
end TreeCode
