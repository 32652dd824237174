import TreeCode.Tree.Basic

/-! # Probabilities of the nodes

Every evaluation reaches the root. A split passes its probability on to its children in
proportion to the training samples that reached them, or evenly if these are not known or there
were none. Main statements: computing the probabilities changes nothing else, and computing them
again changes nothing at all.

The counts of two children are added in 64 bits. A sum that does not fit wraps around, or it stops
the computation where sums are checked; where all sums fit both ways are the same
(`Node.annotateIn_of_fits`). -/

namespace TreeCode

/-! ### Shares -/

/-- The shares of two children with these counts, of which the sum is `total`. -/
def portions (l r total : UInt64) : Float × Float :=
  if 0 < total then
    (Float.ofNat l.toNat / Float.ofNat total.toNat, Float.ofNat r.toNat / Float.ofNat total.toNat)
  else (0.5, 0.5)

/-- The shares of two children with these sample counts. -/
def shares : Option UInt64 → Option UInt64 → Float × Float
  | some l, some r => portions l r (l + r)
  | _, _ => (0.5, 0.5)

/-- What becomes of a sum that does not fit. -/
inductive Overflow where
  | wraps
  /-- The computation breaks off. -/
  | stops
deriving DecidableEq, Repr

namespace Overflow

def sum (l r : UInt64) : Overflow → Except Fault UInt64
  | wraps => .ok (l + r)
  | stops => if l.toNat + r.toNat < UInt64.size then .ok (l + r) else .error .countOverflow

/-- The shares of two children with these sample counts, unless their sum breaks off. -/
def shares (v : Overflow) : Option UInt64 → Option UInt64 → Except Fault (Float × Float)
  | some l, some r => portions l r <$> v.sum l r
  | _, _ => .ok (0.5, 0.5)

end Overflow

namespace Node

/-- Set the probability of a node and, by the shares, of all nodes below it. -/
def annotate (prob : Float) : Node → Node
  | leaf m p => leaf { m with prob := prob } p
  | split m f t l r =>
      let (toLeft, toRight) := shares l.samples r.samples
      split { m with prob := prob } f t (l.annotate (prob * toLeft)) (r.annotate (prob * toRight))

/-- Set the probabilities, unless a sum breaks off. -/
def annotateIn (v : Overflow) (prob : Float) : Node → Except Fault Node
  | leaf m p => .ok (leaf { m with prob := prob } p)
  | split m f t l r => do
      let (toLeft, toRight) ← v.shares l.samples r.samples
      let l ← l.annotateIn v (prob * toLeft)
      let r ← r.annotateIn v (prob * toRight)
      pure (split { m with prob := prob } f t l r)

/-- Set the probability of the node of this number. -/
def setProb (id : NodeId) (prob : Float) : Node → Node
  | leaf m p => leaf (if m.id = id then { m with prob := prob } else m) p
  | split m f t l r =>
      split (if m.id = id then { m with prob := prob } else m) f t (l.setProb id prob)
        (r.setProb id prob)

/-- The counts of two children of a split, where both are known, have a sum of 64 bits. -/
def CountsFit : Node → Prop
  | leaf .. => True
  | split _ _ _ l r =>
      (∀ a ∈ l.samples, ∀ b ∈ r.samples, a.toNat + b.toNat < UInt64.size) ∧
        l.CountsFit ∧ r.CountsFit

instance decidableCountsFit : (n : Node) → Decidable n.CountsFit
  | leaf .. => inferInstanceAs (Decidable True)
  | split _ _ _ l r =>
      have (a : UInt64) : Decidable (∀ b ∈ r.samples, a.toNat + b.toNat < UInt64.size) :=
        Option.decidableForallMem _
      have : Decidable (∀ a ∈ l.samples, ∀ b ∈ r.samples, a.toNat + b.toNat < UInt64.size) :=
        Option.decidableForallMem _
      have := decidableCountsFit l
      have := decidableCountsFit r
      inferInstanceAs (Decidable (_ ∧ _ ∧ _))

theorem samples_annotate (p : Float) (n : Node) : (n.annotate p).samples = n.samples := by
  cases n <;> rfl

theorem annotate_annotate (p q : Float) (n : Node) :
    (n.annotate p).annotate q = n.annotate q := by
  induction n generalizing p q with
  | leaf m v => rfl
  | split m f t l r ihl ihr => simp only [annotate, samples_annotate, ihl, ihr]

theorem countsFit_annotate (p : Float) (n : Node) : (n.annotate p).CountsFit ↔ n.CountsFit := by
  induction n generalizing p with
  | leaf m v => rfl
  | split m f t l r ihl ihr => simp only [annotate, CountsFit, samples_annotate, ihl, ihr]

end Node

/-! ### Sums that fit -/

namespace Overflow

variable {v : Overflow} {a b : Option UInt64}

theorem shares_of_fits (h : v = .wraps ∨ ∀ l ∈ a, ∀ r ∈ b, l.toNat + r.toNat < UInt64.size) :
    v.shares a b = .ok (TreeCode.shares a b) := by
  cases a with
  | none => rfl
  | some l =>
      cases b with
      | none => rfl
      | some r =>
          cases v with
          | wraps => rfl
          | stops =>
              have hfits : l.toNat + r.toNat < UInt64.size := h.resolve_left nofun l rfl r rfl
              rw [shares, sum, if_pos hfits]
              rfl

theorem shares_of_not_fits (h : ¬∀ l ∈ a, ∀ r ∈ b, l.toNat + r.toNat < UInt64.size) :
    stops.shares a b = .error .countOverflow := by
  cases a with
  | none => exact absurd nofun h
  | some l =>
      cases b with
      | none => exact absurd (fun _ _ => nofun) h
      | some r =>
          have hnot : ¬l.toNat + r.toNat < UInt64.size := by
            simpa only [Option.mem_def, Option.some.injEq, forall_eq'] using h
          rw [shares, sum, if_neg hnot]
          rfl

end Overflow

namespace Node

variable {v : Overflow} {n : Node}

/-- Where all sums fit, or wrap around, the probabilities are set. -/
theorem annotateIn_of_fits (h : v = .wraps ∨ n.CountsFit) (p : Float) :
    n.annotateIn v p = .ok (n.annotate p) := by
  induction n generalizing p with
  | leaf m q => rfl
  | split m f t l r ihl ihr =>
      rw [annotateIn, Overflow.shares_of_fits (h.imp_right And.left)]
      dsimp only [bind, Except.bind]
      rw [ihl (h.imp_right fun h => h.2.1), ihr (h.imp_right fun h => h.2.2)]
      rfl

/-- A sum that is checked and does not fit breaks off the computation. -/
theorem annotateIn_of_not_fits (h : ¬n.CountsFit) (p : Float) :
    n.annotateIn .stops p = .error .countOverflow := by
  induction n generalizing p with
  | leaf m q => exact absurd trivial h
  | split m f t l r ihl ihr =>
      rw [annotateIn]
      by_cases hself : ∀ a ∈ l.samples, ∀ b ∈ r.samples, a.toNat + b.toNat < UInt64.size
      · rw [Overflow.shares_of_fits (.inr hself)]
        dsimp only [bind, Except.bind]
        by_cases hl : l.CountsFit
        · have hr : ¬r.CountsFit := fun hr => h ⟨hself, hl, hr⟩
          rw [annotateIn_of_fits (.inr hl), ihr hr]
        · rw [ihl hl]
      · rw [Overflow.shares_of_not_fits hself]
        rfl

end Node

namespace Tree

/-- The tree with its probabilities. -/
def annotate (t : Tree) : Tree :=
  { t with root := t.root.annotate 1, annotated := true }

/-- The tree with its probabilities, unless a sum breaks off. -/
def annotateIn (v : Overflow) (t : Tree) : Except Fault Tree := do
  pure { t with root := ← t.root.annotateIn v 1, annotated := true }

theorem annotate_annotate (t : Tree) : t.annotate.annotate = t.annotate := by
  simp only [annotate, Node.annotate_annotate]

theorem annotateIn_of_fits {v : Overflow} {t : Tree} (h : v = .wraps ∨ t.root.CountsFit) :
    t.annotateIn v = .ok t.annotate := by
  rw [annotateIn, Node.annotateIn_of_fits h]
  rfl

theorem annotateIn_of_not_fits {t : Tree} (h : ¬t.root.CountsFit) :
    t.annotateIn .stops = .error .countOverflow := by
  rw [annotateIn, Node.annotateIn_of_not_fits h]
  rfl

/-! ### Going by the numbers -/

def samples? (t : Tree) (id : NodeId) : Option UInt64 := (t.node? id).bind Node.samples

/-- The children of a node of some probability, with their share of it, the left one first. -/
def passOn (t : Tree) : NodeId × Float → List (NodeId × Float)
  | (id, prob) =>
      match t.childIds id with
      | some (l, r) =>
          let (toLeft, toRight) := shares (t.samples? l) (t.samples? r)
          [(l, prob * toLeft), (r, prob * toRight)]
      | none => []

/-- The tree with its probabilities, set node by node. -/
def annotateByNumbers (t : Tree) : Tree :=
  { t with
    root := workOff t.passOn (fun root (id, prob) => root.setProb id prob) t.root [(t.root.id, 1)]
    annotated := true }

end Tree

end TreeCode
