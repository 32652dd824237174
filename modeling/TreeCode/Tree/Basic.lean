import TreeCode.Evaluation
import TreeCode.FeatureType
import TreeCode.Number.Exact
import TreeCode.Worklist

/-! # Decision trees

A decision tree sends a feature vector left or right at each split, by comparing one feature
with a threshold, until a leaf gives the prediction. Every node has a number of its own, the
count of training samples that reached it if that is known, and the probability that an
evaluation reaches it, which is zero before it is computed.

A loop over the nodes of a tree knows them by their numbers only, and looks the children of a split
up. Nothing in such a loop bounds it: it ends because every node of a tree that was built has a
number of its own. -/

namespace TreeCode

/-- The number of a node within its tree. -/
abbrev NodeId := Nat

inductive Side where
  | left
  | right
deriving DecidableEq, Repr

/-- What is known of a node besides its rule. -/
structure Mark where
  id : NodeId
  samples : Option UInt64
  /-- Probability that an evaluation reaches the node. -/
  prob : Float
deriving DecidableEq

inductive Node where
  | leaf (mark : Mark) (prediction : UInt32)
  | split (mark : Mark) (feature : UInt32) (threshold : Float) (left right : Node)
deriving DecidableEq

namespace Node

/-! ### Reading a node -/

def mark : Node → Mark
  | leaf m _ => m
  | split m .. => m

def id (n : Node) : NodeId := n.mark.id

def samples (n : Node) : Option UInt64 := n.mark.samples

def prob (n : Node) : Float := n.mark.prob

def isLeaf : Node → Bool
  | leaf .. => true
  | split .. => false

/-! ### The nodes below -/

/-- All nodes from this one down, a split before its left and then its right side. -/
def subtrees : Node → List Node
  | leaf m p => [leaf m p]
  | split m f t l r => split m f t l r :: (l.subtrees ++ r.subtrees)

/-- Thresholds of all splits from this node down. -/
def thresholds : Node → List Float
  | leaf .. => []
  | split _ _ t l r => t :: (l.thresholds ++ r.thresholds)

/-- The threshold of a split. -/
def threshold? : Node → Option Float
  | leaf .. => none
  | split _ _ t _ _ => some t

/-- Number of nodes. -/
def size : Node → Nat
  | leaf .. => 1
  | split _ _ _ l r => l.size + r.size + 1

/-- Number of steps on the longest way down. -/
def height : Node → Nat
  | leaf .. => 0
  | split _ _ _ l r => max l.height r.height + 1

theorem length_subtrees (n : Node) : n.subtrees.length = n.size := by
  induction n with
  | leaf m p => rfl
  | split m f t l r ihl ihr => simp [subtrees, size, ihl, ihr]

/-! ### Evaluation -/

/-- The prediction for a feature vector. -/
def evaluate (x : FeatureVector) : Node → Except Fault UInt32
  | leaf _ p => .ok p
  | split _ f t l r => do
      let v ← x.read f
      if v ≤ t then l.evaluate x else r.evaluate x

/-! ### Hot and cold -/

/-- Of two children the left one is the hot one: it is reached with the higher probability, or
with the same. -/
abbrev LeftHot (l r : Node) : Prop := r.prob ≤ l.prob

end Node

/-- A decision tree with the facts that the generated code needs. -/
structure Tree where
  /-- The first part of every generated name. -/
  name : String
  /-- Length of the feature vector. -/
  dim : UInt32
  featureType : FeatureType
  root : Node
  /-- The probabilities have been computed. -/
  annotated : Bool

namespace Tree

def node? (t : Tree) (id : NodeId) : Option Node :=
  t.root.subtrees.find? (·.id == id)

def nodeCount (t : Tree) : Nat := t.root.size

/-- The nodes in the order of their numbers, which start at zero. -/
def nodes (t : Tree) : List Node :=
  let all := t.root.subtrees
  (List.range t.nodeCount).filterMap fun id => all.find? (·.id == id)

def evaluate (t : Tree) (x : FeatureVector) : Except Fault UInt32 := t.root.evaluate x

/-! ### Going by the numbers -/

/-- The numbers of the left and the right child of a split. -/
def childIds (t : Tree) (id : NodeId) : Option (NodeId × NodeId) :=
  match t.node? id with
  | some (.split _ _ _ l r) => some (l.id, r.id)
  | _ => none

/-- The node that the steps of a path lead to. -/
def follow (t : Tree) (id : NodeId) : List Side → Option NodeId
  | [] => some id
  | .left :: path => do t.follow (← t.childIds id).1 path
  | .right :: path => do t.follow (← t.childIds id).2 path

/-- The children of a node at some depth, with their depth, the right one first. -/
def deeper (t : Tree) : NodeId × Nat → List (NodeId × Nat)
  | (id, depth) =>
      match t.childIds id with
      | some (l, r) => [(r, depth + 1), (l, depth + 1)]
      | none => []

/-- Number of steps on the longest way down. -/
def depth (t : Tree) : Nat :=
  workOff t.deeper (fun greatest (_, depth) => max greatest depth) 0 [(t.root.id, 0)]

/-- One round of an evaluation, at the node of this number: the number of the child to go on at,
or the prediction of a leaf. -/
def goDown (t : Tree) (x : FeatureVector) (id : NodeId) : Except Fault (NodeId ⊕ UInt32) :=
  match t.node? id with
  | none => .error (.missingNode id)
  | some (.leaf _ p) => .ok (.inr p)
  | some (.split _ f threshold l r) => do
      let v ← x.read f
      pure (.inl (if v ≤ threshold then l.id else r.id))

/-- The prediction for a feature vector, found by going down from the root. -/
def evaluateByNumbers (t : Tree) (x : FeatureVector) : Except Fault UInt32 :=
  repeatM (t.goDown x) t.root.id

/-! ### Thresholds -/

/-- Some threshold has a fractional part. -/
def containsFloat (t : Tree) : Bool := t.root.thresholds.any (!isIntegral ·)

/-- Widen a range to hold `x`. -/
def widen : Option (Float × Float) → Float → Option (Float × Float)
  | none, x => some (x, x)
  | some (low, high), x => some (if x < low then x else low, if high < x then x else high)

/-- The least and the greatest threshold, if there is a split. -/
def thresholdRange? (t : Tree) : Option (Float × Float) := t.root.thresholds.foldl widen none

/-- The thresholds of the splits in the order of their numbers. -/
def thresholdsByNumbers (t : Tree) : List Float := t.nodes.filterMap Node.threshold?

/-- Some threshold has a fractional part, as a search by the numbers finds. -/
def containsFloatByNumbers (t : Tree) : Bool := t.thresholdsByNumbers.any (!isIntegral ·)

/-- The least and the greatest threshold, found by going by the numbers. -/
def thresholdRangeByNumbers? (t : Tree) : Option (Float × Float) :=
  t.thresholdsByNumbers.foldl widen none

end Tree

end TreeCode
