import TreeCode.Tree.Basic
import TreeCode.Worklist

/-! # Drafts of trees

A draft is a list of nodes, numbered in the order of their addition, in which a split names its
children by number; children may be added after the split. `Draft.build` checks that the nodes
form one tree below the chosen head and puts it together. The search for nodes that the head does
not lead to keeps no record of where it has been: it relies on the checks before it. -/

namespace TreeCode

/-! ### Drafting -/

/-- What a drafted node does. -/
inductive Rule where
  | leaf (prediction : UInt32)
  | split (feature : UInt32) (threshold : Float) (left right : NodeId)
deriving DecidableEq

/-- The numbers of the children. -/
def Rule.children : Rule → List NodeId
  | leaf _ => []
  | split _ _ left right => [left, right]

structure Sketch where
  rule : Rule
  samples : Option UInt64
deriving DecidableEq

structure Draft where
  name : String
  dim : UInt32
  featureType : FeatureType
  sketches : Array Sketch

namespace Draft

def empty (name : String) (dim : UInt32) (featureType : FeatureType) : Draft :=
  ⟨name, dim, featureType, #[]⟩

/-- Add a node; its number comes with the new draft. -/
def add (d : Draft) (rule : Rule) : Draft × NodeId :=
  ({ d with sketches := d.sketches.push ⟨rule, none⟩ }, d.sketches.size)

/-- Record how many training samples reached a node, if the node is there. -/
def setSamples (d : Draft) (id : NodeId) (samples : UInt64) : Draft :=
  { d with sketches := d.sketches.modify id fun s => { s with samples := some samples } }

/-- What can be done with a draft before it is built. -/
inductive Step where
  | add (rule : Rule)
  | setSamples (id : NodeId) (samples : UInt64)

/-- The draft after a step. -/
def after (d : Draft) : Step → Draft
  | .add rule => (d.add rule).1
  | .setSamples id samples => d.setSamples id samples

/-- The draft after some steps. -/
def run (d : Draft) (steps : List Step) : Draft := steps.foldl after d

/-- The number that a step comes with. -/
def number? (d : Draft) : Step → Option NodeId
  | .add rule => some (d.add rule).2
  | .setSamples .. => none

/-- All numbers of a run, in the order of its steps. -/
def numbers (d : Draft) : List Step → List NodeId
  | [] => []
  | step :: steps => (d.number? step).toList ++ (d.after step).numbers steps

end Draft

/-! ### Defects -/

/-- Why a draft is not a tree. -/
inductive TreeError where
  | empty
  | zeroDimension
  | invalidName (name : String)
  | missingHead (head : NodeId)
  | danglingChild (parent child : NodeId)
  | sharedChild (child : NodeId)
  | headHasParent (head : NodeId)
  | unreachable (node : NodeId)
  | featureOutOfRange (node : NodeId) (feature dim : UInt32)
  | nonFiniteThreshold (node : NodeId)
deriving DecidableEq, Repr

/-- A node number in messages. -/
def nodeText (id : NodeId) : String := s!"#{id}"

def TreeError.message : TreeError → String
  | empty => "tree has no nodes"
  | zeroDimension => "feature dimension must be positive"
  | invalidName name => s!"namespace '{name}' is not a valid C identifier"
  | missingHead head => s!"head {nodeText head} does not exist"
  | danglingChild parent child =>
      s!"node {nodeText parent} references missing child {nodeText child}"
  | sharedChild child => s!"node {nodeText child} has more than one parent"
  | headHasParent head => s!"head {nodeText head} is referenced as a child"
  | unreachable node => s!"node {nodeText node} is not reachable from the head"
  | featureOutOfRange node feature dim =>
      s!"node {nodeText node} splits on feature {feature}, but the dimension is {dim}"
  | nonFiniteThreshold node => s!"node {nodeText node} has a non-finite threshold"

/-- An ASCII letter or underscore. -/
def startsIdentifier (c : Char) : Bool := c.isAlpha || c == '_'

/-- An ASCII letter, digit or underscore. -/
def continuesIdentifier (c : Char) : Bool := c.isAlphanum || c == '_'

/-- An identifier of C. -/
def isIdentifier : List Char → Bool
  | [] => false
  | c :: cs => startsIdentifier c && cs.all continuesIdentifier

/-! ### Building -/

namespace Draft

/-- Check that a child is there and was not taken by an earlier split, and take it. -/
def claim (d : Draft) (parent child : NodeId) (taken : List NodeId) :
    Except TreeError (List NodeId) :=
  if d.sketches.size ≤ child then .error (.danglingChild parent child)
  else if child ∈ taken then .error (.sharedChild child)
  else .ok (child :: taken)

/-- Check one node and take its children. -/
def checkRule (d : Draft) (id : NodeId) (taken : List NodeId) :
    Rule → Except TreeError (List NodeId)
  | .leaf _ => .ok taken
  | .split feature threshold left right =>
      if d.dim ≤ feature then .error (.featureOutOfRange id feature d.dim)
      else if !threshold.isFinite then .error (.nonFiniteThreshold id)
      else do d.claim id right (← d.claim id left taken)

/-- Check the nodes from number `id` on; the children taken are the result. -/
def checkSketches (d : Draft) (id : NodeId) (taken : List NodeId) :
    List Sketch → Except TreeError (List NodeId)
  | [] => .ok taken
  | s :: rest => do d.checkSketches (id + 1) (← d.checkRule id taken s.rule) rest

/-- The tree below a node, as far down as the fuel allows; a missing node and a way down that
does not end give none. -/
def grow (d : Draft) : Nat → NodeId → Option Node
  | 0, _ => none
  | fuel + 1, id =>
      match d.sketches[id]? with
      | none => none
      | some ⟨.leaf prediction, samples⟩ => some (.leaf ⟨id, samples, 0⟩ prediction)
      | some ⟨.split feature threshold left right, samples⟩ =>
          match d.grow fuel left, d.grow fuel right with
          | some l, some r => some (.split ⟨id, samples, 0⟩ feature threshold l r)
          | _, _ => none

/-- Check all that does not concern a single node. -/
def checkHead (d : Draft) (head : NodeId) : Except TreeError Unit :=
  if d.sketches.isEmpty then .error .empty
  else if d.dim = 0 then .error .zeroDimension
  else if !isIdentifier d.name.toList then .error (.invalidName d.name)
  else if d.sketches.size ≤ head then .error (.missingHead head)
  else .ok ()

/-- The numbers of the children of a drafted node. -/
def childIds (d : Draft) (id : NodeId) : List NodeId :=
  match d.sketches[id]? with
  | some s => s.rule.children
  | none => []

/-- For each node, whether a search from the head comes by. The search goes down to the right
first. -/
def reached (d : Draft) (head : NodeId) : Array Bool :=
  workOff (fun id => (d.childIds id).reverse) (fun flags id => flags.setIfInBounds id true)
    (Array.replicate d.sketches.size false) [head]

/-- Put the tree with the given head together, which must hold all nodes. The fuel is enough if no
child is shared: a way down that is longer than the number of nodes meets a node twice, and has then
come back to the head. -/
def assemble (d : Draft) (head : NodeId) : Except TreeError Tree :=
  match (d.reached head).findIdx? (!·) with
  | some id => .error (.unreachable id)
  | none =>
      match d.grow d.sketches.size head with
      | none => .error (.headHasParent head)
      | some root => .ok ⟨d.name, d.dim, d.featureType, root, false⟩

/-- The tree with the given head. -/
def build (d : Draft) (head : NodeId) : Except TreeError Tree := do
  d.checkHead head
  let taken ← d.checkSketches 0 [] d.sketches.toList
  if head ∈ taken then .error (.headHasParent head) else d.assemble head

end Draft

end TreeCode
