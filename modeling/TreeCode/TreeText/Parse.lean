import TreeCode.TreeText.Definition
import TreeCode.Tree.Probability

/-! # Trees from texts

A tree text gives the name of the tree, the length and the type of the feature vector and the
node definitions; the first node is the head. The nodes are numbered in the order of their
definitions, and the tree that results has its probabilities. -/

namespace TreeCode.TreeText

/-- Everything that a tree text says. -/
structure Source where
  name : String
  dim : UInt32
  featureType : FeatureType
  definitions : List Definition
deriving DecidableEq

/-! ### Reading -/

def featureType : Reader FeatureType := do
  let w ← word
  match FeatureType.ofKeyword? w with
  | some t => pure t
  | none => fail (.unknownFeatureType w)

def source : Reader Source := do
  keyword "tree"
  let name ← word
  keyword "dim"
  let dim ← unsigned32 .dimension
  let type ← featureType
  char '\x7b'
  let ds ← definitions []
  pure ⟨name, dim, type, ds⟩

/-- The source of a whole text. -/
def read (text : List Char) : Except Error Source :=
  match source text with
  | .error stop => .error (stop.toError text)
  | .ok (s, rest) =>
      match skip rest with
      | [] => .ok s
      | rest => .error ((Stop.fault .trailing rest).toError text)

/-! ### Names of nodes -/

namespace Source

/-- The number of the node with the given name. -/
def resolve (s : Source) (name : String) : Except Error NodeId :=
  match s.definitions.findIdx? (·.name == name) with
  | some id => .ok id
  | none => .error (.undefined name)

def sketch (s : Source) (d : Definition) : Except Error Sketch :=
  match d.rule with
  | .leaf prediction => .ok ⟨.leaf prediction, d.samples⟩
  | .split feature threshold left right => do
      let l ← s.resolve left
      let r ← s.resolve right
      .ok ⟨.split feature threshold l r, d.samples⟩

def draft (s : Source) : Except Error Draft := do
  let sketches ← s.definitions.mapM s.sketch
  pure ⟨s.name, s.dim, s.featureType, sketches.toArray⟩

/-- The tree that the source describes, before its probabilities are computed. -/
def built (s : Source) : Except Error Tree := do
  let d ← s.draft
  match d.build 0 with
  | .ok t => pure t
  | .error e => throw (.invalid e)

/-- The tree that the source describes, with its probabilities. -/
def tree (s : Source) : Except Error Tree := s.built.map Tree.annotate

/-- The tree that the source describes, with its probabilities unless a sum breaks off. -/
def treeIn (v : Overflow) (s : Source) : Except Fault (Except Error Tree) :=
  match s.built with
  | .ok t => (t.annotateIn v).map .ok
  | .error e => .ok (.error e)

theorem treeIn_of_fits {v : Overflow} {s : Source}
    (h : v = .wraps ∨ ∀ t, s.built = .ok t → t.root.CountsFit) : s.treeIn v = .ok s.tree := by
  unfold treeIn tree
  cases hb : s.built with
  | error e => rfl
  | ok t =>
      dsimp only
      rw [Tree.annotateIn_of_fits (h.imp_right fun h => h t hb)]
      rfl

theorem treeIn_of_not_fits {s : Source} {t : Tree} (hb : s.built = .ok t)
    (h : ¬t.root.CountsFit) : s.treeIn .stops = .error .countOverflow := by
  unfold treeIn
  rw [hb]
  dsimp only
  rw [Tree.annotateIn_of_not_fits h]
  rfl

end Source

end TreeText

namespace Tree

/-- The tree that a text describes, where sums of counts wrap around. -/
def parse (text : String) : Except TreeText.Error Tree := do
  (← TreeText.read text.toList).tree

/-- The tree that a text describes, unless a sum of its counts breaks off. -/
def parseIn (v : Overflow) (text : String) : Except Fault (Except TreeText.Error Tree) :=
  match TreeText.read text.toList with
  | .ok s => s.treeIn v
  | .error e => .ok (.error e)

end Tree

end TreeCode
