import TreeCode.Tree.Basic

/-! # Statements

The inline part of a predict function is a tree of statements: it returns a prediction, branches
on a feature, or goes on at an entry of the table. -/

namespace TreeCode

inductive Comparison where
  | lessEqual
  | greater
deriving DecidableEq, Repr

namespace Comparison

def symbol : Comparison → String
  | lessEqual => "<="
  | greater => ">"

def holds : Comparison → Float → Float → Bool
  | lessEqual, value, threshold => decide (value ≤ threshold)
  | greater, value, threshold => decide (threshold < value)

end Comparison

/-- The condition of a branch. -/
structure Test where
  feature : UInt32
  comparison : Comparison
  threshold : Float
deriving DecidableEq

inductive Statement where
  | ret (prediction : UInt32)
  | branch (node : NodeId) (test : Test) (thenArm elseArm : Statement)
  | fallback (node : NodeId) (entry : Nat)
deriving DecidableEq

/-- Where the inline code ends. -/
inductive Outcome where
  | ret (prediction : UInt32)
  | fallback (entry : Nat)
deriving DecidableEq, Repr

namespace Statement

/-- Run the code on a feature vector. -/
def execute (x : FeatureVector) : Statement → Except Fault Outcome
  | ret p => .ok (.ret p)
  | fallback _ entry => .ok (.fallback entry)
  | branch _ test a b => do
      let v ← x.read test.feature
      if test.comparison.holds v test.threshold then a.execute x else b.execute x

def inlineBranches : Statement → Nat
  | branch _ _ a b => a.inlineBranches + b.inlineBranches + 1
  | _ => 0

def fallbackSites : Statement → Nat
  | branch _ _ a b => a.fallbackSites + b.fallbackSites
  | fallback .. => 1
  | ret _ => 0

/-- A statement and all below it, the then arm before the else arm. -/
def preorder : Statement → List Statement
  | branch n t a b => branch n t a b :: (a.preorder ++ b.preorder)
  | s => [s]

end Statement

end TreeCode
