import TreeCode.Tree.Draft

/-! # Failures of compilation

A configuration can be refused before any tree is looked at, and a tree or a node can be
refused by the step that it is given to. -/

namespace TreeCode

/-- Why a tree cannot be compiled. -/
inductive CompileError where
  | unsupportedArchitecture (name : String)
  | invalidKernelSize
  | notASplit (node : NodeId)
  | unannotatedTree (name : String)
  | missingEntry (node : NodeId)
  /-- A table was finished with some nodes or some children not in it. -/
  | unfinishedTable (packed total unresolved : Nat)
  /-- A table could not be finished. -/
  | fault (fault : Fault)
deriving DecidableEq, Repr

def CompileError.message : CompileError → String
  | unsupportedArchitecture name =>
      s!"Unsupported architecture '{name}': use 'arm' or 'intel' as target architecture"
  | invalidKernelSize => "Kernel size must be at least 1"
  | notASplit node =>
      s!"Cost requested for node {nodeText node}, which is a leaf and not a split"
  | unannotatedTree name =>
      s!"Tree '{name}' has no path probabilities; annotate it before compiling"
  | missingEntry node => s!"Table layout error: node {nodeText node} has no table entry"
  | unfinishedTable packed total unresolved =>
      s!"Table layout error: {packed} of {total} nodes packed with {unresolved} unresolved " ++
        "child slots"
  | fault f => f.message

end TreeCode
