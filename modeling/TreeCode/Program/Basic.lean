import TreeCode.CType
import TreeCode.Inline.Plan
import TreeCode.Symbols
import TreeCode.Table.Packing

/-! # Programs

A tree is lowered to a program: the packed table of the whole tree, and inline statements for
as much of it as fits into the budget. Predicting with the program runs the statements, and
walks the table from the entry at which they leave off. -/

namespace TreeCode

/-! ### Configurations -/

/-- Settings for lowering trees. -/
structure Config where
  architecture : Architecture
  budget : Nat
  kernelSize : Nat
  kernelSize_pos : 0 < kernelSize

namespace Config

/-- Half of what fits into an instruction cache of 32 KiB. -/
def defaultBudget : Nat := 32 * 500

def ofArchitecture (a : Architecture) : Config :=
  ⟨a, defaultBudget, a.kernelSize, a.kernelSize_pos⟩

def ofName (name : String) : Except CompileError Config :=
  match Architecture.ofName? name with
  | some a => .ok (ofArchitecture a)
  | none => .error (.unsupportedArchitecture name)

def withBudget (c : Config) (budget : Nat) : Config := { c with budget := budget }

def withKernelSize (c : Config) (kernelSize : Nat) : Except CompileError Config :=
  if h : 0 < kernelSize then .ok { c with kernelSize := kernelSize, kernelSize_pos := h }
  else .error .invalidKernelSize

/-- The configuration for an architecture, with what is given in place of the defaults. -/
def ofSettings (name : String) (budget kernelSize : Option Nat) : Except CompileError Config := do
  let c ← ofName name
  let c := c.withBudget (budget.getD c.budget)
  match kernelSize with
  | some kernelSize => c.withKernelSize kernelSize
  | none => pure c

end Config

/-! ### Lowering -/

/-- Go on where the inline code ends. -/
def Table.resume (t : Table) (x : FeatureVector) : Outcome → Except Fault UInt32
  | .ret prediction => .ok prediction
  | .fallback entry => t.walk entry x

structure Program where
  tree : Tree
  treeId : UInt32
  config : Config
  table : Table
  plan : Plan
  body : Statement

namespace Program

/-- Lower a tree under a configuration. -/
def lower (c : Config) (t : Tree) (treeId : UInt32) : Except CompileError Program := do
  let table ← Table.pack t c.kernelSize
  let plan ← Plan.make (t.costRow c.architecture) c.budget t.root 0
  let body ← plan.link table.index?
  pure ⟨t, treeId, c, table, plan, body⟩

variable (p : Program)

def operand : Operand := p.tree.operand

def costRow : CostRow := p.tree.costRow p.config.architecture

/-- Estimated size of the inline code. -/
def inlineSize : Nat := p.plan.cost

def layout : RecordLayout := .ofTree p.tree p.table.size

def symbols : Symbols String := .ofTree p.tree.name p.treeId

def report : Report :=
  ⟨p.table.size, p.body.inlineBranches, p.body.fallbackSites, p.inlineSize⟩

/-- The prediction of the generated function. -/
def predict (x : FeatureVector) : Except Fault UInt32 := do
  p.table.resume x (← p.body.execute x)

/-- What happened while the program was made. -/
def events : List Event :=
  p.table.events ++ p.plan.events p.table.index? ++
    [.compiled p.symbols.predict p.config.architecture p.report p.config.budget]

/-- What happens while a tree is lowered, whether or not it comes to a program. -/
def log (c : Config) (t : Tree) (treeId : UInt32) : List Event :=
  match lower c t treeId, Table.pack t c.kernelSize with
  | .ok p, _ => p.events
  | .error _, .error _ => Table.packEvents t c.kernelSize
  | .error _, .ok table =>
      table.events ++
        (Plan.ofNode (t.costRow c.architecture) c.budget t.root 0).events table.index?

end Program

end TreeCode
