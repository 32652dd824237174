import TreeCode.Number.Plain
import TreeCode.Target.Cost

/-! # Events

What happens during a compilation or a golden test is told by events. Each has a level, and a
text for the log. -/

namespace TreeCode

/-- Summary of a compiled tree. -/
structure Report where
  tableEntries : Nat
  inlineBranches : Nat
  fallbackSites : Nat
  inlineSize : Nat
deriving DecidableEq, Repr

inductive Level where
  | trace
  | debug
  | info
deriving DecidableEq, Repr

inductive Event where
  /-- A node was laid out as the entry with the given index. -/
  | laid (entry : Nat) (node : NodeId) (prob : Float)
  /-- A run of entries, from `first` up to but without `stop`, was finished. -/
  | run (number first stop : Nat) (node : NodeId)
  /-- A split was made an inline branch; the size includes its cost. -/
  | inlined (node : NodeId) (cost size : Nat)
  /-- A split was left to the table. -/
  | deferred (node : NodeId) (entry size : Nat)
  | compiled (function : String) (architecture : Architecture) (report : Report) (budget : Nat)
  /-- A directive matched, and matching goes on at the given line. -/
  | matched (directive : String) (line : Nat)
deriving DecidableEq

namespace Event

def level : Event → Level
  | laid .. => .trace
  | run .. => .debug
  | inlined .. => .trace
  | deferred .. => .debug
  | compiled .. => .info
  | matched .. => .trace

def text : Event → String
  | laid entry node prob =>
      s!"entry {entry} <- node {nodeText node} (p={String.ofList (doubleText prob)})"
  | run number first stop node =>
      s!"run {number}: entries {first}..{stop} starting at node {nodeText node}"
  | inlined node cost size => s!"inline node {nodeText node} (cost {cost}, size {size})"
  | deferred node entry size =>
      s!"fallback at node {nodeText node} -> entry {entry} (size {size})"
  | compiled function architecture report budget =>
      s!"Compiled {function} on {architecture.name}: {report.tableEntries} entries, " ++
        s!"{report.inlineBranches} inline branches, {report.fallbackSites} fallback sites, " ++
        s!"size {report.inlineSize}/{budget}"
  | matched directive line => s!"{directive} matched, cursor at line {line}"

end Event

end TreeCode
