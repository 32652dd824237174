/-! # Target architectures

The generator knows two families of cores. Each fixes how many table entries are laid out in
one run, to suit what the core fetches at once. -/

namespace TreeCode

inductive Architecture where
  | arm
  | intel
deriving DecidableEq, Repr

namespace Architecture

def name : Architecture → String
  | arm => "arm"
  | intel => "intel"

/-- Greatest length of a run of table entries, unless configured otherwise. -/
def kernelSize : Architecture → Nat
  | arm => 8
  | intel => 10

def ofName? (name : String) : Option Architecture :=
  [arm, intel].find? (·.name == name)

theorem kernelSize_pos (a : Architecture) : 0 < a.kernelSize := by cases a <;> decide

theorem ofName?_name (a : Architecture) : ofName? a.name = some a := by cases a <;> decide

end Architecture

end TreeCode
