import TreeCode.Command.Compile
import TreeCode.Golden.Runner
import TreeCode.Proofs.Number.Digits

/-! # Settings of run lines

The settings of a compilation can be given to the command and in the arguments of a run line. What a
run line takes in of the arguments for some settings, in whatever order, is what the command is told
by these settings, also on those that are not given (`foldlM_add_settings`, `Same.putAll`). -/

namespace TreeCode

open Golden.Options (Key)

/-! ### Settings -/

/-- A setting that the command and a run line have in common. -/
inductive Command.Setting where
  | architecture (name : String)
  | budget (size : UInt32)
  | kernelSize (size : UInt64)
  | treeId (id : UInt32)
deriving DecidableEq

namespace Command.Setting

def key : Setting → Key
  | architecture _ => .architecture
  | budget _ => .budget
  | kernelSize _ => .kernelSize
  | treeId _ => .treeId

def value : Setting → String
  | architecture name => name
  | budget size => toString size
  | kernelSize size => toString size
  | treeId id => toString id

/-- The argument of a run line for the setting. -/
def argument (s : Setting) : String := s.key.lead ++ s.value

end Command.Setting

namespace Command.Settings

def put (s : Settings) : Setting → Settings
  | .architecture name => { s with architecture := some name }
  | .budget size => { s with budget := some size.toNat }
  | .kernelSize size => { s with kernelSize := some size.toNat }
  | .treeId id => { s with treeId := some id }

end Command.Settings

/-! ### Run lines -/

namespace Golden.Options

open Command (Setting Settings)

def put (o : Options) : Setting → Options
  | .architecture name => { o with architecture := name }
  | .budget size => { o with budget := some size.toNat }
  | .kernelSize size => { o with kernelSize := some size.toNat }
  | .treeId id => { o with treeId := id }

/-- Options and settings say the same, where the settings leave something out. -/
structure Same (o : Options) (s : Settings) : Prop where
  architecture : o.architecture = s.architecture.getD "arm"
  budget : o.budget = s.budget
  kernelSize : o.kernelSize = s.kernelSize
  treeId : o.treeId = s.treeId.getD 0

theorem Same.put {o : Options} {s : Settings} (h : Same o s) (setting : Setting) :
    Same (o.put setting) (s.put setting) := by
  obtain ⟨harchitecture, hbudget, hkernelSize, htreeId⟩ := h
  cases setting <;> constructor <;> first | assumption | rfl

end Golden.Options
end TreeCode
