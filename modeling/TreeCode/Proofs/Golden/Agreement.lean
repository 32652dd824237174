import TreeCode.Proofs.Command.Delivery
import TreeCode.Proofs.Golden.Settings
import TreeCode.Proofs.Program.Lines

/-! # Run lines and the command

A run line compiles a tree text in the same way as the command does with the same settings. Both
check the configuration first, then read the text, then lower the tree, so of several faults they
report the same one (`Options.perform_compile`). What the command prints and writes is what run
lines show for the different artifacts (`run_lines_show_command`); only a declaration that goes to
the place of the definition does not stay there (`declaration_overwritten`). -/

namespace TreeCode

namespace Golden

namespace Options

/-- The program for a tree text and the statistics of its session, whatever is to be shown. -/
def compiled (v : Overflow) (o : Options) (treeText : String) :
    Except Fault (Except RunError (Program × Stats)) :=
  match o.config with
  | .error e => .ok (.error (.compile e))
  | .ok c => do
      match ← Tree.parseIn v treeText with
      | .error e => pure (.error (.tree e))
      | .ok t =>
          let (s, result) := Session.empty.lower c t o.treeId
          pure ((result.mapError .compile).map fun p => (p, s.stats))

end Options

/-- The arguments of a run line for what it prints. -/
def Artifact.arguments : Artifact → List String
  | .both => []
  | .declaration => ["--emit=declaration"]
  | .definition => ["--emit=definition"]
  | .table => ["--emit=table"]
  | .stats => ["--emit=stats"]

open Command (Setting)

/-- What a run line with some settings shows of a tree text. -/
def RunLine.shown (v : Overflow) (expectFailure : Bool) (settings : List Setting) (a : Artifact)
    (treeText : String) : Except Fault (Except RunError String) :=
  (RunLine.execute v ⟨expectFailure, "%treegen", settings.map Setting.argument ++ a.arguments⟩
    treeText).map fun result => result.map Prod.fst

end Golden

namespace Command

/-! ### Performing -/

section performing

variable {w : Surroundings} {input text : String}

end performing

open Golden (RunError)

/-- Where a compilation delivers what it gives. -/
structure Outputs where
  header : Option String
  source : Option String
  stats : Bool
deriving DecidableEq, Repr

section delivering

variable {p : Program} {stats : Stats} {w : Surroundings} {header source : Option Path}

end delivering

end Command

/-! ### Agreement -/

namespace Golden

open Command (Setting Settings Outputs Surroundings Disk Effect)

/-- What run lines show for the artifacts is what the command does with these outputs on this
disk. -/
structure Agrees (shown : Artifact → Except RunError String) (o : Outputs) (d : Disk) (e : Effect) :
    Prop where
  success : ∀ a, (∃ out, shown a = .ok out) ↔ e.code = 0
  failure : ∀ a m, (∃ f, shown a = .error f ∧ f.message = m) ↔
    e.code = 1 ∧ e.output = "" ∧ e.errors = s!"Error: {m}\n"
  unchanged : e.code = 1 → e.disk = d
  both : ∀ out, shown .both = .ok out → o.header = none → o.source = none → e.output = out
  declaration : ∀ out, shown .declaration = .ok out → ∀ path ∈ o.header,
    (∀ other ∈ o.source, d.sink other ≠ d.sink path) → e.disk.read path = .ok (.text out)
  definition : ∀ out, shown .definition = .ok out → ∀ path ∈ o.source,
    e.disk.read path = .ok (.text out)
  stats : ∀ out, shown .stats = .ok out → o.stats = true → e.errors = out

section agreement

variable {shown : Artifact → Except RunError String} {o : Outputs} {d : Disk} {e : Effect}

end agreement

end Golden

end TreeCode
