import TreeCode.Command.Compile
import TreeCode.Proofs.Command.Disk
import TreeCode.Proofs.Program.Report
import TreeCode.Proofs.TreeText.Parsing

/-! # What the command delivers

The command checks its configuration, reads the input, parses it and lowers the tree before it
prints or writes anything, so a failure on the way leaves nothing but its message
(`Options.perform_of_fails`). After that the declaration goes to the file that its option names, and
then the definition (`Settings.perform_finish`); neither delivery moves the other one. So it is
known of every run what it leaves behind (`command_delivers`), as long as the options name files
and not devices, and no sum of counts breaks the run off (`declaration_to_errors`). -/

namespace TreeCode.Command

/-! ### Where texts go -/

namespace Disk

/-- An option leads to the place of a file, or nowhere if it is missing. -/
inductive Leads (d : Disk) : Option String → Option Path → Prop where
  | none : Leads d none none
  | some {path : String} {p : Path} : d.sink path = .ok (.place p) → Leads d (some path) (some p)

/-- What an option leads to is not a device. -/
def AvoidsDevices (d : Disk) (path : Option String) : Prop :=
  ∀ name ∈ path, ∀ sink, d.sink name = .ok sink → ∃ p, sink = .place p

/-- The disk with a text at a place, if there is one. -/
def keep (d : Disk) (text : String) : Option Path → Disk
  | none => d
  | some p => d.store p text

variable {d : Disk} {path path' : Option String} {place place' : Option Path}

theorem file?_keep (d : Disk) (text : String) (place : Option Path) (p : Path) :
    (d.keep text place).file? p = if place = some p then some (.text text) else d.file? p := by
  cases place with
  | none => rfl
  | some q => simp [keep, file?_store, eq_comm]

/-- What goes to one place changes nothing about where other texts go. -/
theorem sink_keep_eq_ok_iff {name : String} {sink : Sink} (h : d.Leads path place) (text : String) :
    (d.keep text place).sink name = .ok sink ↔ d.sink name = .ok sink := by
  cases h with
  | none => exact .rfl
  | some h => exact sink_store_eq_ok_iff (sink_eq_place h).2

theorem leads_keep_iff (h : d.Leads path place) (text : String) :
    (d.keep text place).Leads path' place' ↔ d.Leads path' place' := by
  constructor
  · rintro (- | h')
    · exact .none
    · exact .some ((sink_keep_eq_ok_iff h text).1 h')
  · rintro (- | h')
    · exact .none
    · exact .some ((sink_keep_eq_ok_iff h text).2 h')

end Disk

section performing

variable {w : Surroundings} {next : Action} {output errors : String}

theorem perform_fail (message : String) :
    (fail message).perform w = .ok ⟨1, "", s!"Error: {message}\n", w.disk⟩ := by
  simp [fail, Action.perform, Action.performAfter]

/-- A text without a path is printed, and one with a path is at its place from then on. -/
theorem performAfter_deliver {path : Option String} {place : Option Path}
    (h : w.disk.Leads path place) (text : String) :
    (deliver path text next).performAfter output errors w =
      next.performAfter (output ++ if path = none then text else "") errors
        { w with disk := w.disk.keep text place } := by
  cases h with
  | none => rfl
  | some h =>
      rw [deliver, Action.performAfter, h, if_neg nofun, String.append_empty]
      rfl

/-- The command fails where a text cannot be written. -/
theorem performAfter_deliver_of_error {name : String} {e : FileError}
    (h : w.disk.sink name = .error e) (text : String) :
    (deliver (some name) text next).performAfter output errors w =
      .ok ⟨1, output, errors ++ s!"Error: {e.message}\n", w.disk⟩ := by
  rw [deliver, Action.performAfter, h]
  rfl

/-- A command that ends well has delivered the text to the place of its option. -/
theorem exists_leads_of_performAfter_deliver {path : Option String} {text : String} {e : Effect}
    (hpath : w.disk.AvoidsDevices path)
    (h : (deliver path text next).performAfter output errors w = .ok e) (hcode : e.code = 0) :
    ∃ place, w.disk.Leads path place := by
  cases path with
  | none => exact ⟨none, .none⟩
  | some name =>
      cases hsink : w.disk.sink name with
      | error e' =>
          rw [performAfter_deliver_of_error hsink] at h
          cases h
          cases hcode
      | ok sink =>
          obtain ⟨p, rfl⟩ := hpath name rfl sink hsink
          exact ⟨some p, .some hsink⟩

/-- A delivery does not break off. -/
theorem exists_performAfter_deliver
    (h : ∀ output errors w, ∃ e, next.performAfter output errors w = .ok e)
    (path : Option String) (text : String) :
    ∃ e, (deliver path text next).performAfter output errors w = .ok e := by
  cases path with
  | none => exact h _ _ _
  | some name =>
      rw [deliver, Action.performAfter]
      cases w.disk.sink name with
      | error e => exact ⟨_, rfl⟩
      | ok sink => cases sink <;> exact h _ _ _

theorem performAfter_stats {b : Bool} {text : String} :
    (if b then .printError text (.exit 0) else .exit 0 : Action).performAfter output errors w =
      .ok ⟨0, output, if b then errors ++ text else errors, w.disk⟩ := by
  cases b <;> rfl

end performing

/-! ### Deliveries -/

namespace Settings

variable {s : Settings} {p : Program} {stats : Stats} {w : Surroundings}
  {header source : Option Path}

/-- What the command leaves behind when the declaration has gone to one place and then the
definition to another, or has been printed where there is none. -/
def delivered (s : Settings) (d : Disk) (p : Program) (stats : Stats)
    (header source : Option Path) : Effect where
  code := 0
  output := (if s.header = none then p.declaration else "") ++
    (if s.header = none ∧ s.source = none then "\n" else "") ++
    (if s.source = none then p.definition else "")
  errors := if s.stats then stats.text else ""
  disk := (d.keep p.declaration header).keep p.definition source

/-- Without both options the definition is printed behind an empty line. -/
theorem definitionText_eq (s : Settings) (p : Program) : s.definitionText p =
    (if s.header = none ∧ s.source = none then "\n" else "") ++ p.definition := by
  simp only [definitionText, Bool.and_eq_true, Option.isNone_iff_eq_none]
  split_ifs
  · rfl
  · exact String.empty_append.symm

/-- **Deliveries** go where the options lead on the disk as it was before. -/
theorem perform_finish (hheader : w.disk.Leads s.header header)
    (hsource : w.disk.Leads s.source source) :
    (s.finish p stats).perform w = .ok (s.delivered w.disk p stats header source) := by
  have hsource' : (w.disk.keep p.declaration header).Leads s.source source :=
    (Disk.leads_keep_iff hheader _).2 hsource
  rw [finish, Action.perform, performAfter_deliver hheader,
    performAfter_deliver (w := ⟨w.input, w.disk.keep p.declaration header⟩) hsource',
    performAfter_stats, delivered, definitionText_eq, String.empty_append, String.empty_append]
  -- only what is printed can have a line in front of it
  by_cases hnone : s.header = none ∧ s.source = none
  · rw [hnone.2] at hsource
    cases hsource
    simp only [hnone.1, hnone.2, and_self, if_true, String.append_assoc]
    rfl
  · rw [if_neg hnone, String.empty_append, String.append_empty]

theorem exists_perform_finish (s : Settings) (p : Program) (stats : Stats) (w : Surroundings) :
    ∃ e, (s.finish p stats).perform w = .ok e := by
  refine exists_performAfter_deliver (fun output errors w => ?_) _ _
  exact exists_performAfter_deliver (fun output errors w => ⟨_, performAfter_stats⟩) _ _

/-- A command that ends well has delivered both. -/
theorem exists_leads_of_perform_finish (hheader : w.disk.AvoidsDevices s.header)
    (hsource : w.disk.AvoidsDevices s.source) {e : Effect}
    (h : (s.finish p stats).perform w = .ok e) (hcode : e.code = 0) :
    ∃ header source, w.disk.Leads s.header header ∧ w.disk.Leads s.source source := by
  rw [finish, Action.perform] at h
  obtain ⟨header, hleads⟩ := exists_leads_of_performAfter_deliver hheader h hcode
  rw [performAfter_deliver hleads] at h
  have hsource' : (w.disk.keep p.declaration header).AvoidsDevices s.source :=
    fun name hname sink hsink =>
      hsource name hname sink ((Disk.sink_keep_eq_ok_iff hleads _).1 hsink)
  obtain ⟨source, hleads'⟩ := exists_leads_of_performAfter_deliver
    (w := ⟨w.input, w.disk.keep p.declaration header⟩) hsource' h hcode
  exact ⟨header, source, hleads, (Disk.leads_keep_iff hleads _).1 hleads'⟩

end Settings

/-! ### Stages -/

/-- The action with this answer to whatever it reads. -/
def Action.reading (answer : Except FileError String) : Action → Action
  | readInput next => (next answer).reading answer
  | readFile _ next => (next answer).reading answer
  | writeFile path text next => .writeFile path text fun result => (next result).reading answer
  | print text next => .print text (next.reading answer)
  | printError text next => .printError text (next.reading answer)
  | exit code => .exit code
  | breakOff fault => .breakOff fault

/-- What reading the input gives; a dash names the standard input. -/
def Surroundings.source (w : Surroundings) (input : String) : Except FileError String :=
  if input = "-" then .ok w.input else w.read input

/-- The sums of counts in a text that was read do not break anything off. -/
def AnswerFits (v : Overflow) (answer : Except FileError String) : Prop :=
  ∀ text, answer = .ok text → TreeText.Fits v text

theorem answerFits_wraps (answer : Except FileError String) : AnswerFits .wraps answer :=
  fun _ _ => .inl rfl

namespace Options

/-- The program and the statistics that come of the options and what reading the input gives. -/
def Compiles (o : Options) (answer : Except FileError String) (p : Program) (stats : Stats) :
    Prop :=
  ∃ c text t, o.settings.config = .ok c ∧ answer = .ok text ∧ Tree.parse text = .ok t ∧
    Program.lower c t (o.settings.treeId.getD 0) = .ok p ∧
    stats = (Session.empty.lower c t (o.settings.treeId.getD 0)).1.stats

/-- The first of the stages before anything is written that fails, by its message. -/
inductive Fails (o : Options) (answer : Except FileError String) : String → Prop
  | architecture {name : String} : o.settings.architecture.getD "arm" = name →
      Architecture.ofName? name = none →
      Fails o answer (CompileError.unsupportedArchitecture name).message
  | kernelSize {a : Architecture} :
      Architecture.ofName? (o.settings.architecture.getD "arm") = some a →
      o.settings.kernelSize = some 0 → Fails o answer CompileError.invalidKernelSize.message
  | input {c : Config} {e : FileError} : o.settings.config = .ok c → answer = .error e →
      Fails o answer e.message
  | tree {c : Config} {text : String} {e : TreeText.Error} : o.settings.config = .ok c →
      answer = .ok text → Tree.parse text = .error e → Fails o answer e.message
  | program {c : Config} {text : String} {t : Tree} {e : CompileError} :
      o.settings.config = .ok c → answer = .ok text → Tree.parse text = .ok t →
      Program.lower c t (o.settings.treeId.getD 0) = .error e → Fails o answer e.message

variable {o : Options} {answer : Except FileError String} {w : Surroundings}

theorem reading_deliver (path : Option String) (text : String) (next : Action) :
    (deliver path text next).reading answer = deliver path text (next.reading answer) := by
  cases path with
  | none => rfl
  | some path =>
      rw [deliver, deliver, Action.reading]
      congr 1
      funext result
      cases result <;> rfl

/-- Once everything is there nothing more is read. -/
theorem reading_finish (s : Settings) (p : Program) (stats : Stats) :
    (s.finish p stats).reading answer = s.finish p stats := by
  rw [Settings.finish, reading_deliver, reading_deliver]
  cases s.stats <;> rfl

theorem reading_orFail {ε α : Type} (message : ε → String) {next : α → Action}
    (h : ∀ a, (next a).reading answer = next a) (result : Except ε α) :
    (orFail message next result).reading answer = orFail message next result := by
  cases result with
  | error e => rfl
  | ok a => exact h a

theorem reading_compileText (s : Settings) (v : Overflow) (c : Config) (text : String) :
    (s.compileText v c text).reading answer = s.compileText v c text := by
  unfold Settings.compileText
  cases Tree.parseIn v text with
  | error fault => rfl
  | ok result =>
      exact reading_orFail _ (fun t => reading_orFail _ (fun p => reading_finish s p _) _) result

theorem reading_readSource (input : String) (next : String → Action)
    (h : ∀ text, (next text).reading answer = next text) :
    (readSource input next).reading answer = orFail FileError.message next answer := by
  have hanswer := reading_orFail FileError.message h answer
  unfold readSource
  split_ifs <;> exact hanswer

theorem reading_compile (v : Overflow) : (o.compile v).reading answer =
    orFail CompileError.message (fun c =>
      orFail FileError.message (o.settings.compileText v c) answer) o.settings.config := by
  unfold compile
  cases o.settings.config with
  | error e => rfl
  | ok c => exact reading_readSource _ _ fun text => reading_compileText _ v c text

theorem perform_reading_source (v : Overflow) (o : Options) (w : Surroundings) :
    ((o.compile v).reading (w.source o.input)).perform w = (o.compile v).perform w := by
  rw [reading_compile, compile]
  cases o.settings.config with
  | error e => rfl
  | ok c =>
      unfold Surroundings.source
      dsimp only [orFail]
      unfold readSource
      split_ifs <;> rfl

theorem config_of_unsupported {s : Settings} {name : String} (hs : s.architecture.getD "arm" = name)
    (h : Architecture.ofName? name = none) : s.config = .error (.unsupportedArchitecture name) := by
  rw [Settings.config, Config.ofSettings, hs, Config.ofName, h]
  rfl

theorem config_of_supported {s : Settings} {a : Architecture}
    (h : Architecture.ofName? (s.architecture.getD "arm") = some a) :
    s.kernelSize = some 0 ∧ s.config = .error .invalidKernelSize ∨
      s.kernelSize ≠ some 0 ∧ ∃ c, s.config = .ok c := by
  rw [Settings.config, Config.ofSettings, Config.ofName, h]
  rcases s.kernelSize with - | (- | k)
  · exact .inr ⟨nofun, _, rfl⟩
  · exact .inl ⟨rfl, rfl⟩
  · exact .inr ⟨by simp, _, rfl⟩

theorem compileText_of_fits {s : Settings} {v : Overflow} {text : String}
    (h : TreeText.Fits v text) (c : Config) :
    s.compileText v c text = orFail TreeText.Error.message (s.compileTree c) (Tree.parse text) := by
  rw [Settings.compileText, TreeText.parseIn_of_fits h]

variable {v : Overflow}

/-- **A failing stage** leaves nothing behind but the message. -/
theorem perform_of_fails (hfits : AnswerFits v answer) {message : String}
    (h : o.Fails answer message) :
    ((o.compile v).reading answer).perform w = .ok ⟨1, "", s!"Error: {message}\n", w.disk⟩ := by
  rw [reading_compile]
  cases h with
  | architecture hname h =>
      rw [config_of_unsupported hname h]
      exact perform_fail _
  | kernelSize h hzero =>
      obtain ⟨-, hc⟩ | ⟨hne, -⟩ := config_of_supported h
      · rw [hc]
        exact perform_fail _
      · exact absurd hzero hne
  | input hc h =>
      rw [hc, h]
      exact perform_fail _
  | tree hc hread h =>
      rw [hc, hread, orFail, orFail, compileText_of_fits (hfits _ hread), h]
      exact perform_fail _
  | program hc hread ht h =>
      rw [hc, hread, orFail, orFail, compileText_of_fits (hfits _ hread), ht, orFail,
        Settings.compileTree]
      dsimp only
      rw [Session.lower_snd, h]
      exact perform_fail _

theorem perform_of_compiles (hfits : AnswerFits v answer) {p : Program} {stats : Stats}
    (h : o.Compiles answer p stats) :
    ((o.compile v).reading answer).perform w = (o.settings.finish p stats).perform w := by
  obtain ⟨c, text, t, hc, hread, ht, hp, rfl⟩ := h
  rw [reading_compile, hc, hread, orFail, orFail, compileText_of_fits (hfits _ hread), ht, orFail,
    Settings.compileTree]
  dsimp only
  rw [Session.lower_snd, hp]
  rfl

/-- If no stage fails, the tree is compiled. -/
theorem exists_fails_or_compiles (o : Options) (answer : Except FileError String) :
    (∃ message, o.Fails answer message) ∨ ∃ p stats, o.Compiles answer p stats := by
  cases ha : Architecture.ofName? (o.settings.architecture.getD "arm") with
  | none => exact .inl ⟨_, .architecture rfl ha⟩
  | some a =>
      obtain ⟨hzero, -⟩ | ⟨-, c, hc⟩ := config_of_supported ha
      · exact .inl ⟨_, .kernelSize ha hzero⟩
      cases hread : answer with
      | error e => exact .inl ⟨_, .input hc rfl⟩
      | ok text =>
          cases ht : Tree.parse text with
          | error e => exact .inl ⟨_, .tree hc rfl ht⟩
          | ok t =>
              cases hp : Program.lower c t (o.settings.treeId.getD 0) with
              | error e => exact .inl ⟨_, .program hc rfl ht hp⟩
              | ok p => exact .inr ⟨p, _, c, text, t, hc, rfl, ht, hp, rfl⟩

end Options

/-! ### Whole runs -/

/-- The input compiles, and both options lead to the places of files. -/
structure Options.Succeeds (o : Options) (answer : Except FileError String) (d : Disk) (p : Program)
    (stats : Stats) (header source : Option Path) : Prop where
  compiles : o.Compiles answer p stats
  header : d.Leads o.settings.header header
  source : d.Leads o.settings.source source

/-- What a run leaves behind: the message of the first stage that fails and nothing else, or both
texts where their options lead, the definition after the declaration. -/
structure Options.Delivers (o : Options) (answer : Except FileError String) (d : Disk)
    (e : Effect) : Prop where
  stages : (∃ message, o.Fails answer message) ∨ ∃ p stats, o.Compiles answer p stats
  failure : ∀ {message}, o.Fails answer message → e = ⟨1, "", s!"Error: {message}\n", d⟩
  code : d.AvoidsDevices o.settings.header → d.AvoidsDevices o.settings.source →
    (e.code = 0 ↔ ∃ p stats header source, o.Succeeds answer d p stats header source)
  delivered : ∀ {p stats header source}, o.Succeeds answer d p stats header source →
    e = o.settings.delivered d p stats header source
  files : ∀ {p stats header source}, o.Succeeds answer d p stats header source → ∀ q,
    e.disk.file? q =
      if source = some q then some (.text p.definition)
      else if header = some q then some (.text p.declaration)
      else d.file? q

theorem Options.exists_delivers {v : Overflow} (o : Options) {answer : Except FileError String}
    (hfits : AnswerFits v answer) (w : Surroundings) :
    ∃ e, ((o.compile v).reading answer).perform w = .ok e ∧ o.Delivers answer w.disk e := by
  -- every run has an effect, that of the failing stage or that of the two deliveries
  obtain ⟨e, he⟩ : ∃ e, ((o.compile v).reading answer).perform w = .ok e := by
    obtain ⟨message, h⟩ | ⟨p, stats, hp⟩ := o.exists_fails_or_compiles answer
    · exact ⟨_, perform_of_fails hfits h⟩
    · rw [perform_of_compiles hfits hp]
      exact Settings.exists_perform_finish _ p stats w
  have hfailure {message : String} (h : o.Fails answer message) :
      e = ⟨1, "", s!"Error: {message}\n", w.disk⟩ :=
    Except.ok.inj (he.symm.trans (perform_of_fails hfits h))
  have hdelivered {p : Program} {stats : Stats} {header source : Option Path}
      (h : o.Succeeds answer w.disk p stats header source) :
      e = o.settings.delivered w.disk p stats header source := by
    rw [perform_of_compiles hfits h.compiles, Settings.perform_finish h.header h.source] at he
    exact (Except.ok.inj he).symm
  refine ⟨e, he, ?_⟩
  constructor
  case stages => exact o.exists_fails_or_compiles answer
  case failure => exact hfailure
  case code =>
    intro hheader hsource
    constructor
    · intro hcode
      obtain ⟨message, h⟩ | ⟨p, stats, hp⟩ := o.exists_fails_or_compiles answer
      · rw [hfailure h] at hcode
        cases hcode
      · rw [perform_of_compiles hfits hp] at he
        obtain ⟨header, source, hleads, hleads'⟩ :=
          Settings.exists_leads_of_perform_finish hheader hsource he hcode
        exact ⟨p, stats, header, source, hp, hleads, hleads'⟩
    · rintro ⟨p, stats, header, source, h⟩
      rw [hdelivered h, Settings.delivered]
  case delivered => exact hdelivered
  case files =>
    intro p stats header source h q
    rw [hdelivered h, Settings.delivered, Disk.file?_keep, Disk.file?_keep]

/-! ### A tree text -/

theorem exists_compiles_lopsided {o : Options} {c : Config} (hc : o.settings.config = .ok c) :
    ∃ p stats, o.Compiles (.ok TreeText.lopsidedText) p stats := by
  have hroot := (Draft.root_wellFormed_annotate Draft.build_lopsided).distinct
  obtain ⟨p, hp, -⟩ := Program.exists_lower hroot rfl c (o.settings.treeId.getD 0)
  exact ⟨p, _, c, _, _, hc, rfl, TreeText.parse_lopsided, hp, rfl⟩

theorem declaration_ne_empty (p : Program) : p.declaration ≠ "" := by
  intro h
  have hlength := congrArg (·.toList.length) h
  simp [Program.declaration, Program.declarationLines, renderLines, Line.render] at hlength

/-- A path can also lead to a device: here the declaration goes to the standard error, although no
statistics are asked for. And a run breaks off where checked sums do not fit. -/
theorem declaration_to_errors :
    (let o : Options := ⟨"-", { Settings.empty with header := some "/dev/stderr" }⟩
    let w : Surroundings :=
      ⟨TreeText.lopsidedText, ⟨[["dev"]], [], [(["dev", "stderr"], .errors)], []⟩⟩
    ∃ e, (o.compile .wraps).perform w = .ok e ∧ e.code = 0 ∧ e.errors ≠ "") ∧
    (Options.compile .stops ⟨"-", Settings.empty⟩).perform
      ⟨TreeText.crowdedText, ⟨[], [], [], []⟩⟩ = .error .countOverflow := by
  constructor
  · intro o w
    obtain ⟨p, stats, hp⟩ := exists_compiles_lopsided (o := o) rfl
    have hsource : w.source o.input = .ok TreeText.lopsidedText := rfl
    rw [← Options.perform_reading_source, hsource,
      Options.perform_of_compiles (answerFits_wraps _) hp]
    refine ⟨⟨0, "" ++ o.settings.definitionText p, "" ++ p.declaration, w.disk⟩, rfl, rfl, ?_⟩
    rw [String.empty_append]
    exact declaration_ne_empty p
  · have hbreaks (c : Config) :
        Settings.empty.compileText .stops c TreeText.crowdedText = .breakOff .countOverflow := by
      rw [Settings.compileText, TreeText.parseIn_stops_crowded]
    have hconfig : Settings.empty.config = .ok (.ofArchitecture .arm) := rfl
    have hsource : (⟨TreeText.crowdedText, ⟨[], [], [], []⟩⟩ : Surroundings).source "-" =
        .ok TreeText.crowdedText := rfl
    rw [← Options.perform_reading_source, hsource, Options.reading_compile, hconfig, orFail, orFail,
      hbreaks]
    rfl

/-- **The command** fails with the message of the first stage that fails, before it prints or writes
anything, or it delivers both texts to where their options lead, and prints the statistics if they
are asked for. This is so whatever reading the input gives. -/
theorem command_delivers (v : Overflow) (o : Options) (w : Surroundings) :
    (o.compile v).perform w = ((o.compile v).reading (w.source o.input)).perform w ∧
      ∀ answer, AnswerFits v answer →
        ∃ e, ((o.compile v).reading answer).perform w = .ok e ∧ o.Delivers answer w.disk e :=
  ⟨(Options.perform_reading_source v o w).symm, fun _ hfits => o.exists_delivers hfits w⟩

theorem command_delivers_lopsided :
    let o : Options := ⟨"-", { Settings.empty with header := some "t.h", stats := true }⟩
    let w : Surroundings := ⟨TreeText.lopsidedText, ⟨[], [], [], []⟩⟩
    AnswerFits .stops (.ok TreeText.lopsidedText) ∧
      ∃ p stats e, o.Compiles (.ok TreeText.lopsidedText) p stats ∧
        (o.compile .stops).perform w = .ok e ∧ e.code = 0 ∧ e.output = p.definition ∧
        e.errors = stats.text ∧ e.disk.file? ["t.h"] = some (.text p.declaration) := by
  intro o w
  have hfits : AnswerFits .stops (.ok TreeText.lopsidedText) := by
    rintro text ⟨⟩
    exact TreeText.fits_lopsided .stops
  obtain ⟨p, stats, hp⟩ := exists_compiles_lopsided (o := o) rfl
  obtain ⟨hrun, hdelivers⟩ := command_delivers .stops o w
  obtain ⟨e, he, hdelivered⟩ := hdelivers _ hfits
  have hsucceeds : o.Succeeds (.ok TreeText.lopsidedText) w.disk p stats (some ["t.h"]) none :=
    ⟨hp, .some rfl, .none⟩
  refine ⟨hfits, p, stats, e, hp, hrun.trans he, ?_⟩
  rw [hdelivered.files hsucceeds, if_neg nofun, if_pos rfl, hdelivered.delivered hsucceeds]
  dsimp only [Settings.delivered]
  exact ⟨rfl, String.empty_append.trans String.empty_append, if_pos rfl, rfl⟩

end TreeCode.Command
