import TreeCode.Proofs.TreeText.Skipping
import TreeCode.TreeText.Parse

/-! # Readers and what they see

A reader sees of its input only the solid characters, and where there are others in between. So
it comes out alike on two inputs of a relation that keeps these (`Simulation`): with the same
result, or with the same cause of a fault, and with what is left in the relation again. By way of
all readers this holds for the reading of a whole text (`reading_alike`). -/

namespace TreeCode.TreeText

/-! ### Reading up to a place -/

/-- Read a whole text; a fault comes with what is left of the text. -/
def reading (text : List Char) : Except Stop Source :=
  match source text with
  | .error stop => .error stop
  | .ok (s, rest) =>
      match skip rest with
      | [] => .ok s
      | rest => .error (.fault .trailing rest)

theorem read_eq (text : List Char) : read text = (reading text).mapError (Stop.toError text) := by
  unfold read reading
  cases source text with
  | error stop => rfl
  | ok r =>
      obtain ⟨s, rest⟩ := r
      dsimp only
      cases skip rest <;> rfl

/-- Reading begins with skipping. -/
theorem reading_skip (cs : List Char) : reading (skip cs) = reading cs := by
  have hsource : source (skip cs) = source cs := by
    simp only [source, keyword, bind, StateT.bind, word_skip]
  rw [reading, hsource, reading]

/-! ### Simulations -/

variable {S : List Char → List Char → Prop} {cs cs' : List Char}

/-- Two inputs start with the same solid character, or neither starts with one. -/
inductive SameStart (S : List Char → List Char → Prop) : List Char → List Char → Prop where
  | solid {c : Char} {cs cs' : List Char} : isSolid c → S cs cs' → SameStart S (c :: cs) (c :: cs')
  | other {cs cs' : List Char} : (∀ c rest, cs = c :: rest → isSolid c = false) →
      (∀ c rest, cs' = c :: rest → isSolid c = false) → SameStart S cs cs'

/-- Both inputs start with a character of a kind whose characters are solid, or neither does. -/
theorem SameStart.cases {p : Char → Bool} (hp : ∀ c, p c → isSolid c) (h : SameStart S cs cs') :
    (∃ c rest rest', p c ∧ cs = c :: rest ∧ cs' = c :: rest' ∧ S rest rest') ∨
      (∀ c rest, cs = c :: rest → ¬p c) ∧ ∀ c rest, cs' = c :: rest → ¬p c := by
  cases h with
  | @solid c rest rest' hc hrest =>
      by_cases hpc : p c
      · exact .inl ⟨c, rest, rest', hpc, rfl, rfl, hrest⟩
      · refine .inr ⟨fun d tail h => ?_, fun d tail h => ?_⟩ <;>
          exact (List.cons.inj h).1 ▸ hpc
  | other hother hother' =>
      have not {c : Char} (hc : isSolid c = false) : ¬p c := fun hpc => by
        rw [hp c hpc] at hc
        cases hc
      exact .inr ⟨fun c rest h => not (hother c rest h), fun c rest h => not (hother' c rest h)⟩

/-- A relation of inputs that readers do not tell apart. -/
structure Simulation (S : List Char → List Char → Prop) : Prop where
  start : ∀ {cs cs'}, S cs cs' → SameStart S cs cs'
  skip : ∀ {cs cs'}, S cs cs' → S (skip cs) (TreeText.skip cs')

/-- Two results of a reader are the same, but for what is left. -/
inductive Alike (S : List Char → List Char → Prop) {α : Type} :
    Except Stop (α × List Char) → Except Stop (α × List Char) → Prop where
  | ok (a : α) {rest rest' : List Char} : S rest rest' → Alike S (.ok (a, rest)) (.ok (a, rest'))
  | fault (cause : Cause) {rest rest' : List Char} : S rest rest' →
      Alike S (.error (.fault cause rest)) (.error (.fault cause rest'))
  | duplicate (name : String) : Alike S (.error (.duplicate name)) (.error (.duplicate name))

/-- A reader that comes out alike on related inputs. -/
def Respects (S : List Char → List Char → Prop) {α : Type} (r : Reader α) : Prop :=
  ∀ ⦃cs cs'⦄, S cs cs' → Alike S (r cs) (r cs')

/-- A scanner takes the same from related inputs. -/
def Scans (S : List Char → List Char → Prop) (scan : List Char → List Char × List Char) : Prop :=
  ∀ ⦃cs cs'⦄, S cs cs' →
    ∃ taken rest rest', scan cs = (taken, rest) ∧ scan cs' = (taken, rest') ∧ S rest rest'

section simulation

variable (hS : Simulation S)
include hS

/-! ### Scanning -/

/-- After blanks and comments both inputs are at the end, or at the same solid character. -/
theorem Simulation.skip_cases (h : S cs cs') :
    TreeText.skip cs = [] ∧ TreeText.skip cs' = [] ∧ S [] [] ∨
      ∃ c rest rest', isSolid c ∧ TreeText.skip cs = c :: rest ∧ TreeText.skip cs' = c :: rest' ∧
        S (c :: rest) (c :: rest') ∧ S rest rest' := by
  have hskip := hS.skip h
  have hstart := hS.start hskip
  generalize hcs : TreeText.skip cs = input at *
  generalize hcs' : TreeText.skip cs' = input' at *
  cases hstart with
  | @solid c rest rest' hc hrest => exact .inr ⟨c, rest, rest', hc, rfl, rfl, hskip, hrest⟩
  | other hother hother' =>
      rcases TreeText.skip_cases cs with hnil | ⟨c, rest, hcons, hc⟩
      · rcases TreeText.skip_cases cs' with hnil' | ⟨c, rest, hcons, hc⟩
        · rw [← hcs, ← hcs', hnil, hnil'] at hskip
          exact .inl ⟨hcs ▸ hnil, hcs' ▸ hnil', hskip⟩
        · rw [hother' c rest (hcs' ▸ hcons)] at hc
          cases hc
      · rw [hother c rest (hcs ▸ hcons)] at hc
        cases hc

/-- A stretch of characters of a kind is the same in both inputs. -/
theorem Simulation.takeWhile {p : Char → Bool} (hp : ∀ c, p c → isSolid c) :
    Scans S fun cs => (cs.takeWhile p, cs.dropWhile p) := by
  have stays {cs : List Char} (h : ∀ c rest, cs = c :: rest → ¬p c) :
      cs.takeWhile p = [] ∧ cs.dropWhile p = cs := by
    cases cs with
    | nil => exact ⟨rfl, rfl⟩
    | cons c rest =>
        have hc := h c rest rfl
        exact ⟨List.takeWhile_cons_of_neg hc, List.dropWhile_cons_of_neg hc⟩
  intro cs cs' h
  induction cs generalizing cs' with
  | nil =>
      obtain ⟨c, rest, rest', -, hcs, -⟩ | ⟨-, hother⟩ := (hS.start h).cases hp
      · cases hcs
      · exact ⟨[], [], cs', rfl, Prod.ext (stays hother).1 (stays hother).2, h⟩
  | cons c rest ih =>
      obtain ⟨c, rest, rest', hc, hcs, rfl, hrest⟩ | ⟨hother, hother'⟩ := (hS.start h).cases hp
      · obtain ⟨rfl, rfl⟩ := List.cons.inj hcs
        obtain ⟨taken, tail, tail', htail, htail', hS⟩ := ih hrest
        obtain ⟨htake, hdrop⟩ := Prod.mk.inj htail
        obtain ⟨htake', hdrop'⟩ := Prod.mk.inj htail'
        refine ⟨c :: taken, tail, tail', ?_, ?_, hS⟩
        · dsimp only
          rw [List.takeWhile_cons_of_pos hc, List.dropWhile_cons_of_pos hc, htake, hdrop]
        · dsimp only
          rw [List.takeWhile_cons_of_pos hc, List.dropWhile_cons_of_pos hc, htake', hdrop']
      · exact ⟨[], _, _, Prod.ext (stays hother).1 (stays hother).2,
          Prod.ext (stays hother').1 (stays hother').2, h⟩

theorem Simulation.scanDigits : Scans S scanDigits :=
  hS.takeWhile fun _ => isSolid_of_isDigit

theorem Simulation.scanOne {p : Char → Bool} (hp : ∀ c, p c → isSolid c) :
    Scans S (scanOne p) := by
  have stays {cs : List Char} (h : ∀ c rest, cs = c :: rest → ¬p c) :
      TreeCode.scanOne p cs = ([], cs) := by
    cases cs with
    | nil => rfl
    | cons c rest => exact if_neg (h c rest rfl)
  intro cs cs' h
  obtain ⟨c, rest, rest', hc, rfl, rfl, hrest⟩ | ⟨hother, hother'⟩ := (hS.start h).cases hp
  · exact ⟨[c], rest, rest', if_pos hc, if_pos hc, hrest⟩
  · exact ⟨[], cs, cs', stays hother, stays hother', h⟩

omit hS in
theorem Scans.after {scan : List Char → List Char × List Char} (h : Scans S scan)
    (found : List Char) : Scans S (scanAfter found scan) := by
  intro cs cs' hcs
  unfold scanAfter
  split
  · exact ⟨[], cs, cs', rfl, rfl, hcs⟩
  · exact h hcs

/-- The numeral is the same in both inputs. -/
theorem Simulation.scan (h : S cs cs') : ∃ numeral rest rest',
    Numeral.scan cs = (numeral, rest) ∧ Numeral.scan cs' = (numeral, rest') ∧ S rest rest' := by
  have hsign : Scans S (TreeCode.scanOne Numeral.isSign) := hS.scanOne fun _ => isSolid_of_isSign
  have hpoint : Scans S (TreeCode.scanOne Numeral.isPoint) :=
    hS.scanOne fun _ => isSolid_of_isPoint
  have hmark : Scans S (TreeCode.scanOne Numeral.isMark) := hS.scanOne fun _ => isSolid_of_isMark
  obtain ⟨sign, r₁, r₁', h₁, h₁', hr₁⟩ := hsign h
  obtain ⟨whole, r₂, r₂', h₂, h₂', hr₂⟩ := hS.scanDigits hr₁
  obtain ⟨point, r₃, r₃', h₃, h₃', hr₃⟩ := hpoint hr₂
  obtain ⟨fraction, r₄, r₄', h₄, h₄', hr₄⟩ := hS.scanDigits.after point hr₃
  obtain ⟨mark, r₅, r₅', h₅, h₅', hr₅⟩ := hmark hr₄
  obtain ⟨exponentSign, r₆, r₆', h₆, h₆', hr₆⟩ := hsign.after mark hr₅
  obtain ⟨exponent, r₇, r₇', h₇, h₇', hr₇⟩ := hS.scanDigits.after mark hr₆
  refine ⟨⟨sign, whole, point, fraction, mark, exponentSign, exponent⟩, r₇, r₇', ?_, ?_, hr₇⟩
  · simp only [Numeral.scan, h₁, h₂, h₃, h₄, h₅, h₆, h₇]
  · simp only [Numeral.scan, h₁', h₂', h₃', h₄', h₅', h₆', h₇']

/-- Both inputs go on with a row of solid characters, or neither does. -/
theorem Simulation.after? {lead : List Char} (hlead : lead.all isSolid) (h : S cs cs') :
    Text.after? lead cs = none ∧ Text.after? lead cs' = none ∨
      ∃ rest rest', Text.after? lead cs = some rest ∧ Text.after? lead cs' = some rest' ∧
        S rest rest' := by
  induction lead generalizing cs cs' with
  | nil => exact .inr ⟨cs, cs', rfl, rfl, h⟩
  | cons a lead ih =>
      rw [List.all_cons, Bool.and_eq_true] at hlead
      have stays {cs : List Char} (h : ∀ c rest, cs = c :: rest → ¬(c == a) = true) :
          Text.after? (a :: lead) cs = none := by
        cases cs with
        | nil => rfl
        | cons c rest => exact if_neg fun he => h c rest rfl (beq_iff_eq.2 he.symm)
      have hp : ∀ c, (c == a) = true → isSolid c := fun c hc =>
        beq_iff_eq.1 hc ▸ hlead.1
      obtain ⟨c, rest, rest', hc, rfl, rfl, hrest⟩ | ⟨hother, hother'⟩ := (hS.start h).cases hp
      · obtain rfl := beq_iff_eq.1 hc
        rw [Text.after?, Text.after?, if_pos rfl, if_pos rfl]
        exact ih hlead.2 hrest
      · exact .inl ⟨stays hother, stays hother'⟩

/-! ### Readers -/

variable {α β : Type}

omit hS in
theorem respects_pure (a : α) : Respects S (pure a : Reader α) := fun _ _ h => .ok a h

omit hS in
theorem respects_fail (cause : Cause) : Respects S (fail cause : Reader α) := fun _ _ h =>
  .fault cause h

omit hS in
theorem Respects.bind {r : Reader α} {f : α → Reader β} (hr : Respects S r)
    (hf : ∀ a, Respects S (f a)) : Respects S (r >>= f) := by
  intro cs cs' h
  have halike := hr h
  show Alike S (r cs >>= fun p => f p.1 p.2) (r cs' >>= fun p => f p.1 p.2)
  generalize r cs = result at *
  generalize r cs' = result' at *
  cases halike with
  | ok a hrest => exact hf a hrest
  | fault cause hrest => exact .fault cause hrest
  | duplicate name => exact .duplicate name

theorem respects_word : Respects S word := by
  intro cs cs' h
  obtain ⟨hnil, hnil', hS₀⟩ | ⟨c, rest, rest', -, hcons, hcons', hall, hrest⟩ := hS.skip_cases h
  · rw [word, word, hnil, hnil']
    exact .fault _ hS₀
  · obtain ⟨taken, tail, tail', htail, htail', hS₁⟩ :=
      hS.takeWhile (fun _ => isSolid_of_continuesWord) hrest
    obtain ⟨htake, hdrop⟩ := Prod.mk.inj htail
    obtain ⟨htake', hdrop'⟩ := Prod.mk.inj htail'
    rw [word, word, hcons, hcons']
    dsimp only
    rw [htake, hdrop, htake', hdrop']
    split
    · exact .ok _ hS₁
    · exact .fault _ hall

theorem respects_keyword (k : String) : Respects S (keyword k) := by
  refine (respects_word hS).bind fun found => ?_
  split
  · exact respects_pure ()
  · exact respects_fail _

theorem respects_char (c : Char) : Respects S (char c) := by
  intro cs cs' h
  obtain ⟨hnil, hnil', hS₀⟩ | ⟨d, rest, rest', -, hcons, hcons', hall, hrest⟩ := hS.skip_cases h
  · rw [char, char, hnil, hnil']
    exact .fault _ hS₀
  · rw [char, char, hcons, hcons']
    dsimp only
    split
    · exact .ok _ hrest
    · exact .fault _ hall

theorem respects_lessEqual : Respects S lessEqual := by
  intro cs cs' h
  rw [lessEqual_eq, lessEqual_eq]
  obtain ⟨hnone, hnone'⟩ | ⟨rest, rest', hsome, hsome', hrest⟩ :=
    hS.after? (show ['<', '='].all isSolid by decide) (hS.skip h)
  · rw [hnone, hnone']
    exact .fault _ (hS.skip h)
  · rw [hsome, hsome']
    exact .ok _ hrest

theorem respects_unsigned : Respects S unsigned := by
  intro cs cs' h
  obtain ⟨digits, rest, rest', hscan, hscan', hrest⟩ := hS.scanDigits (hS.skip h)
  rw [unsigned, unsigned, hscan, hscan']
  dsimp only
  split
  · exact .ok _ hrest
  · exact .fault _ hrest

theorem respects_unsigned32 (field : Field) : Respects S (unsigned32 field) := by
  refine (respects_unsigned hS).bind fun n => ?_
  split
  · exact respects_pure _
  · exact respects_fail _

theorem respects_number : Respects S number := by
  intro cs cs' h
  obtain ⟨numeral, rest, rest', hscan, hscan', hrest⟩ := hS.scan (hS.skip h)
  rw [number, number, hscan, hscan']
  dsimp only
  split
  · exact .ok _ hrest
  · exact .fault _ hrest

theorem respects_rule : Respects S rule := by
  refine (respects_word hS).bind fun kind => ?_
  split
  · exact (respects_unsigned32 hS _).bind fun _ => respects_pure _
  · split
    · exact (respects_unsigned32 hS _).bind fun _ => (respects_lessEqual hS).bind fun _ =>
        (respects_number hS).bind fun _ => (respects_char hS _).bind fun _ =>
          (respects_word hS).bind fun _ => (respects_char hS _).bind fun _ =>
            (respects_word hS).bind fun _ => respects_pure _
    · exact respects_fail _

/-- A word ends at the same place in both inputs. -/
theorem Simulation.wordEnds_eq (h : S cs cs') : wordEnds cs = wordEnds cs' := by
  have ends {cs : List Char} (h : ∀ c rest, cs = c :: rest → ¬continuesWord c) :
      wordEnds cs = true := by
    cases cs with
    | nil => rfl
    | cons c rest => simpa [wordEnds] using h c rest rfl
  obtain ⟨c, rest, rest', -, rfl, rfl, -⟩ | ⟨hother, hother'⟩ :=
    (hS.start h).cases fun _ => isSolid_of_continuesWord
  · rfl
  · rw [ends hother, ends hother']

theorem respects_samplesClause : Respects S samplesClause := by
  intro cs cs' h
  have hskip := hS.skip h
  unfold samplesClause
  obtain ⟨hnone, hnone'⟩ | ⟨rest, rest', hsome, hsome', hrest⟩ :=
    hS.after? (show "samples".toList.all isSolid by decide) hskip
  · rw [hnone, hnone']
    exact .ok _ hskip
  · rw [hsome, hsome']
    dsimp only
    rw [hS.wordEnds_eq hrest]
    split
    · rw [map_eq_pure_bind]
      exact (respects_unsigned hS).bind (fun n => respects_pure (some n)) hrest
    · exact .ok _ hskip

theorem respects_definition : Respects S definition :=
  (respects_word hS).bind fun _ => (respects_char hS _).bind fun _ =>
    (respects_rule hS).bind fun _ => (respects_samplesClause hS).bind fun _ => respects_pure _

/-- The definitions are the same in both inputs, up to the first fault. -/
theorem respects_definitions (known : List Definition) : Respects S (definitions known) := by
  intro cs cs' h
  induction hlen : cs.length using Nat.strongRecOn generalizing known cs cs' with
  | _ len ih =>
      rw [definitions_eq, definitions_eq]
      obtain ⟨hnil, hnil', hS₀⟩ | ⟨c, rest, rest', -, hcons, hcons', -, hrest⟩ := hS.skip_cases h
      · rw [hnil, hnil']
        exact .fault _ hS₀
      · rw [hcons, hcons']
        dsimp only
        split
        · exact .ok _ hrest
        · have halike := respects_definition hS h
          have hshrinks := shrinks_definition cs
          generalize definition cs = result at *
          generalize definition cs' = result' at *
          cases halike with
          | ok d hrest =>
              show Alike S (if _ then _ else _) (if _ then _ else _)
              split
              · exact .duplicate d.name
              · exact ih _ (hlen ▸ hshrinks d _ rfl) _ hrest rfl
          | fault cause hrest => exact .fault cause hrest
          | duplicate name => exact .duplicate name

theorem respects_featureType : Respects S featureType := by
  refine (respects_word hS).bind fun w => ?_
  split
  · exact respects_pure _
  · exact respects_fail _

theorem respects_source : Respects S source :=
  (respects_keyword hS _).bind fun _ => (respects_word hS).bind fun _ =>
    (respects_keyword hS _).bind fun _ => (respects_unsigned32 hS _).bind fun _ =>
      (respects_featureType hS).bind fun _ => (respects_char hS _).bind fun _ =>
        (respects_definitions hS []).bind fun _ => respects_pure _

/-- **Reading** related texts gives the same source, the same cause of a fault with what is left of
the texts related, or the same name that is defined twice. -/
theorem reading_alike (h : S cs cs') :
    (∃ s, reading cs = .ok s ∧ reading cs' = .ok s) ∨
      (∃ cause rest rest', reading cs = .error (.fault cause rest) ∧
        reading cs' = .error (.fault cause rest') ∧ S rest rest') ∨
      ∃ name, reading cs = .error (.duplicate name) ∧ reading cs' = .error (.duplicate name) := by
  have halike := respects_source hS h
  unfold reading
  generalize source cs = r at *
  generalize source cs' = r' at *
  cases halike with
  | @ok s rest rest' hrest =>
      dsimp only
      obtain ⟨hnil, hnil', -⟩ | ⟨c, tail, tail', -, hcons, hcons', hall, -⟩ := hS.skip_cases hrest
      · rw [hnil, hnil']
        exact .inl ⟨s, rfl, rfl⟩
      · rw [hcons, hcons']
        exact .inr (.inl ⟨_, _, _, rfl, rfl, hall⟩)
  | fault cause hrest => exact .inr (.inl ⟨cause, _, _, rfl, rfl, hrest⟩)
  | duplicate name => exact .inr (.inr ⟨name, rfl, rfl⟩)

end simulation
end TreeCode.TreeText
