import TreeCode.Proofs.TreeText.Layout

/-! # Reading sources

From a layout of the tokens of a source, exactly this source is read, unless a name is repeated,
which stops the reading at the second definition (`read_of_isLayout`). Whatever text a source is
read from is a layout of its tokens (`isLayout_of_read`). The loop over the definitions is followed
one definition at a time, by what comes next in the input. -/

namespace TreeCode.TreeText

variable {cs rest : List Char} {ts : List Token} {d : Definition} {ds known : List Definition}

/-! ### What comes next -/

theorem open_eq_ok_iff {u : Unit} :
    char '\x7b' cs = .ok (u, rest) ↔ Takes (.sign "\x7b") cs rest := char_eq_ok_iff rfl

theorem skip_of_takes_word {w : String} (hw : isWord w) (h : Takes (.word w) cs rest) :
    ∃ c tail, skip cs = c :: tail ∧ startsWord c := by
  unfold isWord at hw
  split at hw
  · cases hw
  · rename_i c tail hlist
    rw [Bool.and_eq_true] at hw
    rw [Takes, Token.text, hlist] at h
    exact ⟨c, tail ++ rest, h.1, hw.1⟩

/-- A closing brace is not the start of a word. -/
theorem not_takes_word_of_close {w : String} {r : List Char} (hw : isWord w)
    (h : Takes (.sign "\x7d") cs rest) : ¬Takes (.word w) cs r := by
  intro hword
  obtain ⟨c, tail, hskip, hc⟩ := skip_of_takes_word hw hword
  obtain ⟨rfl, -⟩ := List.cons.inj (hskip.symm.trans h.1)
  exact absurd hc (by decide)

/-- At most one word comes next. -/
theorem eq_of_takes_word {v w : String} {r : List Char} (hv : isWord v) (hw : isWord w)
    (h : Takes (.word v) cs rest) (h' : Takes (.word w) cs r) : v = w := by
  have heq := (word_eq_ok_iff.2 ⟨hv, h⟩).symm.trans (word_eq_ok_iff.2 ⟨hw, h'⟩)
  simp only [Except.ok.injEq, Prod.mk.injEq] at heq
  exact heq.1

theorem Definition.Spelled.takes_name (hd : d.Spelled ts) (h : TakesAll ts cs rest) :
    isWord d.name ∧ ∃ mid, Takes (.word d.name) cs mid := by
  cases hd with
  | mk hname =>
      obtain ⟨mid, h, -⟩ := takesAll_cons_iff.1 h
      exact ⟨hname, mid, h⟩

/-- After a definition that does not record samples, what comes next is not the word for them. -/
theorem not_takes_samples_iff (hds : DefinitionsSpelled ds ts)
    (h : TakesAll (ts ++ [.sign "\x7d"]) cs rest) :
    (∀ r, ¬Takes (.word "samples") cs r) ↔ ∀ e ∈ ds.head?, e.name ≠ "samples" := by
  cases hds with
  | nil =>
      have hclose := takesAll_singleton_iff.1 h
      exact iff_of_true (fun r => not_takes_word_of_close (by decide) hclose) nofun
  | cons hd hds =>
      rw [List.append_assoc] at h
      obtain ⟨mid, h, -⟩ := takesAll_append_iff.1 h
      obtain ⟨hname, r, hnext⟩ := hd.takes_name h
      simp only [List.head?_cons, Option.mem_def, Option.some.injEq, forall_eq']
      constructor
      · intro hnot heq
        exact hnot r (heq ▸ hnext)
      · exact fun hne r' hsamples => hne (eq_of_takes_word hname (by decide) hnext hsamples)

/-! ### Definitions -/

/-- What becomes of the definitions that come next, after the known ones. -/
def gather (known : List Definition) : List Definition → Except Stop (List Definition)
  | [] => .ok known
  | d :: ds =>
      if known.any (·.name == d.name) then .error (.duplicate d.name) else gather (known ++ [d]) ds

theorem definition_congr {cs' : List Char} (h : skip cs = skip cs') :
    definition cs = definition cs' := by
  have hword : word cs = word cs' := by rw [← word_skip, h, word_skip]
  unfold definition
  show (word cs >>= _) = (word cs' >>= _)
  rw [hword]

theorem definitions_congr {cs' : List Char} (h : skip cs = skip cs') :
    definitions known cs = definitions known cs' := by
  rw [definitions_eq, h, definition_congr h, ← definitions_eq]

theorem definitions_of_takes_close (h : Takes (.sign "\x7d") cs rest) :
    definitions known cs = .ok (known, rest) := by
  rw [definitions_eq, h.1]
  exact if_pos rfl

/-- A definition comes next. -/
theorem definitions_of_takesAll {mid : List Char} (hd : d.Spelled ts) (h : TakesAll ts cs mid)
    (hnot : d.samples = none → ∀ r, ¬Takes (.word "samples") mid r) :
    definitions known cs = if known.any (·.name == d.name) then .error (.duplicate d.name)
      else definitions (known ++ [d]) mid := by
  obtain ⟨hname, r, hword⟩ := hd.takes_name h
  obtain ⟨rest, hread, hskip⟩ := definition_eq_ok hd h hnot
  obtain ⟨c, tail, hstart, hc⟩ := skip_of_takes_word hname hword
  have hbrace : c ≠ '\x7d' := by
    rintro rfl
    exact absurd hc (by decide)
  rw [definitions_eq, hread, hstart, definitions_congr hskip.symm]
  exact if_neg hbrace

/-- The loop over the definitions gathers what is spelled up to the closing brace. -/
theorem definitions_eq_gather (hds : DefinitionsSpelled ds ts)
    (hchain : ds.IsChain fun d e => d.samples = none → e.name ≠ "samples")
    (h : TakesAll (ts ++ [.sign "\x7d"]) cs rest) :
    definitions known cs = (gather known ds).map (·, rest) := by
  induction hds generalizing known cs with
  | nil => exact definitions_of_takes_close (takesAll_singleton_iff.1 h)
  | @cons d ds ts us hd hds ih =>
      rw [List.append_assoc] at h
      obtain ⟨mid, hd', hds'⟩ := takesAll_append_iff.1 h
      obtain ⟨hnext, hchain⟩ := List.isChain_cons.1 hchain
      have hnot (hnone : d.samples = none) : ∀ r, ¬Takes (.word "samples") mid r :=
        (not_takes_samples_iff hds hds').2 fun e he => hnext e he hnone
      rw [definitions_of_takesAll hd hd' hnot, gather, ih hchain hds']
      split <;> rfl

theorem any_name_iff {name : String} : known.any (·.name == name) ↔ name ∈ names known := by
  simp [names]

theorem gather_cons (h : (names (known ++ [d])).Nodup) :
    gather known (d :: ds) = gather (known ++ [d]) ds := by
  have hnew : d.name ∉ names known := by
    rw [names, List.map_append, List.nodup_append] at h
    exact fun hmem => h.2.2 _ hmem _ List.mem_cons_self rfl
  rw [gather, if_neg (any_name_iff.not.2 hnew)]

theorem nodup_names_of_append {es : List Definition} (h : (names (ds ++ es)).Nodup) :
    (names ds).Nodup := by
  rw [names, List.map_append] at h
  exact (List.nodup_append.1 h).1

/-- Definitions whose names are all different are kept. -/
theorem gather_of_nodup (h : (names (known ++ ds)).Nodup) :
    gather known ds = .ok (known ++ ds) := by
  induction ds generalizing known with
  | nil => rw [gather, List.append_nil]
  | cons d ds ih =>
      rw [List.append_cons] at h ⊢
      rw [gather_cons (nodup_names_of_append h), ih h]

/-- The first repeated name stops the gathering. -/
theorem gather_of_repeated {before after : List Definition} (h : (names (known ++ before)).Nodup)
    (hd : d.name ∈ names (known ++ before)) :
    gather known (before ++ d :: after) = .error (.duplicate d.name) := by
  induction before generalizing known with
  | nil =>
      rw [List.append_nil] at hd
      exact if_pos (any_name_iff.2 hd)
  | cons e before ih =>
      rw [List.append_cons] at h hd
      rw [List.cons_append, gather_cons (nodup_names_of_append h), ih h hd]

/-! ### Sources -/

theorem reader_bind_of_ok {α β : Type} {r : Reader α} {f : α → Reader β} {a : α} {mid : List Char}
    (h : r cs = .ok (a, mid)) : (r >>= f) cs = f a mid := by
  show (r cs >>= fun p => f p.1 p.2) = _
  rw [h]
  rfl

/-- What is read from the tokens of a source, up to the closing brace. -/
theorem source_of_takesAll {s : Source} (hs : s.Spelled ts) (hu : s.Unambiguous)
    (h : TakesAll ts cs rest) : source cs =
      (gather [] s.definitions).map fun ds => (⟨s.name, s.dim, s.featureType, ds⟩, rest) := by
  cases hs with
  | mk hname hdim hds =>
      simp only [takesAll_cons_iff] at h
      obtain ⟨r₁, h₁, r₂, h₂, r₃, h₃, r₄, h₄, r₅, h₅, r₆, h₆, h⟩ := h
      have htree : keyword "tree" cs = .ok ((), r₁) := (keyword_eq_ok_iff (by decide)).2 h₁
      have hdimension : keyword "dim" r₂ = .ok ((), r₃) := (keyword_eq_ok_iff (by decide)).2 h₃
      have hopen : char '\x7b' r₅ = .ok ((), r₆) := open_eq_ok_iff.2 h₆
      unfold source
      rw [reader_bind_of_ok htree, reader_bind_of_ok (word_eq_ok_iff.2 ⟨hname, h₂⟩),
        reader_bind_of_ok hdimension, reader_bind_of_ok (unsigned32_eq_ok_iff.2 ⟨_, hdim, h₄⟩),
        reader_bind_of_ok (featureType_eq_ok_iff.2 h₅), reader_bind_of_ok hopen]
      show (definitions [] r₆ >>= _) = _
      rw [definitions_eq_gather hds hu h]
      cases gather [] _ <;> rfl

theorem Source.Spelled.ne_nil {s : Source} (h : s.Spelled ts) : ts ≠ [] := by
  cases h
  exact List.cons_ne_nil _ _

theorem read_eq_ok_iff {text : List Char} {s : Source} :
    read text = .ok s ↔ ∃ rest, source text = .ok (s, rest) ∧ skip rest = [] := by
  unfold read
  constructor
  · intro h
    split at h
    · cases h
    · rename_i s' rest hsource
      split at h
      · rename_i hskip
        cases h
        exact ⟨rest, hsource, hskip⟩
      · cases h
  · rintro ⟨rest, hsource, hskip⟩
    rw [hsource]
    dsimp only
    rw [hskip]

section

variable {s : Source} {text : List Char}

/-- A source is read from every layout of its tokens. -/
theorem read_of_isLayout (hs : s.Spelled ts) (hu : s.Unambiguous) (h : IsLayout ts text)
    (hnames : (names s.definitions).Nodup) : read text = .ok s := by
  obtain ⟨rest, htakes, hend⟩ := (isLayout_iff hs.ne_nil hs.isSolid).1 h
  have hgather : gather [] s.definitions = .ok s.definitions :=
    gather_of_nodup (by rwa [List.nil_append])
  refine read_eq_ok_iff.2 ⟨rest, ?_, hend⟩
  rw [source_of_takesAll hs hu htakes, hgather]
  rfl

/-- Every layout of its tokens is refused at the first repeated name. -/
theorem read_of_isLayout_of_repeated (hs : s.Spelled ts) (hu : s.Unambiguous)
    (h : IsLayout ts text) {before after : List Definition}
    (hds : s.definitions = before ++ d :: after) (hbefore : (names before).Nodup)
    (hd : d.name ∈ names before) : read text = .error (.duplicate d.name) := by
  obtain ⟨rest, htakes, -⟩ := (isLayout_iff hs.ne_nil hs.isSolid).1 h
  have hgather : gather [] s.definitions = .error (.duplicate d.name) := by
    rw [hds]
    exact gather_of_repeated (by rwa [List.nil_append]) (by rwa [List.nil_append])
  unfold read
  rw [source_of_takesAll hs hu htakes, hgather]
  rfl

end

end TreeCode.TreeText
