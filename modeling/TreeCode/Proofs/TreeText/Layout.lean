import TreeCode.Proofs.TreeText.Tokens

/-! # Layouts

Skipping drops a separator, or an ending up to the last character (`skip_eq_cons_iff`,
`skip_eq_nil_iff`). So a text is a layout of tokens if and only if the tokens can be taken from it
one after the other and only blanks and comments are left (`isLayout_iff`). -/

namespace TreeCode.TreeText

variable {c : Char} {s cs rest text : List Char} {t u : Token} {ts : List Token}

/-! ### Skipping -/

theorem skip_append_of_separator (h : Separator s) : skip (s ++ cs) = skip cs := by
  induction h with
  | nil => rfl
  | blank hc _ ih => exact (skip_cons_of_isBlank hc).trans ih
  | @comment line s hline _ ih =>
      rw [List.cons_append, skip_semicolon, List.append_assoc, skipFrom_true_append hline,
        List.cons_append, skipFrom_newline]
      exact ih

theorem skip_eq_nil_of_ending (h : Ending s) : skip s = [] := by
  cases h with
  | separator h =>
      rw [← List.append_nil s, skip_append_of_separator h]
      rfl
  | @comment s line h hline =>
      rw [skip_append_of_separator h, skip_semicolon, ← List.append_nil line,
        skipFrom_true_append hline]
      rfl

theorem Separator.append {s' : List Char} (h : Separator s) (h' : Separator s') :
    Separator (s ++ s') := by
  induction h with
  | nil => exact h'
  | blank hc _ ih => exact .blank hc ih
  | comment hline _ ih => simpa using Separator.comment hline ih

theorem Ending.append (hs : Separator s) (h : Ending rest) : Ending (s ++ rest) := by
  cases h with
  | separator h => exact .separator (hs.append h)
  | comment h hline =>
      rw [← List.append_assoc]
      exact .comment (hs.append h) hline

/-- The input starts with a separator up to what is left by skipping, or nothing else is there. -/
def Skippable (cs : List Char) : Prop := (∃ s, Separator s ∧ cs = s ++ skip cs) ∨ Ending cs

theorem Skippable.append (hs : Separator s) (h : Skippable cs) : Skippable (s ++ cs) := by
  rcases h with ⟨s', hs', heq⟩ | hend
  · refine .inl ⟨s ++ s', hs.append hs', ?_⟩
    rw [skip_append_of_separator hs, List.append_assoc, ← heq]
  · exact .inr (Ending.append hs hend)

theorem skippable (cs : List Char) : Skippable cs := by
  match cs with
  | [] => exact .inl ⟨[], .nil, rfl⟩
  | c :: cs =>
      cases hc : isSolid c with
      | true => exact .inl ⟨[], .nil, (skip_cons_of_isSolid hc).symm⟩
      | false =>
          rcases not_isSolid_iff.1 hc with rfl | hblank
          · by_cases hnewline : '\n' ∈ cs
            · obtain ⟨line, tail, hcs, hline⟩ := List.eq_append_cons_of_mem hnewline
              have hlength : tail.length ≤ cs.length := by
                rw [hcs, List.length_append, List.length_cons]
                omega
              rw [hcs]
              simpa using Skippable.append (.comment hline .nil) (skippable tail)
            · exact .inr (.comment .nil hnewline)
          · exact Skippable.append (.blank hblank .nil) (skippable cs)
termination_by cs.length
decreasing_by
  all_goals rw [List.length_cons]; omega

theorem skip_eq_nil_iff : skip cs = [] ↔ Ending cs := by
  refine ⟨fun h => ?_, skip_eq_nil_of_ending⟩
  rcases skippable cs with ⟨s, hs, heq⟩ | hend
  · rw [heq, h, List.append_nil]
    exact .separator hs
  · exact hend

theorem skip_eq_cons_iff : skip cs = c :: rest ↔
    isSolid c ∧ ∃ s, Separator s ∧ cs = s ++ c :: rest := by
  constructor
  · intro h
    rcases skip_cases cs with hnil | ⟨c', rest', hcons, hc⟩
    · cases hnil.symm.trans h
    · obtain ⟨rfl, rfl⟩ := List.cons.inj (hcons.symm.trans h)
      rcases skippable cs with ⟨s, hs, heq⟩ | hend
      · exact ⟨hc, s, hs, h ▸ heq⟩
      · cases (skip_eq_nil_of_ending hend).symm.trans h
  · rintro ⟨hc, s, hs, rfl⟩
    rw [skip_append_of_separator hs, skip_cons_of_isSolid hc]

/-! ### Solid tokens -/

/-- The token starts with a solid character. -/
def Token.IsSolid (t : Token) : Prop := ∃ c cs, t.text = c :: cs ∧ isSolid c

theorem isSolid_of_goesOnWith (h : t.goesOnWith c) : isSolid c := by
  cases t with
  | word => exact isSolid_of_continuesWord h
  | digits => exact isSolid_of_isDigit h
  | literal n =>
      simp only [Token.goesOnWith, Numeral.goesOnWith, Bool.or_eq_true, Bool.and_eq_true] at h
      rcases h with (hdigit | ⟨⟨hpoint, -⟩, -⟩) | ⟨hmark, -⟩
      · exact isSolid_of_isDigit hdigit
      · exact isSolid_of_isPoint hpoint
      · exact isSolid_of_isMark hmark
  | sign => cases h

/-- No token goes on with a blank or a comment. -/
theorem stops_of_not_isSolid (h : Stops isSolid cs) : Stops t.goesOnWith cs :=
  h.imp fun _ => isSolid_of_goesOnWith

theorem Separator.stops (h : Separator s) (hrest : s = [] → Stops isSolid rest) :
    Stops isSolid (s ++ rest) := by
  cases h with
  | nil => exact hrest rfl
  | blank hc => exact stops_cons.2 (not_isSolid_iff.2 (.inr hc))
  | comment => exact stops_cons.2 (not_isSolid_iff.2 (.inl rfl))

theorem Ending.stops (h : Ending s) : Stops isSolid s := by
  cases h with
  | separator h =>
      rw [← List.append_nil s]
      exact h.stops fun _ => stops_nil
  | comment h => exact h.stops fun _ => stops_cons.2 (not_isSolid_iff.2 (.inl rfl))

/-! ### Layouts and tokens that are taken -/

theorem takes_iff (ht : t.IsSolid) : Takes t cs rest ↔
    (∃ s, Separator s ∧ cs = s ++ (t.text ++ rest)) ∧ Stops t.goesOnWith rest := by
  obtain ⟨c, tail, htext, hc⟩ := ht
  rw [Takes, htext, List.cons_append, skip_eq_cons_iff]
  simp only [hc, true_and]

theorem Laid.exists_append (h : Laid (t :: ts) text) : ∃ tail, text = t.text ++ tail := by
  cases h with
  | last => exact ⟨_, rfl⟩
  | next => exact ⟨_, rfl⟩

/-- Where the tokens stand next to each other, the first one must not run into the second one. -/
theorem stops_iff_of_laid (hu : u.IsSolid) (hs : Separator s) (h : Laid (u :: ts) rest) :
    Stops t.goesOnWith (s ++ rest) ↔ (s = [] → t.runsInto u = false) := by
  cases hs with
  | nil =>
      obtain ⟨tail, rfl⟩ := h.exists_append
      obtain ⟨c, cs, htext, -⟩ := hu
      simp [Token.runsInto, htext]
  | blank hc hs =>
      simp only [reduceCtorEq, false_implies, iff_true]
      exact stops_of_not_isSolid (stops_cons.2 (not_isSolid_iff.2 (.inr hc)))
  | comment hline hs =>
      simp only [reduceCtorEq, false_implies, iff_true]
      exact stops_of_not_isSolid (stops_cons.2 (not_isSolid_iff.2 (.inl rfl)))

theorem isLayout_singleton_iff (ht : t.IsSolid) :
    IsLayout [t] text ↔ ∃ rest, Takes t text rest ∧ skip rest = [] := by
  constructor
  · rintro ⟨s, _, hs, rfl, hlaid⟩
    cases hlaid with
    | @last _ ending hend =>
        exact ⟨ending, (takes_iff ht).2 ⟨⟨s, hs, rfl⟩, stops_of_not_isSolid hend.stops⟩,
          skip_eq_nil_iff.2 hend⟩
  · rintro ⟨rest, htakes, hend⟩
    obtain ⟨⟨s, hs, rfl⟩, -⟩ := (takes_iff ht).1 htakes
    exact ⟨s, _, hs, rfl, .last (skip_eq_nil_iff.1 hend)⟩

theorem isLayout_cons_cons_iff (ht : t.IsSolid) (hu : u.IsSolid) :
    IsLayout (t :: u :: ts) text ↔ ∃ mid, Takes t text mid ∧ IsLayout (u :: ts) mid := by
  constructor
  · rintro ⟨s, _, hs, rfl, hlaid⟩
    cases hlaid with
    | @next _ _ _ s' rest hs' hruns hlaid =>
        have hstops := (stops_iff_of_laid hu hs' hlaid).2 hruns
        exact ⟨s' ++ rest, (takes_iff ht).2 ⟨⟨s, hs, rfl⟩, hstops⟩, s', rest, hs', rfl, hlaid⟩
  · rintro ⟨_, htakes, s', rest, hs', rfl, hlaid⟩
    obtain ⟨⟨s, hs, rfl⟩, hstops⟩ := (takes_iff ht).1 htakes
    exact ⟨s, _, hs, rfl, .next hs' ((stops_iff_of_laid hu hs' hlaid).1 hstops) hlaid⟩

/-- A text is a layout of tokens if they can be taken from it, up to blanks and comments. -/
theorem isLayout_iff (hne : ts ≠ []) (hsolid : ∀ t ∈ ts, t.IsSolid) :
    IsLayout ts text ↔ ∃ rest, TakesAll ts text rest ∧ skip rest = [] := by
  induction ts generalizing text with
  | nil => exact absurd rfl hne
  | cons t ts ih =>
      obtain ⟨ht, hts⟩ := List.forall_mem_cons.1 hsolid
      cases ts with
      | nil => simp only [isLayout_singleton_iff ht, takesAll_singleton_iff]
      | cons u ts =>
          simp only [isLayout_cons_cons_iff ht (hts u List.mem_cons_self),
            ih (List.cons_ne_nil u ts) hts, takesAll_cons_iff (t := t)]
          constructor
          · rintro ⟨mid, htakes, rest, hall, hend⟩
            exact ⟨rest, ⟨mid, htakes, hall⟩, hend⟩
          · rintro ⟨rest, ⟨mid, htakes, hall⟩, hend⟩
            exact ⟨mid, htakes, rest, hall, hend⟩

/-! ### Layouts by computation -/

/-- What is left after a token, if it comes next. -/
def take? (cs : List Char) (t : Token) : Option (List Char) :=
  (Text.after? t.text (skip cs)).filter fun rest => !rest.head?.any t.goesOnWith

theorem take?_eq_some_iff : take? cs t = some rest ↔ Takes t cs rest := by
  have hstops : (!rest.head?.any t.goesOnWith) = true ↔ Stops t.goesOnWith rest := by
    cases rest with
    | nil => simp
    | cons c rest => simp
  rw [take?, Option.filter_eq_some_iff, Text.after?_eq_some_iff, hstops, Takes]

theorem foldlM_take?_eq_some_iff : ts.foldlM take? cs = some rest ↔ TakesAll ts cs rest := by
  induction ts generalizing cs with
  | nil =>
      constructor
      · intro h
        cases h
        exact .nil
      · intro h
        cases h
        rfl
  | cons t ts ih => simp only [List.foldlM_cons, Option.bind_eq_bind, Option.bind_eq_some_iff,
      takesAll_cons_iff, take?_eq_some_iff, ih]

/-! ### Tokens of sources -/

theorem isSolid_word {w : String} (h : isWord w) : (Token.word w).IsSolid := by
  unfold isWord at h
  split at h
  · cases h
  · rename_i c cs hlist
    rw [Bool.and_eq_true] at h
    exact ⟨c, cs, hlist, isSolid_of_continuesWord (continuesWord_of_startsWord h.1)⟩

theorem isSolid_digits {ds : List Char} {n : Nat} (h : Denotes ds n) :
    (Token.digits ds).IsSolid := by
  obtain ⟨hne, hdigits, -⟩ := h
  cases ds with
  | nil => exact absurd rfl hne
  | cons c cs => exact ⟨c, cs, rfl, isSolid_of_isDigit (hdigits c List.mem_cons_self)⟩

theorem isSolid_of_mem_numeral {n : Numeral} (h : n.WellFormed) (hc : c ∈ n.text) : isSolid c := by
  have hone {p : Char → Bool} {part : List Char} (hpart : IsOne p part) (hc : c ∈ part) : p c := by
    rcases hpart with rfl | ⟨d, hd, rfl⟩
    · cases hc
    · exact List.mem_singleton.1 hc ▸ hd
  simp only [Numeral.text, List.mem_append] at hc
  rcases hc with (((((hc | hc) | hc) | hc) | hc) | hc) | hc
  · exact isSolid_of_isSign (hone h.sign hc)
  · exact isSolid_of_isDigit (h.whole c hc)
  · exact isSolid_of_isPoint (hone h.point hc)
  · exact isSolid_of_isDigit (h.fraction c hc)
  · exact isSolid_of_isMark (hone h.mark hc)
  · exact isSolid_of_isSign (hone h.exponentSign hc)
  · exact isSolid_of_isDigit (h.exponent c hc)

theorem isSolid_literal {n : Numeral} (h : n.WellFormed) (hd : n.denotes) :
    (Token.literal n).IsSolid := by
  have hne : n.text ≠ [] := by
    rintro hnil
    simp only [Numeral.text, List.append_eq_nil_iff] at hnil
    simp [Numeral.denotes, hnil] at hd
  obtain ⟨c, cs, htext⟩ := List.exists_cons_of_ne_nil hne
  exact ⟨c, cs, htext, isSolid_of_mem_numeral h (htext ▸ List.mem_cons_self)⟩

theorem isSolid_sign {sign : String} {cs : List Char} (h : sign.toList = c :: cs)
    (hc : isSolid c) : (Token.sign sign).IsSolid := ⟨c, cs, h, hc⟩

theorem NamedRule.Spelled.isSolid {r : NamedRule} (h : r.Spelled ts) : ∀ t ∈ ts, t.IsSolid := by
  cases h with
  | leaf hds =>
      simp only [List.forall_mem_cons, List.not_mem_nil, false_implies, implies_true, and_true]
      exact ⟨isSolid_word (by decide), isSolid_digits hds⟩
  | split hds hn hx hl hr =>
      simp only [List.forall_mem_cons, List.not_mem_nil, false_implies, implies_true, and_true]
      exact ⟨isSolid_word (by decide), isSolid_digits hds, isSolid_sign rfl (by decide),
        isSolid_literal hn (denotes_of_value? hx), isSolid_sign rfl (by decide), isSolid_word hl,
        isSolid_sign rfl (by decide), isSolid_word hr⟩

theorem SamplesSpelled.isSolid {samples : Option UInt64} (h : SamplesSpelled samples ts) :
    ∀ t ∈ ts, t.IsSolid := by
  cases h with
  | none => exact nofun
  | some hds =>
      simp only [List.forall_mem_cons, List.not_mem_nil, false_implies, implies_true, and_true]
      exact ⟨isSolid_word (by decide), isSolid_digits hds⟩

theorem Definition.Spelled.isSolid {d : Definition} (h : d.Spelled ts) : ∀ t ∈ ts, t.IsSolid := by
  cases h with
  | mk hname hrule hsamples =>
      simp only [List.forall_mem_cons, List.forall_mem_append]
      exact ⟨isSolid_word hname, isSolid_sign rfl (by decide), hrule.isSolid, hsamples.isSolid⟩

theorem DefinitionsSpelled.isSolid {ds : List Definition} (h : DefinitionsSpelled ds ts) :
    ∀ t ∈ ts, t.IsSolid := by
  induction h with
  | nil => exact nofun
  | cons hd _ ih => exact List.forall_mem_append.2 ⟨hd.isSolid, ih⟩

theorem Source.Spelled.isSolid {s : Source} (h : s.Spelled ts) : ∀ t ∈ ts, t.IsSolid := by
  cases h with
  | @mk _ _ type _ _ _ hname hdim hds =>
      simp only [List.forall_mem_cons, List.forall_mem_append, List.not_mem_nil, false_implies,
        implies_true, and_true]
      exact ⟨isSolid_word (by decide), isSolid_word hname, isSolid_word (by decide),
        isSolid_digits hdim, isSolid_word (isWord_keyword type), isSolid_sign rfl (by decide),
        hds.isSolid, isSolid_sign rfl (by decide)⟩

end TreeCode.TreeText
