import TreeCode.Proofs.TreeText.Grammar
import TreeCode.Proofs.TreeText.Skipping

/-! # Readers and tokens

A reader succeeds if and only if its token comes next (`Takes`), after blanks and comments. By way
of the readers of words, numbers and signs this holds for a definition as well, which takes its
tokens one after the other (`definition_eq_ok`). -/

namespace TreeCode.TreeText

/-! ### Taking tokens -/

/-- After blanks and comments the token comes next, and it ends before the rest. -/
def Takes (t : Token) (cs rest : List Char) : Prop :=
  skip cs = t.text ++ rest ∧ Stops t.goesOnWith rest

/-- The tokens come next, one after the other. -/
inductive TakesAll : List Token → List Char → List Char → Prop where
  | nil {cs : List Char} : TakesAll [] cs cs
  | cons {t : Token} {ts : List Token} {cs mid rest : List Char} : Takes t cs mid →
      TakesAll ts mid rest → TakesAll (t :: ts) cs rest

variable {α β : Type} {t : Token} {ts us : List Token} {cs rest : List Char}

theorem takesAll_cons_iff :
    TakesAll (t :: ts) cs rest ↔ ∃ mid, Takes t cs mid ∧ TakesAll ts mid rest := by
  constructor
  · intro h
    cases h with
    | cons ht hts => exact ⟨_, ht, hts⟩
  · rintro ⟨mid, ht, hts⟩
    exact .cons ht hts

theorem takesAll_singleton_iff : TakesAll [t] cs rest ↔ Takes t cs rest := by
  rw [takesAll_cons_iff]
  constructor
  · rintro ⟨mid, ht, hnil⟩
    cases hnil
    exact ht
  · exact fun h => ⟨rest, h, .nil⟩

theorem takesAll_append_iff :
    TakesAll (ts ++ us) cs rest ↔ ∃ mid, TakesAll ts cs mid ∧ TakesAll us mid rest := by
  induction ts generalizing cs with
  | nil =>
      constructor
      · exact fun h => ⟨cs, .nil, h⟩
      · rintro ⟨mid, hnil, h⟩
        cases hnil
        exact h
  | cons t ts ih =>
      simp only [List.cons_append, takesAll_cons_iff, ih]
      constructor
      · rintro ⟨mid, ht, mid', hts, hus⟩
        exact ⟨mid', ⟨mid, ht, hts⟩, hus⟩
      · rintro ⟨mid', ⟨mid, ht, hts⟩, hus⟩
        exact ⟨mid, ht, mid', hts, hus⟩

theorem reader_bind_eq_ok_iff {r : Reader α} {f : α → Reader β} {b : β} :
    (r >>= f) cs = .ok (b, rest) ↔ ∃ a mid, r cs = .ok (a, mid) ∧ f a mid = .ok (b, rest) := by
  refine ⟨bind_eq_ok, ?_⟩
  rintro ⟨a, mid, hr, hf⟩
  show (r cs >>= fun p => f p.1 p.2) = _
  rw [hr]
  exact hf

theorem reader_pure_eq_ok_iff {a b : α} :
    (pure a : Reader α) cs = .ok (b, rest) ↔ b = a ∧ rest = cs := by
  constructor
  · intro h
    cases h
    exact ⟨rfl, rfl⟩
  · rintro ⟨rfl, rfl⟩
    rfl

theorem not_fail_eq_ok {cause : Cause} {a : α} : (fail cause : Reader α) cs ≠ .ok (a, rest) := nofun

theorem word_eq_ok_iff {w : String} :
    word cs = .ok (w, rest) ↔ isWord w ∧ Takes (.word w) cs rest := by
  unfold word Takes isWord
  constructor
  · intro h
    split at h
    · cases h
    · rename_i c tail hskip
      split_ifs at h with hc
      cases h
      simp only [String.toList_ofList, hc, Bool.true_and, List.all_eq_true, Token.text,
        List.cons_append, List.takeWhile_append_dropWhile]
      exact ⟨fun d hd => List.mem_takeWhile_imp hd, hskip, stops_dropWhile _ _⟩
  · rintro ⟨hw, hskip, hrest⟩
    split at hw
    · cases hw
    · rename_i c tail hlist
      rw [Bool.and_eq_true, List.all_eq_true] at hw
      rw [Token.text, hlist, List.cons_append] at hskip
      obtain ⟨htake, hdrop⟩ := takeWhile_append_of_stops hw.2 hrest
      rw [hskip]
      dsimp only
      rw [if_pos hw.1, htake, hdrop, ← hlist, String.ofList_toList]

theorem keyword_eq_ok_iff {k : String} (hk : isWord k) {u : Unit} :
    keyword k cs = .ok (u, rest) ↔ Takes (.word k) cs rest := by
  unfold keyword
  rw [reader_bind_eq_ok_iff]
  constructor
  · rintro ⟨w, mid, hw, h⟩
    split_ifs at h with heq
    · obtain ⟨-, rfl⟩ := reader_pure_eq_ok_iff.1 h
      exact heq ▸ (word_eq_ok_iff.1 hw).2
    · exact absurd h not_fail_eq_ok
  · intro h
    refine ⟨k, rest, word_eq_ok_iff.2 ⟨hk, h⟩, ?_⟩
    rw [if_pos rfl]
    rfl

theorem stops_sign {s : String} : Stops (Token.sign s).goesOnWith rest := fun _ _ => rfl

theorem char_eq_ok_iff {c : Char} {s : String} (hs : s.toList = [c]) {u : Unit} :
    char c cs = .ok (u, rest) ↔ Takes (.sign s) cs rest := by
  unfold char Takes
  rw [Token.text, hs]
  constructor
  · intro h
    split at h
    · cases h
    · rename_i d tail hskip
      split_ifs at h with hd
      cases h
      rw [hskip, hd]
      exact ⟨rfl, stops_sign⟩
  · rintro ⟨hskip, -⟩
    rw [hskip]
    exact if_pos rfl

theorem lessEqual_eq_ok_iff {u : Unit} :
    lessEqual cs = .ok (u, rest) ↔ Takes (.sign "<=") cs rest := by
  rw [lessEqual_eq, Takes]
  constructor
  · intro h
    split at h
    · rename_i tail hafter
      cases h
      exact ⟨Text.after?_eq_some_iff.1 hafter, stops_sign⟩
    · cases h
  · rintro ⟨hskip, -⟩
    rw [show Text.after? ['<', '='] (skip cs) = some rest from Text.after?_eq_some_iff.2 hskip]

theorem unsignedValue?_eq_some_iff {ds : List Char} {n : UInt64} :
    unsignedValue? ds = some n ↔ ds ≠ [] ∧ digitsValue ds = n.toNat := by
  unfold unsignedValue?
  split_ifs with hnil hlt
  · simp [List.isEmpty_iff.1 hnil]
  · have hne : ds ≠ [] := fun h => hnil (by rw [h]; rfl)
    rw [Option.some.injEq, and_iff_right hne, ← UInt64.toNat_inj, UInt64.toNat_ofNat_of_lt' hlt]
  · exact ⟨nofun, fun h => absurd (h.2 ▸ n.toNat_lt) hlt⟩

theorem unsigned_eq_ok_iff {n : UInt64} : unsigned cs = .ok (n, rest) ↔
    ∃ ds, Denotes ds n.toNat ∧ Takes (.digits ds) cs rest := by
  unfold unsigned
  constructor
  · intro h
    split at h
    rename_i ds tail hscan
    split at h
    · rename_i m hm
      cases h
      obtain ⟨hne, hvalue⟩ := unsignedValue?_eq_some_iff.1 hm
      obtain ⟨hdigits, hstops⟩ := scanDigits_eq hscan
      have happend := scanDigits_append (skip cs)
      rw [hscan] at happend
      exact ⟨ds, ⟨hne, hdigits, hvalue⟩, happend.symm, hstops⟩
    · cases h
  · rintro ⟨ds, ⟨hne, hdigits, hvalue⟩, hskip, hstops⟩
    have hscan : scanDigits (skip cs) = (ds, rest) := by
      rw [hskip]
      exact scanDigits_append_eq hdigits hstops
    rw [hscan]
    dsimp only
    rw [unsignedValue?_eq_some_iff.2 ⟨hne, hvalue⟩]

theorem unsigned32_eq_ok_iff {field : Field} {n : UInt32} :
    unsigned32 field cs = .ok (n, rest) ↔
      ∃ ds, Denotes ds n.toNat ∧ Takes (.digits ds) cs rest := by
  unfold unsigned32
  rw [reader_bind_eq_ok_iff]
  constructor
  · rintro ⟨m, mid, hm, h⟩
    split_ifs at h with hlt
    · obtain ⟨rfl, rfl⟩ := reader_pure_eq_ok_iff.1 h
      rw [UInt64.toNat_toUInt32, Nat.mod_eq_of_lt hlt]
      exact unsigned_eq_ok_iff.1 hm
    · exact absurd h not_fail_eq_ok
  · intro h
    have hlt : n.toUInt64.toNat < UInt32.size := n.toNat_lt
    refine ⟨n.toUInt64, rest, unsigned_eq_ok_iff.2 h, ?_⟩
    rw [if_pos hlt, UInt32.toUInt32_toUInt64]
    rfl

theorem denotes_of_value? {n : Numeral} {x : Float} (h : n.value? = some x) : n.denotes := by
  by_contra hd
  rw [Numeral.value?, if_neg hd] at h
  cases h

theorem number_eq_ok_iff {x : Float} : number cs = .ok (x, rest) ↔
    ∃ n : Numeral, n.WellFormed ∧ n.value? = some x ∧ Takes (.literal n) cs rest := by
  unfold number
  constructor
  · intro h
    split at h
    rename_i n tail hscan
    split at h
    · rename_i y hy
      cases h
      have happend := Numeral.text_append_scan (skip cs)
      rw [hscan] at happend
      exact ⟨n, Numeral.wellFormed_of_scan hscan, hy, happend.symm, Numeral.stops_of_scan hscan⟩
    · cases h
  · rintro ⟨n, hn, hx, hskip, hstops⟩
    have hscan : Numeral.scan (skip cs) = (n, rest) := by
      rw [hskip]
      exact Numeral.scan_append hn (denotes_of_value? hx) hstops
    rw [hscan]
    dsimp only
    rw [hx]

theorem isWord_keyword (type : FeatureType) : isWord type.keyword := by
  cases type <;> decide

theorem featureType_eq_ok_iff {type : FeatureType} :
    featureType cs = .ok (type, rest) ↔ Takes (.word type.keyword) cs rest := by
  unfold featureType
  rw [reader_bind_eq_ok_iff]
  constructor
  · rintro ⟨w, mid, hw, h⟩
    cases ht : FeatureType.ofKeyword? w with
    | none =>
        rw [ht] at h
        exact absurd h not_fail_eq_ok
    | some t =>
        rw [ht] at h
        obtain ⟨rfl, rfl⟩ := reader_pure_eq_ok_iff.1 h
        have hkeyword : type.keyword = w := by simpa using List.find?_some ht
        rw [hkeyword]
        exact (word_eq_ok_iff.1 hw).2
  · intro h
    refine ⟨type.keyword, rest, word_eq_ok_iff.2 ⟨isWord_keyword type, h⟩, ?_⟩
    rw [FeatureType.ofKeyword?_keyword]
    rfl

/-! ### Definitions -/

theorem leafRule_eq_ok_iff {r : NamedRule} : leafRule cs = .ok (r, rest) ↔
    ∃ p : UInt32, r = .leaf p ∧ ∃ ds, Denotes ds p.toNat ∧ Takes (.digits ds) cs rest := by
  unfold leafRule
  simp only [reader_bind_eq_ok_iff, reader_pure_eq_ok_iff, unsigned32_eq_ok_iff]
  constructor
  · rintro ⟨p, mid, h, rfl, rfl⟩
    exact ⟨p, rfl, h⟩
  · rintro ⟨p, rfl, h⟩
    exact ⟨p, rest, h, rfl, rfl⟩

theorem splitRule_eq_ok_iff {r : NamedRule} : splitRule cs = .ok (r, rest) ↔
    ∃ ts, r.Spelled (.word "split" :: ts) ∧ TakesAll ts cs rest := by
  unfold splitRule
  simp only [reader_bind_eq_ok_iff, reader_pure_eq_ok_iff, unsigned32_eq_ok_iff,
    lessEqual_eq_ok_iff, number_eq_ok_iff, word_eq_ok_iff,
    char_eq_ok_iff (show (":" : String).toList = [':'] from rfl),
    char_eq_ok_iff (show ("?" : String).toList = ['?'] from rfl)]
  constructor
  · rintro ⟨f, r₁, ⟨ds, hds, h₁⟩, -, r₂, h₂, x, r₃, ⟨n, hn, hx, h₃⟩, -, r₄, h₄, l, r₅, ⟨hl, h₅⟩, -,
      r₆, h₆, r, r₇, ⟨hr, h₇⟩, rfl, rfl⟩
    exact ⟨_, .split hds hn hx hl hr, .cons h₁ (.cons h₂ (.cons h₃ (.cons h₄ (.cons h₅ (.cons h₆
      (.cons h₇ .nil))))))⟩
  · rintro ⟨ts, hr, h⟩
    generalize hus : Token.word "split" :: ts = us at hr
    cases hr with
    | leaf => simp at hus
    | split hds hn hx hl hr =>
        obtain ⟨-, rfl⟩ := List.cons.inj hus
        simp only [takesAll_cons_iff] at h
        obtain ⟨r₁, h₁, r₂, h₂, r₃, h₃, r₄, h₄, r₅, h₅, r₆, h₆, r₇, h₇, hnil⟩ := h
        cases hnil
        exact ⟨_, r₁, ⟨_, hds, h₁⟩, (), r₂, h₂, _, r₃, ⟨_, hn, hx, h₃⟩, (), r₄, h₄, _, r₅, ⟨hl, h₅⟩,
          (), r₆, h₆, _, _, ⟨hr, h₇⟩, rfl, rfl⟩

theorem rule_eq_ok_iff {r : NamedRule} :
    rule cs = .ok (r, rest) ↔ ∃ ts, r.Spelled ts ∧ TakesAll ts cs rest := by
  unfold rule
  rw [reader_bind_eq_ok_iff]
  constructor
  · rintro ⟨kind, mid, hkind, h⟩
    obtain ⟨-, hkind⟩ := word_eq_ok_iff.1 hkind
    split_ifs at h with hleaf hsplit
    · obtain ⟨p, rfl, ds, hds, htakes⟩ := leafRule_eq_ok_iff.1 h
      exact ⟨_, .leaf hds, .cons (hleaf ▸ hkind) (.cons htakes .nil)⟩
    · obtain ⟨ts, hr, htakes⟩ := splitRule_eq_ok_iff.1 h
      exact ⟨_, hr, .cons (hsplit ▸ hkind) htakes⟩
    · exact absurd h not_fail_eq_ok
  · rintro ⟨ts, hr, h⟩
    cases hr with
    | leaf hds =>
        obtain ⟨mid, hkind, htakes⟩ := takesAll_cons_iff.1 h
        refine ⟨"leaf", mid, word_eq_ok_iff.2 ⟨by decide, hkind⟩, ?_⟩
        rw [if_pos rfl]
        exact leafRule_eq_ok_iff.2 ⟨_, rfl, _, hds, takesAll_singleton_iff.1 htakes⟩
    | split hds hn hx hl hr =>
        obtain ⟨mid, hkind, htakes⟩ := takesAll_cons_iff.1 h
        refine ⟨"split", mid, word_eq_ok_iff.2 ⟨by decide, hkind⟩, ?_⟩
        rw [if_neg (by decide), if_pos rfl]
        exact splitRule_eq_ok_iff.2 ⟨_, .split hds hn hx hl hr, htakes⟩

theorem wordEnds_iff : wordEnds cs = true ↔ Stops continuesWord cs := by
  cases cs with
  | nil => simp [wordEnds]
  | cons c cs => simp [wordEnds]

theorem takes_samples_iff {mid : List Char} : Takes (.word "samples") cs mid ↔
    Text.after? "samples".toList (skip cs) = some mid ∧ wordEnds mid := by
  rw [Text.after?_eq_some_iff, wordEnds_iff]
  rfl

theorem some_unsigned_eq_ok_iff {samples : Option UInt64} :
    (some <$> unsigned : Reader (Option UInt64)) cs = .ok (samples, rest) ↔
      ∃ n, samples = some n ∧ unsigned cs = .ok (n, rest) := by
  rw [map_eq_pure_bind, reader_bind_eq_ok_iff]
  constructor
  · rintro ⟨n, mid, hn, h⟩
    obtain ⟨rfl, rfl⟩ := reader_pure_eq_ok_iff.1 h
    exact ⟨n, rfl, hn⟩
  · rintro ⟨n, rfl, hn⟩
    exact ⟨n, rest, hn, rfl⟩

/-- The clause is left out only where the word for it does not come next. -/
theorem samplesClause_eq_ok_iff {samples : Option UInt64} :
    samplesClause cs = .ok (samples, rest) ↔
      (samples = none ∧ rest = skip cs ∧ ∀ mid, ¬Takes (.word "samples") cs mid) ∨
      ∃ n mid, samples = some n ∧ Takes (.word "samples") cs mid ∧
        unsigned mid = .ok (n, rest) := by
  unfold samplesClause
  constructor
  · intro h
    split at h
    · rename_i mid hafter
      split_ifs at h with hends
      · obtain ⟨n, rfl, hn⟩ := some_unsigned_eq_ok_iff.1 h
        exact .inr ⟨n, mid, rfl, takes_samples_iff.2 ⟨hafter, hends⟩, hn⟩
      · cases h
        refine .inl ⟨rfl, rfl, fun mid' htakes => ?_⟩
        obtain ⟨hafter', hends'⟩ := takes_samples_iff.1 htakes
        exact hends (Option.some.inj (hafter.symm.trans hafter') ▸ hends')
    · rename_i hafter
      cases h
      refine .inl ⟨rfl, rfl, fun mid' htakes => ?_⟩
      cases hafter.symm.trans (takes_samples_iff.1 htakes).1
  · rintro (⟨rfl, rfl, hnot⟩ | ⟨n, mid, rfl, htakes, hn⟩)
    · split
      · rename_i mid hafter
        exact if_neg fun hends => hnot mid (takes_samples_iff.2 ⟨hafter, hends⟩)
      · rfl
    · obtain ⟨hafter, hends⟩ := takes_samples_iff.1 htakes
      rw [hafter]
      exact (if_pos hends).trans (some_unsigned_eq_ok_iff.2 ⟨n, rfl, hn⟩)

theorem samplesClause_eq_ok {samples : Option UInt64} {mid : List Char}
    (hs : SamplesSpelled samples ts) (h : TakesAll ts cs mid)
    (hnot : samples = none → ∀ r, ¬Takes (.word "samples") mid r) :
    ∃ rest, samplesClause cs = .ok (samples, rest) ∧ skip rest = skip mid := by
  cases hs with
  | none =>
      cases h
      exact ⟨skip cs, samplesClause_eq_ok_iff.2 (.inl ⟨rfl, rfl, hnot rfl⟩), skip_skip cs⟩
  | some hds =>
      obtain ⟨r, htakes, hdigits⟩ := takesAll_cons_iff.1 h
      exact ⟨mid, samplesClause_eq_ok_iff.2 (.inr ⟨_, r, rfl, htakes,
        unsigned_eq_ok_iff.2 ⟨_, hds, takesAll_singleton_iff.1 hdigits⟩⟩), rfl⟩

/-- A definition is read from its tokens, unless the word for its samples follows although they were
left out. -/
theorem definition_eq_ok {d : Definition} {mid : List Char} (hd : d.Spelled ts)
    (h : TakesAll ts cs mid) (hnot : d.samples = none → ∀ r, ¬Takes (.word "samples") mid r) :
    ∃ rest, definition cs = .ok (d, rest) ∧ skip rest = skip mid := by
  cases hd with
  | mk hname hrule hsamples =>
      obtain ⟨r₁, h₁, h⟩ := takesAll_cons_iff.1 h
      obtain ⟨r₂, h₂, h⟩ := takesAll_cons_iff.1 h
      obtain ⟨r₃, h₃, h₄⟩ := takesAll_append_iff.1 h
      obtain ⟨rest, hclause, hskip⟩ := samplesClause_eq_ok hsamples h₄ hnot
      refine ⟨rest, ?_, hskip⟩
      unfold definition
      simp only [reader_bind_eq_ok_iff, reader_pure_eq_ok_iff]
      exact ⟨_, r₁, word_eq_ok_iff.2 ⟨hname, h₁⟩, (), r₂, (char_eq_ok_iff rfl).2 h₂, _, r₃,
        rule_eq_ok_iff.2 ⟨_, hrule, h₃⟩, _, rest, hclause, rfl, rfl⟩

end TreeCode.TreeText
