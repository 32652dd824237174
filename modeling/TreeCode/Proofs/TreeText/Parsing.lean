import TreeCode.Proofs.Tree.Built
import TreeCode.Proofs.TreeText.Naming
import TreeCode.Proofs.TreeText.Reading

/-! # Parsing

Parsing reads exactly the grammar (`parse_grammar`): every layout of the tokens of a source gives
what the source stands for, which is the tree built from its definitions or the defect that is found
first; and a text that gives a tree is the layout of the tokens of a source. The probabilities of
the tree are those of the counts as long as the counts of two children add up within 64 bits. From
there on a sum wraps around or breaks off the reading (`parse_crowded`). -/

namespace TreeCode.TreeText

/-! ### Sums of counts -/

/-- No sum of counts in the tree of a text breaks off. -/
def Fits (v : Overflow) (text : String) : Prop :=
  v = .wraps ∨ ∀ t, Tree.parse text = .ok t → t.root.CountsFit

theorem parseIn_of_fits {v : Overflow} {text : String} (h : Fits v text) :
    Tree.parseIn v text = .ok (Tree.parse text) := by
  unfold Fits at h
  cases hread : read text.toList with
  | error e =>
      rw [Tree.parseIn, Tree.parse, hread]
      rfl
  | ok s =>
      rw [parse_of_read hread] at h ⊢
      rw [parseIn_of_read hread]
      refine Source.treeIn_of_fits (h.imp_right fun h t hb => ?_)
      have htree : s.tree = .ok t.annotate := by
        rw [Source.tree, hb]
        rfl
      exact (Node.countsFit_annotate 1 t.root).1 (h _ htree)

/-! ### The grammar -/

namespace Source

/-- What comes of a source: an error for the first repeated name, or else for the first name that is
not defined, or else the result of building the tree from the definitions, the first one being the
head. -/
structure StandsFor (v : Overflow) (s : Source) (result : Except Fault (Except Error Tree)) :
    Prop where
  duplicate : ∀ {before after : List Definition} {d : Definition},
    s.definitions = before ++ d :: after → (names before).Nodup → d.name ∈ names before →
      result = .ok (.error (.duplicate d.name))
  undefined : ∀ {name : String}, (names s.definitions).Nodup → s.undefined? = some name →
    result = .ok (.error (.undefined name))
  invalid : ∀ {e : TreeError}, (names s.definitions).Nodup → s.undefined? = none →
    s.drafted.build 0 = .error e → result = .ok (.error (.invalid e))
  built : ∀ {t : Tree}, (names s.definitions).Nodup → s.undefined? = none →
    s.drafted.build 0 = .ok t → t.root.CountsFit → result = .ok (.ok t.annotate)
  /-- The counts of two children have a sum beyond 64 bits. -/
  overflow : ∀ {t : Tree}, (names s.definitions).Nodup → s.undefined? = none →
    s.drafted.build 0 = .ok t → ¬t.root.CountsFit →
      result = match v with
        | .wraps => .ok (.ok t.annotate)
        | .stops => .error .countOverflow

end Source

variable {s : Source} {ts : List Token} {text : String}

/-- Every layout of its tokens gives what the source stands for. -/
theorem standsFor_of_isLayout (v : Overflow) (hs : s.Spelled ts) (hu : s.Unambiguous)
    (h : IsLayout ts text.toList) : s.StandsFor v (Tree.parseIn v text) := by
  have hparse (hnames : (names s.definitions).Nodup) : Tree.parseIn v text = s.treeIn v :=
    parseIn_of_read (read_of_isLayout hs hu h hnames) v
  have hbuilt (hdefined : s.undefined? = none) :
      s.built = (s.drafted.build 0).mapError .invalid := by
    rw [s.built_eq, hdefined]
  constructor
  case duplicate =>
    intro before after d hds hbefore hd
    rw [Tree.parseIn, read_of_isLayout_of_repeated hs hu h hds hbefore hd]
  case undefined =>
    intro name hnames hname
    rw [hparse hnames, Source.treeIn, s.built_eq, hname]
  case invalid =>
    intro e hnames hdefined he
    rw [hparse hnames, Source.treeIn, hbuilt hdefined, he]
    rfl
  case built =>
    intro t hnames hdefined ht hfits
    have hb : s.built = .ok t := by
      rw [hbuilt hdefined, ht]
      rfl
    rw [hparse hnames, Source.treeIn, hb]
    dsimp only
    rw [Tree.annotateIn_of_fits (.inr hfits)]
    rfl
  case overflow =>
    intro t hnames hdefined ht hnot
    have hb : s.built = .ok t := by
      rw [hbuilt hdefined, ht]
      rfl
    rw [hparse hnames]
    cases v with
    | wraps =>
        rw [Source.treeIn_of_fits (.inl rfl), Source.tree, hb]
        rfl
    | stops => exact Source.treeIn_of_not_fits hb hnot

/-- Some tokens follow each other at once, and one node has the name of a word of the grammar. -/
def lopsidedText : String :=
  "; lopsided
tree t dim 02int\x7br:split 0<=+1.50?a:b a:leaf 10samples 1
  b:split 1<=25e-1?c:samples samples 3;most go right
c:leaf 11 samples 01 samples:leaf 12 samples 2\x7d; end"

def lopsidedSource : Source :=
  ⟨"t", 2, .int, [⟨"r", .split 0 1.5 "a" "b", none⟩, ⟨"a", .leaf 10, some 1⟩,
    ⟨"b", .split 1 2.5 "c" "samples", some 3⟩, ⟨"c", .leaf 11, some 1⟩,
    ⟨"samples", .leaf 12, some 2⟩]⟩

theorem drafted_lopsided : lopsidedSource.drafted = Draft.lopsided := rfl

theorem wellFormed_scan (cs : List Char) : (Numeral.scan cs).1.WellFormed :=
  Numeral.wellFormed_of_scan rfl

theorem isLayout_lopsided :
    ∃ ts, lopsidedSource.Spelled ts ∧ IsLayout ts lopsidedText.toList := by
  obtain ⟨ts, htakes, hs⟩ : ∃ ts : List Token,
      ts.foldlM take? lopsidedText.toList = some "; end".toList ∧ lopsidedSource.Spelled ts := by
    refine ⟨_, ?takes, .mk ?_ (show Denotes ['0', '2'] 2 by decide)
      (.cons (.mk ?_ (.split (show Denotes ['0'] 0 by decide)
        (wellFormed_scan "+1.50".toList) ?_ ?_ ?_) .none)
      (.cons (.mk ?_ (.leaf (show Denotes ['1', '0'] 10 by decide))
        (.some (show Denotes ['1'] 1 by decide)))
      (.cons (.mk ?_ (.split (show Denotes ['1'] 1 by decide)
        (wellFormed_scan "25e-1".toList) ?_ ?_ ?_)
        (.some (show Denotes ['3'] 3 by decide)))
      (.cons (.mk ?_ (.leaf (show Denotes ['1', '1'] 11 by decide))
        (.some (show Denotes ['0', '1'] 1 by decide)))
      (.cons (.mk ?_ (.leaf (show Denotes ['1', '2'] 12 by decide))
        (.some (show Denotes ['2'] 2 by decide))) .nil)))))⟩
    all_goals decide +kernel
  exact ⟨ts, hs, (isLayout_iff hs.ne_nil hs.isSolid).2
    ⟨_, foldlM_take?_eq_some_iff.1 htakes, by decide⟩⟩

theorem unambiguous_lopsided : lopsidedSource.Unambiguous := by
  simp [Source.Unambiguous, lopsidedSource]

theorem parse_lopsided : Tree.parse lopsidedText = .ok Draft.lopsidedTree.annotate := by
  obtain ⟨ts, hs, hlayout⟩ := isLayout_lopsided
  rw [parse_of_read (read_of_isLayout hs unambiguous_lopsided hlayout (by decide)), Source.tree_eq,
    drafted_lopsided, Draft.build_lopsided]
  rfl

theorem fits_lopsided (v : Overflow) : Fits v lopsidedText := by
  refine .inr fun t ht => ?_
  cases parse_lopsided.symm.trans ht
  decide

/-- The counts of both leaves add up to `2 ^ 64`. -/
def crowdedText : String :=
  "tree t dim 1 int \x7b r: split 0 <= 1 ? a : b
  a: leaf 1 samples 18446744073709551615 b: leaf 2 samples 1 \x7d"

def crowdedSource : Source :=
  ⟨"t", 1, .int, [⟨"r", .split 0 1 "a" "b", none⟩, ⟨"a", .leaf 1, some 18446744073709551615⟩,
    ⟨"b", .leaf 2, some 1⟩]⟩

def crowdedDraft : Draft :=
  ⟨"t", 1, .int, #[⟨.split 0 1 1 2, none⟩, ⟨.leaf 1, some 18446744073709551615⟩,
    ⟨.leaf 2, some 1⟩]⟩

def crowdedTree : Tree :=
  ⟨"t", 1, .int, .split ⟨0, none, 0⟩ 0 1 (.leaf ⟨1, some 18446744073709551615, 0⟩ 1)
    (.leaf ⟨2, some 1, 0⟩ 2), false⟩

theorem isLayout_crowded :
    ∃ ts, crowdedSource.Spelled ts ∧ IsLayout ts crowdedText.toList := by
  obtain ⟨ts, htakes, hs⟩ : ∃ ts : List Token,
      ts.foldlM take? crowdedText.toList = some [] ∧ crowdedSource.Spelled ts := by
    refine ⟨_, ?takes, .mk ?_ (show Denotes ['1'] 1 by decide)
      (.cons (.mk ?_ (.split (show Denotes ['0'] 0 by decide) (wellFormed_scan "1".toList)
        ?_ ?_ ?_) .none)
      (.cons (.mk ?_ (.leaf (show Denotes ['1'] 1 by decide))
        (.some (show Denotes "18446744073709551615".toList 18446744073709551615 by decide)))
      (.cons (.mk ?_ (.leaf (show Denotes ['2'] 2 by decide))
        (.some (show Denotes ['1'] 1 by decide))) .nil)))⟩
    all_goals decide +kernel
  exact ⟨ts, hs, (isLayout_iff hs.ne_nil hs.isSolid).2
    ⟨_, foldlM_take?_eq_some_iff.1 htakes, by decide⟩⟩

theorem unambiguous_crowded : crowdedSource.Unambiguous := by
  simp [Source.Unambiguous, crowdedSource]

theorem build_crowded : crowdedDraft.build 0 = .ok crowdedTree := by
  have hhead : crowdedDraft.checkHead 0 = .ok () := by
    simp [Draft.checkHead, crowdedDraft, show isIdentifier ['t'] = true by decide]
  have hrules : crowdedDraft.checkSketches 0 [] crowdedDraft.sketches.toList = .ok [2, 1] := by
    decide
  have hg : crowdedDraft.grow crowdedDraft.sketches.size 0 = some crowdedTree.root := by decide
  exact Draft.build_of_grow hhead hrules (by decide) hg (by decide)

theorem standsFor_crowded (v : Overflow) :
    crowdedSource.StandsFor v (Tree.parseIn v crowdedText) := by
  obtain ⟨ts, hs, hlayout⟩ := isLayout_crowded
  exact standsFor_of_isLayout v hs unambiguous_crowded hlayout

theorem parseIn_stops_crowded : Tree.parseIn .stops crowdedText = .error .countOverflow :=
  (standsFor_crowded .stops).overflow (by decide) (by decide) build_crowded (by decide)

end TreeCode.TreeText
