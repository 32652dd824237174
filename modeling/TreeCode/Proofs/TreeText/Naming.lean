import TreeCode.Proofs.TreeText.Grammar

/-! # Names of nodes

A source stands for the draft that results from adding its definitions one by one, with children by
number (`Source.drafted`). That is the draft of the source, unless a child is not defined: then the
first such name is reported (`Source.draft_eq`). The tree of the source is built from it
(`Source.tree_eq`). -/

namespace TreeCode.TreeText

/-- The names of the children, the left one first. -/
def NamedRule.children : NamedRule → List String
  | leaf _ => []
  | split _ _ left right => [left, right]

namespace Source

variable (s : Source)

/-! ### Drafts of sources -/

/-- The names of all children, in the order of the definitions. -/
def children : List String := s.definitions.flatMap (·.rule.children)

/-- Nodes are numbered in the order of their definitions. -/
def number (name : String) : NodeId := (names s.definitions).idxOf name

def numbered : NamedRule → Rule
  | .leaf prediction => .leaf prediction
  | .split feature threshold left right =>
      .split feature threshold (s.number left) (s.number right)

/-- Add a node as it is defined, and record its samples if they are given. -/
def add (draft : Draft) (d : Definition) : Draft :=
  let (draft, id) := draft.add (s.numbered d.rule)
  match d.samples with
  | some samples => draft.setSamples id samples
  | none => draft

/-- All nodes, added in the order of their definitions. -/
def drafted : Draft := s.definitions.foldl s.add (.empty s.name s.dim s.featureType)

/-- A child that is not defined, if there is one; the first one in the order of the definitions. -/
def undefined? : Option String := s.children.find? (· ∉ names s.definitions)

/-! ### Numbering -/

theorem resolve_eq (name : String) : s.resolve name =
    if name ∈ names s.definitions then .ok (s.number name) else .error (.undefined name) := by
  unfold resolve
  split_ifs with hname
  · have hlt : (names s.definitions).idxOf name < s.definitions.length := by
      rw [← s.definitions.length_map (f := (·.name))]
      exact List.idxOf_lt_length_iff.2 hname
    have hindex : s.definitions.findIdx (·.name == name) = (names s.definitions).idxOf name := by
      rw [names, List.idxOf, List.findIdx_map]
      rfl
    rw [List.findIdx?_eq_some_iff_findIdx_eq.2 ⟨hlt, hindex⟩, number]
  · have hnone : s.definitions.findIdx? (·.name == name) = none := by
      refine List.findIdx?_eq_none_iff.2 fun d hd => ?_
      rw [beq_eq_false_iff_ne]
      rintro rfl
      exact hname (List.mem_map_of_mem hd)
    rw [hnone]

/-- The sketch of a definition, unless a child is not defined. -/
theorem sketch_eq (d : Definition) : s.sketch d =
    match d.rule.children.find? (· ∉ names s.definitions) with
    | some name => .error (.undefined name)
    | none => .ok ⟨s.numbered d.rule, d.samples⟩ := by
  unfold sketch
  cases hrule : d.rule with
  | leaf => rfl
  | split f x left right =>
      dsimp only [NamedRule.children, numbered]
      rw [resolve_eq, resolve_eq]
      by_cases hl : left ∈ names s.definitions
      · by_cases hr : right ∈ names s.definitions
        · simp [hl, hr, bind, Except.bind]
        · simp [hl, hr, bind, Except.bind]
      · simp [hl, bind, Except.bind]

theorem mapM_sketch_eq (ds : List Definition) : ds.mapM s.sketch =
    match (ds.flatMap (·.rule.children)).find? (· ∉ names s.definitions) with
    | some name => .error (.undefined name)
    | none => .ok (ds.map fun d => ⟨s.numbered d.rule, d.samples⟩) := by
  induction ds with
  | nil => rfl
  | cons d ds ih =>
      rw [List.mapM_cons, List.flatMap_cons, List.find?_append, sketch_eq, ih]
      cases d.rule.children.find? _ with
      | some name => rfl
      | none =>
          cases (ds.flatMap (·.rule.children)).find? _ with
          | some name => rfl
          | none => rfl

/-! ### Adding -/

/-- The node that was just added is the one that is modified. -/
theorem modify_push_size {α : Type} (xs : Array α) (x : α) (f : α → α) :
    (xs.push x).modify xs.size f = xs.push (f x) := by
  grind

theorem add_eq (draft : Draft) (d : Definition) : s.add draft d =
    { draft with sketches := draft.sketches.push ⟨s.numbered d.rule, d.samples⟩ } := by
  unfold add Draft.add
  cases d.samples with
  | none => rfl
  | some samples =>
      dsimp only [Draft.setSamples]
      rw [modify_push_size]

theorem foldl_add_eq (draft : Draft) (ds : List Definition) : ds.foldl s.add draft =
    { draft with sketches := draft.sketches ++
        (ds.map fun d => (⟨s.numbered d.rule, d.samples⟩ : Sketch)) } := by
  induction ds generalizing draft with
  | nil => simp
  | cons d ds ih =>
      rw [List.foldl_cons, ih, add_eq]
      simp

/-- The draft of a source, unless a child is not defined. -/
theorem draft_eq : s.draft = match s.undefined? with
    | some name => .error (.undefined name)
    | none => .ok s.drafted := by
  unfold draft undefined? children drafted
  rw [mapM_sketch_eq, foldl_add_eq]
  cases (s.definitions.flatMap (·.rule.children)).find? _ with
  | some name => rfl
  | none => simp [Draft.empty, bind, Except.bind, pure, Except.pure]

/-- The tree of a source without probabilities, unless a child is not defined or the nodes do not
form a tree. -/
theorem built_eq (s : Source) : s.built = match s.undefined? with
    | some name => .error (.undefined name)
    | none => (s.drafted.build 0).mapError .invalid := by
  unfold built
  rw [draft_eq]
  cases s.undefined? with
  | some name => rfl
  | none =>
      dsimp only [bind, Except.bind]
      cases s.drafted.build 0 <;> rfl

theorem tree_eq (s : Source) : s.tree = match s.undefined? with
    | some name => .error (.undefined name)
    | none => match s.drafted.build 0 with
        | .ok t => .ok t.annotate
        | .error e => .error (.invalid e) := by
  unfold tree
  rw [built_eq]
  cases s.undefined? with
  | some name => rfl
  | none =>
      dsimp only
      cases s.drafted.build 0 <;> rfl

/-- Only reading tells of a line. -/
theorem tree_ne_malformed (s : Source) (line : Nat) (cause : Cause) :
    s.tree ≠ .error (.malformed line cause) := by
  rw [s.tree_eq]
  split
  · exact nofun
  · split <;> exact nofun

end Source

theorem parse_of_read {s : Source} {text : String} (h : read text.toList = .ok s) :
    Tree.parse text = s.tree := by
  unfold Tree.parse
  rw [h]
  rfl

theorem parseIn_of_read {s : Source} {text : String} (h : read text.toList = .ok s)
    (v : Overflow) : Tree.parseIn v text = s.treeIn v := by
  rw [Tree.parseIn, h]

end TreeCode.TreeText
