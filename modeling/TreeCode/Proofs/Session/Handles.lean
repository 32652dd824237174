import TreeCode.Proofs.Program.Names
import TreeCode.Proofs.Session.Bookkeeping

/-! # Handles of generated names

A handle points at its text among the interned texts (`Resolves`). Interning gives out such a
handle, and every step of a session only adds texts behind those that are there, none of them twice
(`Extends`), so what has been given out stays right to the end of a run (`resolves_of_mem_namings`).
Two handles therefore point at the same place if and only if they have the same text; and generated
names are the same only for the same tree and kind (`symbols_never_collide`). -/

namespace TreeCode

/-! ### Interning -/

namespace Interned

theorem getElem?_intern (texts : Interned) (text : String) :
    (texts.intern text).1[(texts.intern text).2]? = some text := by
  unfold intern
  cases h : texts.findIdx? (· == text) with
  | none => exact List.getElem?_concat_length
  | some i =>
      obtain ⟨hi, heq, -⟩ := List.findIdx?_eq_some_iff_getElem.1 h
      rw [List.getElem?_eq_getElem hi, beq_iff_eq.1 heq]

theorem prefix_intern (texts : Interned) (text : String) : texts <+: (texts.intern text).1 := by
  rw [fst_intern]
  split
  · exact List.prefix_refl texts
  · exact List.prefix_append texts [text]

theorem nodup_intern {texts : Interned} (h : texts.Nodup) (text : String) :
    (texts.intern text).1.Nodup := by
  rw [fst_intern]
  split
  · exact h
  · rename_i hnot
    exact List.concat_eq_append ▸ h.concat hnot

end Interned

namespace Session

/-! ### What interning preserves -/

/-- The first session has the interned texts of the second one, and perhaps more behind them. -/
structure Extends (s' s : Session) : Prop where
  keeps : s.interned <+: s'.interned
  nodup : s.interned.Nodup → s'.interned.Nodup

namespace Extends

variable {s s' s'' : Session}

theorem refl (s : Session) : s.Extends s := ⟨List.prefix_refl _, id⟩

theorem trans (h' : s''.Extends s') (h : s'.Extends s) : s''.Extends s :=
  ⟨h.keeps.trans h'.keeps, fun hnodup => h'.nodup (h.nodup hnodup)⟩

end Extends

theorem extends_intern (s : Session) (text : String) : (s.intern text).1.Extends s :=
  ⟨Interned.prefix_intern _ text, fun h => Interned.nodup_intern h text⟩

theorem extends_foldl_intern (s : Session) (texts : List String) :
    (texts.foldl (fun s text => (s.intern text).1) s).Extends s := by
  induction texts generalizing s with
  | nil => exact Extends.refl s
  | cons text texts ih => exact (ih _).trans (s.extends_intern text)

theorem extends_symbols (s : Session) (name : String) (treeId : UInt32) :
    (s.symbols name treeId).1.Extends s := by
  rw [symbols_fst]
  exact s.extends_foldl_intern _

theorem extends_lower (s : Session) (c : Config) (t : Tree) (treeId : UInt32) :
    (s.lower c t treeId).1.Extends s := by
  cases hlower : Program.lower c t treeId with
  | error e =>
      rw [lower_fst_of_error hlower]
      exact ⟨List.prefix_refl _, id⟩
  | ok p =>
      rw [lower_fst_of_ok hlower]
      obtain ⟨hkeeps, hnodup⟩ := s.extends_symbols t.name treeId
      exact ⟨hkeeps, hnodup⟩

/-- **A step** keeps the interned texts where they are. -/
theorem extends_after (s : Session) (step : Step) : (s.after step).Extends s := by
  cases step with
  | setCurrent name => exact ⟨List.prefix_refl _, id⟩
  | clearCurrent => exact ⟨List.prefix_refl _, id⟩
  | record name report => exact ⟨List.prefix_refl _, id⟩
  | intern text => exact s.extends_intern text
  | symbols name treeId => exact s.extends_symbols name treeId
  | lower c t treeId | compile c t treeId => exact s.extends_lower c t treeId

theorem extends_run (s : Session) (steps : List Step) : (s.run steps).Extends s := by
  induction steps generalizing s with
  | nil => exact Extends.refl s
  | cons step steps ih => exact (ih _).trans (s.extends_after step)

/-! ### Handles -/

/-- The text of the handle is interned at its position. -/
def Resolves (s : Session) (h : Handle) : Prop := s.interned[h.position]? = some h.text

section Resolves

variable {s s' : Session} {h h' : Handle}

theorem resolves_intern (s : Session) (text : String) :
    (s.intern text).1.Resolves (s.intern text).2 :=
  Interned.getElem?_intern s.interned text

theorem Resolves.mono (hr : s.Resolves h) (he : s'.Extends s) : s'.Resolves h := by
  obtain ⟨hlt, htext⟩ := List.getElem?_eq_some_iff.1 hr
  rw [Resolves, ← htext]
  exact List.prefix_iff_getElem?.1 he.keeps h.position hlt

/-- Handles point at the same place if and only if they have the same text. -/
theorem Resolves.position_inj (hnodup : s.interned.Nodup) (hr : s.Resolves h)
    (hr' : s.Resolves h') : h.position = h'.position ↔ h.text = h'.text := by
  constructor
  · intro hposition
    rw [Resolves, hposition] at hr
    exact Option.some.inj (hr.symm.trans hr')
  · intro htext
    rw [Resolves, htext] at hr
    have hlt := (List.getElem?_eq_some_iff.1 hr).1
    exact (List.getElem?_inj hlt hnodup).1 (hr.trans hr'.symm)

end Resolves

theorem text_symbols (s : Session) (name : String) (treeId : UInt32) (k : Symbols.Kind) :
    ((s.symbols name treeId).2.get k).text = (Symbols.ofTree name treeId).get k := by
  cases k <;> rfl

/-- The four handles of a tree point at its names. -/
theorem resolves_symbols (s : Session) (name : String) (treeId : UInt32) (k : Symbols.Kind) :
    (s.symbols name treeId).1.Resolves ((s.symbols name treeId).2.get k) := by
  let texts := Symbols.ofTree name treeId
  let s₁ := (s.intern texts.record).1
  let s₂ := (s₁.intern texts.table).1
  let s₃ := (s₂.intern texts.predict).1
  -- A handle survives the names that are interned after it.
  cases k with
  | record =>
      exact (s.resolves_intern texts.record).mono
        (s₁.extends_foldl_intern [texts.table, texts.predict, texts.fallback])
  | table =>
      exact (s₁.resolves_intern texts.table).mono
        (s₂.extends_foldl_intern [texts.predict, texts.fallback])
  | predict =>
      exact (s₂.resolves_intern texts.predict).mono (s₃.extends_foldl_intern [texts.fallback])
  | fallback => exact s₃.resolves_intern texts.fallback

/-! ### Namings -/

/-- The name and number of the tree for which a step interns the generated names. -/
def Step.tree? : Step → Option (String × UInt32)
  | symbols name treeId => some (name, treeId)
  | lower c t treeId | compile c t treeId =>
      match Program.lower c t treeId with
      | .ok _ => some (t.name, treeId)
      | .error _ => none
  | _ => none

/-- A step names the tree that it lowers or names, with the handles that `symbols` gives out. -/
theorem naming?_eq (s : Session) (step : Step) :
    s.naming? step =
      step.tree?.map fun (name, treeId) => ⟨name, treeId, (s.symbols name treeId).2⟩ := by
  cases step with
  | symbols name treeId => rfl
  | lower c t treeId | compile c t treeId =>
      cases hlower : Program.lower c t treeId with
      | error e => simp only [naming?, lowerNamed, Step.tree?, hlower, Option.map_none]
      | ok p =>
          simp only [naming?, lowerNamed, Step.tree?, hlower, Option.map_some]
          rfl
  | setCurrent name => rfl
  | clearCurrent => rfl
  | record name report => rfl
  | intern text => rfl

/-- The session after a step that names a tree has the texts of that tree's names. -/
theorem interned_after_of_tree? {s : Session} {step : Step} {name : String} {treeId : UInt32}
    (h : step.tree? = some (name, treeId)) :
    (s.after step).interned = (s.symbols name treeId).1.interned := by
  cases step with
  | symbols name' treeId' =>
      obtain ⟨rfl, rfl⟩ := Prod.mk.inj (Option.some.inj h)
      rfl
  | lower c t id | compile c t id =>
      cases hlower : Program.lower c t id with
      | error e => simp [Step.tree?, hlower] at h
      | ok p =>
          obtain ⟨rfl, rfl⟩ : t.name = name ∧ id = treeId := by
            simpa [Step.tree?, hlower] using h
          show (s.lower c t id).1.interned = _
          rw [lower_fst_of_ok hlower]
          rfl
  | setCurrent name => cases h
  | clearCurrent => cases h
  | record name report => cases h
  | intern text => cases h

/-- **One step** names a tree with handles that are right from then on. -/
theorem resolves_of_naming? {s : Session} {step : Step} {n : Naming} (h : s.naming? step = some n)
    (k : Symbols.Kind) :
    (n.handles.get k).text = (Symbols.ofTree n.name n.treeId).get k ∧
      (s.after step).Resolves (n.handles.get k) := by
  rw [naming?_eq] at h
  obtain ⟨⟨name, treeId⟩, htree, rfl⟩ := Option.map_eq_some_iff.1 h
  refine ⟨s.text_symbols name treeId k, ?_⟩
  rw [Resolves, interned_after_of_tree? htree]
  exact s.resolves_symbols name treeId k

/-- **A run** gives out handles that are right to its end. -/
theorem resolves_of_mem_namings {s : Session} {steps : List Step} {n : Naming}
    (h : n ∈ s.namings steps) (k : Symbols.Kind) :
    (n.handles.get k).text = (Symbols.ofTree n.name n.treeId).get k ∧
      (s.run steps).Resolves (n.handles.get k) := by
  induction steps generalizing s with
  | nil => cases h
  | cons step steps ih =>
      rcases List.mem_append.1 h with h | h
      · obtain ⟨htext, hresolves⟩ := resolves_of_naming? (Option.mem_toList.1 h) k
        exact ⟨htext, hresolves.mono (extends_run _ steps)⟩
      · exact ih h

/-- A run names the trees that its steps lower or name, in this order. -/
theorem map_namings (s : Session) (steps : List Step) :
    (s.namings steps).map (fun n => (n.name, n.treeId)) = steps.filterMap Step.tree? := by
  induction steps generalizing s with
  | nil => rfl
  | cons step steps ih =>
      rw [namings, List.map_append, ih, naming?_eq, List.filterMap_cons]
      cases step.tree? with
      | none => rfl
      | some tree => rfl

/-! ### Generated names -/

/-- **Generated names never collide.** They are the same text only for the same tree name, the same
number and the same kind, and they are identifiers if the tree name is one. In a run of a session,
however its steps are mixed, each tree that is lowered or named gets four handles that stand for its
names to the end of the run, and two handles of the run point at the same interned text if and only
if they were given out for the same tree name, number and kind. -/
theorem symbols_never_collide (steps : List Step) :
    (∀ (name name' : String) (treeId treeId' : UInt32) (k k' : Symbols.Kind),
      (Symbols.ofTree name treeId).get k = (Symbols.ofTree name' treeId').get k' ↔
        name = name' ∧ treeId = treeId' ∧ k = k') ∧
    (∀ (name : String) (treeId : UInt32) (k : Symbols.Kind), isIdentifier name.toList = true →
      isIdentifier ((Symbols.ofTree name treeId).get k).toList = true) ∧
    (empty.namings steps).map (fun n => (n.name, n.treeId)) = steps.filterMap Step.tree? ∧
    (∀ n ∈ empty.namings steps, ∀ k : Symbols.Kind,
      (n.handles.get k).text = (Symbols.ofTree n.name n.treeId).get k ∧
        (empty.run steps).interned[(n.handles.get k).position]? = some (n.handles.get k).text) ∧
    (∀ n ∈ empty.namings steps, ∀ n' ∈ empty.namings steps, ∀ k k' : Symbols.Kind,
      (n.handles.get k).position = (n'.handles.get k').position ↔
        n.name = n'.name ∧ n.treeId = n'.treeId ∧ k = k') := by
  refine ⟨fun name name' id id' k k' => Symbols.get_ofTree_inj,
    fun name id k h => Symbols.isIdentifier_get_ofTree h id k, map_namings empty steps,
    fun n hn k => resolves_of_mem_namings hn k, ?_⟩
  intro n hn n' hn' k k'
  obtain ⟨htext, hresolves⟩ := resolves_of_mem_namings hn k
  obtain ⟨htext', hresolves'⟩ := resolves_of_mem_namings hn' k'
  have hnodup : (empty.run steps).interned.Nodup := (extends_run empty steps).nodup List.nodup_nil
  rw [hresolves.position_inj hnodup hresolves', htext, htext']
  exact Symbols.get_ofTree_inj

/-- The table of tree 1 of `a_tree1` and that of tree 11 of `a_tree` differ in one underscore only;
the text of one of them is interned beforehand, and that tree is named twice. -/
theorem symbols_never_collide_tree11 :
    let steps : List Step :=
      [.intern "a_tree1_tree1", .symbols "a_tree" 11, .symbols "a_tree1" 1, .symbols "a_tree1" 1]
    (Symbols.ofTree "a_tree" 11).get .table = "a_tree_tree11" ∧
      (Symbols.ofTree "a_tree1" 1).get .table = "a_tree1_tree1" ∧
      (empty.namings steps).map (fun n => n.handles.toList.map (·.position)) =
        [[1, 2, 3, 4], [5, 0, 6, 7], [5, 0, 6, 7]] ∧
      ∀ n ∈ empty.namings steps, ∀ n' ∈ empty.namings steps, n.name ≠ n'.name →
        (n.handles.get .table).position ≠ (n'.handles.get .table).position := by
  intro steps
  refine ⟨by decide, by decide, by decide, ?_⟩
  intro n hn n' hn' hname heq
  obtain ⟨-, -, -, -, hsame⟩ := symbols_never_collide steps
  exact hname ((hsame n hn n' hn' .table .table).1 heq).1

end Session
end TreeCode
