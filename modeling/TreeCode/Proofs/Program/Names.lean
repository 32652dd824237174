import TreeCode.Proofs.Program.Lines

/-! # Names of different trees

A generated name is the name of its tree, an underscore, a word for the kind of thing that is named,
and the number of the tree in decimal digits. The digits at its end are the number, because no word
ends in a digit, and no word is the end of another one. So a generated name has been made from one
tree and for one kind of thing only, whatever underscores, digits and words the name of the tree has
in it (`Symbols.get_ofTree_inj`). -/

namespace TreeCode

namespace Symbols

/-- What a generated name stands for. -/
inductive Kind where
  | record
  | table
  | predict
  | fallback
deriving DecidableEq, Repr

def Kind.word : Kind → String
  | record => "Node"
  | table => "tree"
  | predict => "predict"
  | fallback => "fallback"

def get {α : Type} (s : Symbols α) : Kind → α
  | .record => s.record
  | .table => s.table
  | .predict => s.predict
  | .fallback => s.fallback

theorem toList_get_ofTree (name : String) (treeId : UInt32) (k : Kind) :
    ((ofTree name treeId).get k).toList =
      (name.toList ++ '_' :: k.word.toList) ++ natText treeId.toNat := by
  cases k <;> simp [get, ofTree, Kind.word, toString_string, toList_toString_uint32]

/-! ### Parts of a name -/

/-- The digits at the end of a text are all that follows what does not end in a digit. -/
theorem append_digits_inj {stem stem' digits digits' : List Char}
    (hstem : Stops Char.isDigit stem.reverse) (hstem' : Stops Char.isDigit stem'.reverse)
    (hdigits : ∀ c ∈ digits, c.isDigit = true) (hdigits' : ∀ c ∈ digits', c.isDigit = true)
    (h : stem ++ digits = stem' ++ digits') : stem = stem' ∧ digits = digits' := by
  have hback := congrArg List.reverse h
  rw [List.reverse_append, List.reverse_append] at hback
  have hends := takeWhile_append_of_stops (fun c hc => hdigits c (List.mem_reverse.1 hc)) hstem
  have hends' := takeWhile_append_of_stops (fun c hc => hdigits' c (List.mem_reverse.1 hc)) hstem'
  rw [hback, hends'.1, hends'.2] at hends
  exact ⟨(List.reverse_inj.1 hends.2).symm, (List.reverse_inj.1 hends.1).symm⟩

theorem stops_stem (name : List Char) (k : Kind) :
    Stops Char.isDigit (name ++ '_' :: k.word.toList).reverse := by
  rw [List.reverse_append]
  cases k <;> exact stops_cons.2 (by decide)

/-- No word for a kind is the end of another one. -/
theorem append_word_inj {name name' : List Char} {k k' : Kind}
    (h : name ++ '_' :: k.word.toList = name' ++ '_' :: k'.word.toList) :
    name = name' ∧ k = k' := by
  have hback := congrArg List.reverse h
  rw [List.reverse_append, List.reverse_append] at hback
  cases k <;> cases k' <;> simp [Kind.word] at hback <;> exact ⟨hback, rfl⟩

theorem natText_inj {n n' : Nat} (h : natText n = natText n') : n = n' := by
  rw [← digitsValue_natText n, h, digitsValue_natText]

/-- **Generated names** are different for different trees and different kinds. -/
theorem get_ofTree_inj {name name' : String} {treeId treeId' : UInt32} {k k' : Kind} :
    (ofTree name treeId).get k = (ofTree name' treeId').get k' ↔
      name = name' ∧ treeId = treeId' ∧ k = k' := by
  constructor
  · intro h
    have hparts := congrArg String.toList h
    rw [toList_get_ofTree, toList_get_ofTree] at hparts
    obtain ⟨hstem, hdigits⟩ := append_digits_inj (stops_stem _ k) (stops_stem _ k')
      (fun c => isDigit_of_mem_natText) (fun c => isDigit_of_mem_natText) hparts
    obtain ⟨hname, hkind⟩ := append_word_inj hstem
    exact ⟨String.toList_inj.1 hname, UInt32.toNat_inj.1 (natText_inj hdigits), hkind⟩
  · rintro ⟨rfl, rfl, rfl⟩
    rfl

/-! ### Identifiers -/

theorem continuesIdentifier_word {k : Kind} {c : Char} (hc : c ∈ '_' :: k.word.toList) :
    continuesIdentifier c = true := by
  have hall : ('_' :: k.word.toList).all continuesIdentifier = true := by
    cases k <;> decide
  exact List.all_eq_true.1 hall c hc

/-- **Generated names** are identifiers if the name of the tree is one. -/
theorem isIdentifier_get_ofTree {name : String} (h : isIdentifier name.toList = true)
    (treeId : UInt32) (k : Kind) :
    isIdentifier ((ofTree name treeId).get k).toList = true := by
  rw [toList_get_ofTree]
  cases hname : name.toList with
  | nil =>
      rw [hname] at h
      cases h
  | cons first rest =>
      rw [hname, isIdentifier, Bool.and_eq_true, List.all_eq_true] at h
      rw [List.cons_append, List.cons_append, isIdentifier, Bool.and_eq_true, List.all_eq_true]
      refine ⟨h.1, fun c hc => ?_⟩
      rcases List.mem_append.1 hc with hc | hc
      · rcases List.mem_append.1 hc with hc | hc
        · exact h.2 c hc
        · exact continuesIdentifier_word hc
      · simp [continuesIdentifier, Char.isAlphanum, isDigit_of_mem_natText hc]

end Symbols

end TreeCode
