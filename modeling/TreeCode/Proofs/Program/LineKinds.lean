import TreeCode.Proofs.Program.Names
import TreeCode.Proofs.Program.Rows

/-! # Kinds of lines

The lines of a function that steer the control flow are jumps, the label and the loop, the
declaration of the cursor, and the two lines of each branch. A line shows by how it starts and ends
which of them it may be (`Line.ofKind_of_ends`), so that each line which is put together from fixed
words, names and numbers is of one kind or of none. -/

namespace TreeCode

def CType.all : List CType :=
  [unsigned .w8, unsigned .w16, unsigned .w32, signed .w8, signed .w16, signed .w32, float, double]

theorem CType.mem_all (type : CType) : type ∈ all := by
  cases type with
  | unsigned w => cases w <;> decide
  | signed w => cases w <;> decide
  | float => decide
  | double => decide

namespace Line

/-! ### Kinds of lines -/

/-- Lines that steer the control flow. -/
inductive Kind where
  | jump
  | label
  | cursor
  | loop
  | branch
  | otherwise
deriving DecidableEq

def Kind.all : List Kind := [jump, label, cursor, loop, branch, otherwise]

instance (p : Kind → Prop) [DecidablePred p] : Decidable (∀ k, p k) :=
  decidable_of_iff (∀ k ∈ Kind.all, p k)
    ⟨fun h k => h k (by cases k <;> decide), fun h k _ => h k⟩

def startsLoop (l : Line) : Bool := "while (".toList.isPrefixOf l.text.toList

/-- A line of this kind, in a function with the given label. -/
def hasKind (label : String) : Kind → Line → Bool
  | .jump, l => l.text == s!"goto {label};"
  | .label, l => l.text == s!"{label}:"
  | .cursor, l => CType.all.any fun type => l.text == s!"{type.name} subroot;"
  | .loop, l => l.startsLoop
  | .branch, l => "if (".toList.isPrefixOf l.text.toList
  | .otherwise, l => l.text == "\x7d else \x7b"

/-- A line of this kind and no other, or of none. -/
def OfKind (label : String) (l : Line) (kind : Option Kind) : Prop :=
  ∀ k, l.hasKind label k = decide (kind = some k)

/-! ### The ends of a line -/

/-- The first two characters and the last one, if they are there. -/
def ends (l : Line) : List Char × Option Char := (l.text.toList.take 2, l.text.toList.getLast?)

/-- How the names of types start. -/
def typeStarts : List (List Char) :=
  [['u', 'n'], ['s', 'i'], ['s', 'h'], ['i', 'n'], ['f', 'l'], ['d', 'o']]

theorem take_name_mem_typeStarts (type : CType) : type.name.toList.take 2 ∈ typeStarts := by
  have hall : ∀ type ∈ CType.all, type.name.toList.take 2 ∈ typeStarts := by decide
  exact hall type type.mem_all

/-- Lines of a kind may have these ends. -/
def Kind.allows (ends : List Char × Option Char) : Kind → Bool
  | jump => ends == (['g', 'o'], some ';')
  | label => ends.2 == some ':'
  | cursor => typeStarts.contains ends.1 && ends.2 == some ';'
  | loop => ends.1 == ['w', 'h']
  | branch => ends.1 == ['i', 'f']
  | otherwise => ends == (['\x7d', ' '], some '\x7b')

section kinds

variable {label : String} {l : Line} {k : Kind} {d : Nat}

theorem take_of_isPrefixOf {n : Nat} {word cs : List Char} (h : word.isPrefixOf cs = true)
    (hn : n ≤ word.length) : cs.take n = word.take n := by
  obtain ⟨rest, rfl⟩ := List.isPrefixOf_iff_prefix.1 h
  exact List.take_append_of_le_length hn

theorem ends_append (start : List Char) (c : Char) {s t : String}
    (hs : (s ++ t).toList.take 2 = start) (ht : t.toList.getLast? = some c) :
    ends ⟨d, s ++ t⟩ = (start, some c) := by
  rw [ends, hs, String.toList_append, List.getLast?_append, ht]
  rfl

theorem ends_typeName (type : CType) {back : String} (hback : back.toList.getLast? = some ';') :
    ends ⟨d, type.name ++ back⟩ = (type.name.toList.take 2, some ';') := by
  have hlength : ∀ type ∈ CType.all, 2 ≤ type.name.toList.length := by decide
  refine ends_append _ _ ?_ hback
  rw [String.toList_append, List.take_append_of_le_length (hlength type type.mem_all)]

theorem allows_of_hasKind (h : l.hasKind label k = true) : k.allows l.ends = true := by
  obtain ⟨d, text⟩ := l
  cases k with
  | jump =>
      obtain rfl := beq_iff_eq.1 h
      have hends : ends ⟨d, s!"goto {label};"⟩ = (['g', 'o'], some ';') :=
        ends_append _ _ (by simp [toString_string]) (by decide)
      rw [hends]
      decide
  | label =>
      obtain rfl := beq_iff_eq.1 h
      have hends : (ends ⟨d, s!"{label}:"⟩).2 = some ':' := by simp [ends, toString_string]
      simp [Kind.allows, hends]
  | cursor =>
      obtain ⟨type, -, h⟩ := List.any_eq_true.1 h
      obtain rfl := beq_iff_eq.1 h
      have hends : ends ⟨d, s!"{type.name} subroot;"⟩ = (type.name.toList.take 2, some ';') :=
        ends_typeName type (by decide)
      simpa [hends, Kind.allows] using take_name_mem_typeStarts type
  | loop =>
      rw [Kind.allows, ends, take_of_isPrefixOf h (by decide)]
      exact show ("while (".toList.take 2 == ['w', 'h']) = true by decide
  | branch =>
      rw [Kind.allows, ends, take_of_isPrefixOf h (by decide)]
      exact show ("if (".toList.take 2 == ['i', 'f']) = true by decide
  | otherwise =>
      obtain rfl := beq_iff_eq.1 h
      exact show Kind.allows (ends ⟨0, "\x7d else \x7b"⟩) .otherwise = true by decide

/-- **The ends of a line** rule out most kinds. -/
theorem ofKind_of_ends {kind : Option Kind}
    (hothers : ∀ k, k.allows l.ends = true → l.hasKind label k = decide (kind = some k))
    (hkind : ∀ k, kind = some k → k.allows l.ends = true) : l.OfKind label kind := by
  intro k
  by_cases h : k.allows l.ends = true
  · exact hothers k h
  · rw [Bool.eq_false_iff.2 fun hk => h (allows_of_hasKind hk),
      decide_eq_false fun hk => h (hkind k hk)]

/-- A line whose ends rule out all kinds. -/
theorem ofKind_none {ends : List Char × Option Char} (hends : l.ends = ends)
    (h : ∀ k : Kind, k.allows ends = false) : l.OfKind label none :=
  ofKind_of_ends (fun k hk => absurd hk (by simp [hends, h k])) nofun

/-- A line whose ends rule out all kinds but the one it is of. -/
theorem ofKind_some {ends : List Char × Option Char} (hends : l.ends = ends)
    (h : ∀ k', k'.allows ends = decide (k = k')) (hk : l.hasKind label k = true) :
    l.OfKind label (some k) := by
  refine ofKind_of_ends (fun k' hk' => ?_) fun k' hk' => ?_
  · obtain rfl : k = k' := by simpa [hends, h k'] using hk'
    simpa using hk
  · rw [hends, h k', decide_eq_true (Option.some.inj hk')]

/-! ### Lines of a statement -/

theorem ofKind_ret (p : UInt32) : OfKind label ⟨d, s!"return {p};"⟩ none :=
  ofKind_none (ends_append ['r', 'e'] ';' (by simp [toString_string]) (by decide))
    (by decide)

theorem ofKind_set (entry : Nat) : OfKind label ⟨d, s!"subroot = {entry};"⟩ none :=
  ofKind_none (ends_append ['s', 'u'] ';' (by simp [toString_string]) (by decide))
    (by decide)

theorem ofKind_goto : OfKind label ⟨d, s!"goto {label};"⟩ (some .jump) :=
  ofKind_some (ends_append ['g', 'o'] ';' (by simp [toString_string]) (by decide))
    (by decide) (beq_self_eq_true _)

theorem ofKind_test (type : CType) (test : Test) :
    OfKind label ⟨d, s!"if ({test.condition type}) " ++ "\x7b"⟩ (some .branch) :=
  ofKind_some (ends_append ['i', 'f'] '\x7b' (by simp [toString_string])
    (by decide)) (by decide) (by simp [hasKind, toString_string])

theorem ofKind_else : OfKind label ⟨d, "\x7d else \x7b"⟩ (some .otherwise) :=
  ofKind_some (show ends ⟨0, "\x7d else \x7b"⟩ = (['\x7d', ' '], some '\x7b') by decide) (by decide)
    (beq_self_eq_true _)

theorem ofKind_close : OfKind label ⟨d, "\x7d"⟩ none :=
  ofKind_none (show ends ⟨0, "\x7d"⟩ = (['\x7d'], some '\x7d') by decide) (by decide)

/-! ### Lines around the statements -/

/-- A line that starts with the name of a type may only be a declaration. -/
theorem allows_typeName (type : CType) (k : Kind) :
    k.allows (type.name.toList.take 2, some ';') = decide (.cursor = k) := by
  have hall : ∀ start ∈ typeStarts, ∀ k : Kind,
      k.allows (start, some ';') = decide (.cursor = k) := by decide
  exact hall _ (take_name_mem_typeStarts type) k

theorem ofKind_cursor (type : CType) :
    OfKind label ⟨d, s!"{type.name} subroot;"⟩ (some .cursor) :=
  ofKind_some (ends_typeName type (by decide)) (allows_typeName type)
    (List.any_eq_true.2 ⟨type, type.mem_all, beq_self_eq_true _⟩)

theorem ofKind_read (type : CType) : OfKind label ⟨d, s!"{type.name} i = subroot;"⟩ none := by
  have hends : ends ⟨d, s!"{type.name} i = subroot;"⟩ = (type.name.toList.take 2, some ';') :=
    ends_typeName type (by decide)
  have hcursor : ∀ type ∈ CType.all, ∀ other ∈ CType.all,
      (s!"{type.name} i = subroot;" == s!"{other.name} subroot;") = false := by decide
  refine ofKind_of_ends (fun k hk => ?_) nofun
  obtain rfl : .cursor = k := by simpa [hends, allows_typeName] using hk
  exact List.any_eq_false.2 fun other hother => by simp [hcursor type type.mem_all other hother]

theorem ofKind_open : OfKind label ⟨d, "\x7b"⟩ none :=
  ofKind_none (show ends ⟨0, "\x7b"⟩ = (['\x7b'], some '\x7b') by decide) (by decide)

theorem ofKind_while (table : String) :
    OfKind label ⟨d, s!"while (!{table}[i].isLeaf) " ++ "\x7b"⟩ (some .loop) :=
  ofKind_some (ends_append ['w', 'h'] '\x7b' (by simp [toString_string])
    (by decide)) (by decide) (by simp [hasKind, startsLoop, toString_string])

theorem ofKind_if (table : String) :
    OfKind label ⟨d, s!"if (pX[{table}[i].feature] <= {table}[i].split) " ++ "\x7b"⟩
      (some .branch) :=
  ofKind_some (ends_append ['i', 'f'] '\x7b' (by simp [toString_string])
    (by decide)) (by decide) (by simp [hasKind, toString_string])

theorem ofKind_result (table : String) :
    OfKind label ⟨d, s!"return {table}[i].prediction;"⟩ none :=
  ofKind_none (ends_append ['r', 'e'] ';' (by simp [toString_string]) (by decide))
    (by decide)

/-- The loop goes on to a child. -/
theorem ofKind_child (table : String) {child : String} (hchild : child.toList.getLast? = some ';') :
    OfKind label ⟨d, "i = " ++ table ++ child⟩ none :=
  ofKind_none (ends_append ['i', ' '] _ (by simp) hchild) (by decide)

theorem ofKind_label (hlabel : isIdentifier label.toList = true) :
    OfKind label ⟨d, s!"{label}:"⟩ (some .label) := by
  have hends : (ends ⟨d, s!"{label}:"⟩).2 = some ':' := by simp [ends, toString_string]
  have hblank : ' ' ∉ (s!"{label}:").toList := by
    intro h
    rw [String.toList_append, List.mem_append] at h
    rcases h with h | h
    · exact absurd (continuesIdentifier_of_mem hlabel h) (by decide)
    · revert h
      decide
  have hword {word : List Char} (hword : ' ' ∈ word) :
      word.isPrefixOf (s!"{label}:").toList = false := by
    rw [Bool.eq_false_iff]
    exact fun h => hblank ((List.isPrefixOf_iff_prefix.1 h).subset hword)
  refine ofKind_of_ends (fun k hk => ?_) fun k hk => ?_
  · cases k with
    | label => exact beq_self_eq_true _
    | loop => exact hword (by decide)
    | branch => exact hword (by decide)
    | jump => simp [Kind.allows, Prod.ext_iff, hends] at hk
    | cursor => simp [Kind.allows, hends] at hk
    | otherwise => simp [Kind.allows, Prod.ext_iff, hends] at hk
  · obtain rfl := Option.some.inj hk
    simp [Kind.allows, hends]

end kinds

end Line
end TreeCode
