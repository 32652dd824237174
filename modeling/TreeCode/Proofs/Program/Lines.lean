import TreeCode.Program.Listing
import TreeCode.Proofs.CType.Literal
import TreeCode.Proofs.Text.Lines

/-! # Reading lines back

A text that was put together from lines is cut at its line feeds, and the tabs in front of each
line are counted. This gives the lines again if their own texts have no tabs and line feeds
(`readLines_append`), which holds of the numbers, literals and names in them. These have no braces
either. -/

namespace TreeCode

/-! ### Texts within a line -/

theorem toString_string (s : String) : toString s = s := rfl

/-- Neither the end of a line nor a tab. -/
def isInline (c : Char) : Bool := c != '\n' && c != '\t'

theorem isInline_iff {c : Char} : isInline c = true ↔ c ≠ '\n' ∧ c ≠ '\t' := by simp [isInline]

/-- A text within a line. -/
def Inline (s : String) : Prop := ∀ c ∈ s.toList, isInline c = true

instance (s : String) : Decidable (Inline s) := List.decidableBAll (isInline · = true) s.toList

theorem Inline.append {s t : String} (hs : Inline s) (ht : Inline t) : Inline (s ++ t) := by
  intro c hc
  rw [String.toList_append, List.mem_append] at hc
  exact hc.elim (hs c) (ht c)

/-! ### Texts without braces -/

/-- A character within a line that is no brace. -/
def isUnbraced (c : Char) : Bool := isInline c && c != '\x7b' && c != '\x7d'

theorem isUnbraced_iff {c : Char} :
    isUnbraced c = true ↔ isInline c = true ∧ c ≠ '\x7b' ∧ c ≠ '\x7d' := by
  simp [isUnbraced, and_assoc]

/-- A text within a line that has no braces. -/
def Unbraced (s : String) : Prop := ∀ c ∈ s.toList, isUnbraced c = true

instance (s : String) : Decidable (Unbraced s) := List.decidableBAll (isUnbraced · = true) s.toList

theorem Unbraced.inline {s : String} (hs : Unbraced s) : Inline s :=
  fun c hc => (isUnbraced_iff.1 (hs c hc)).1

theorem Unbraced.append {s t : String} (hs : Unbraced s) (ht : Unbraced t) : Unbraced (s ++ t) := by
  intro c hc
  rw [String.toList_append, List.mem_append] at hc
  exact hc.elim (hs c) (ht c)

theorem isUnbraced_of_isLiteral {c : Char} (h : isLiteral c = true) : isUnbraced c = true :=
  isUnbraced_iff.2 ⟨isInline_iff.2 ⟨ne_of_isLiteral h (by decide), ne_of_isLiteral h (by decide)⟩,
    ne_of_isLiteral h (by decide), ne_of_isLiteral h (by decide)⟩

theorem unbraced_of_natText {s : String} {n : Nat} (h : s.toList = natText n) : Unbraced s := by
  intro c hc
  rw [h] at hc
  exact isUnbraced_of_isLiteral (isLiteral_of_mem_natText hc)

theorem unbraced_toString_nat (n : Nat) : Unbraced (toString n) :=
  unbraced_of_natText (toList_toString_nat n)

theorem unbraced_toString_uint32 (n : UInt32) : Unbraced (toString n) :=
  unbraced_of_natText (toList_toString_uint32 n)

theorem unbraced_literal (type : CType) (x : Float) :
    Unbraced (String.ofList (type.literal x)) := by
  intro c hc
  rw [String.toList_ofList] at hc
  exact isUnbraced_of_isLiteral (CType.isLiteral_of_mem_literal hc)

theorem unbraced_name (type : CType) : Unbraced type.name := by
  cases type with
  | unsigned w => cases w <;> decide
  | signed w => cases w <;> decide
  | float => decide
  | double => decide

theorem unbraced_cName (type : FeatureType) : Unbraced type.cName := by cases type <;> decide

theorem continuesIdentifier_of_mem {name : String} (h : isIdentifier name.toList = true) {c : Char}
    (hc : c ∈ name.toList) : continuesIdentifier c = true := by
  have hstarts {c : Char} (h : startsIdentifier c = true) : continuesIdentifier c = true := by
    rw [startsIdentifier, Bool.or_eq_true] at h
    rcases h with h | h <;> simp [continuesIdentifier, Char.isAlphanum, h]
  cases hname : name.toList with
  | nil =>
      rw [hname] at hc
      cases hc
  | cons first rest =>
      rw [hname, isIdentifier, Bool.and_eq_true, List.all_eq_true] at h
      rw [hname] at hc
      rcases List.mem_cons.1 hc with rfl | hc
      · exact hstarts h.1
      · exact h.2 c hc

theorem unbraced_of_isIdentifier {name : String} (h : isIdentifier name.toList = true) :
    Unbraced name := by
  have hne {c other : Char} (hc : continuesIdentifier c = true)
      (hother : continuesIdentifier other = false) : c ≠ other := by
    rintro rfl
    rw [hc] at hother
    cases hother
  intro c hc
  have hc := continuesIdentifier_of_mem h hc
  exact isUnbraced_iff.2 ⟨isInline_iff.2 ⟨hne hc (by decide), hne hc (by decide)⟩,
    hne hc (by decide), hne hc (by decide)⟩

/-! ### Lines behind tabs -/

/-- Text that is read back behind tabs. -/
def Line.Plain (l : Line) : Prop := Inline l.text

/-- A line with the tabs in front of it counted. -/
def Line.ofTabbed (cs : List Char) : Line :=
  ⟨(cs.takeWhile (· == '\t')).length, String.ofList (cs.dropWhile (· == '\t'))⟩

def readLines (cs : List Char) : List Line := (Text.pieces (· == '\n') cs).map Line.ofTabbed

theorem Line.ofTabbed_append {l : Line} (h : l.Plain) :
    ofTabbed (List.replicate l.indent '\t' ++ l.text.toList) = l := by
  have htabs : ∀ c ∈ List.replicate l.indent '\t', (c == '\t') = true := by
    intro c hc
    rw [List.eq_of_mem_replicate hc]
    rfl
  have hstops : Stops (· == '\t') l.text.toList := by
    intro c hc
    exact beq_false_of_ne (isInline_iff.1 (h c (List.mem_of_mem_head? hc))).2
  obtain ⟨htake, hdrop⟩ := takeWhile_append_of_stops htabs hstops
  rw [ofTabbed, htake, hdrop, List.length_replicate, String.ofList_toList]

theorem Line.toList_render (l : Line) :
    l.render.toList = (List.replicate l.indent '\t' ++ l.text.toList) ++ ['\n'] := by
  simp [render]

/-- **Lines are read back**, whatever follows them. -/
theorem readLines_append {ls : List Line} (h : ∀ l ∈ ls, l.Plain) (rest : List Char) :
    readLines ((renderLines ls).toList ++ rest) = ls ++ readLines rest := by
  induction ls with
  | nil => rfl
  | cons l ls ih =>
      rw [List.forall_mem_cons] at h
      have htext : (renderLines (l :: ls)).toList ++ rest =
          (List.replicate l.indent '\t' ++ l.text.toList) ++
            '\n' :: ((renderLines ls).toList ++ rest) := by
        simp [renderLines, Line.toList_render, String.join_cons]
      have hline : ∀ c ∈ List.replicate l.indent '\t' ++ l.text.toList, (c == '\n') = false := by
        intro c hc
        rcases List.mem_append.1 hc with hc | hc
        · rw [List.eq_of_mem_replicate hc]
          rfl
        · exact beq_false_of_ne (isInline_iff.1 (h.1 c hc)).1
      rw [htext, readLines, Text.pieces_append_cons hline rfl, List.map_cons,
        Line.ofTabbed_append h.1]
      exact congrArg (l :: ·) (ih h.2)

end TreeCode
