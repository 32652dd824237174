import TreeCode.Proofs.Program.Lines

/-! # Reading rows of a table back

The initialiser of an entry has six texts between commas. None of them has a comma, a brace or a
blank in it, so the braces and blanks are dropped and the rest is cut at its commas
(`Row.read?_initialiser`). -/

namespace TreeCode

/-- An entry with the literal of its threshold. -/
structure Row where
  isLeaf : Bool
  prediction : UInt32
  feature : UInt32
  literal : List Char
  left : Nat
  right : Nat
deriving DecidableEq, Repr

def Entry.row (type : CType) (e : Entry) : Row :=
  ⟨e.isLeaf, e.prediction, e.feature, type.literal e.threshold, e.left, e.right⟩

namespace Row

/-- What stands between commas, without braces and blanks. -/
def fields (cs : List Char) : List (List Char) :=
  Text.pieces (· == ',') (cs.filter fun c => c != '\x7b' && c != '\x7d' && c != ' ')

def read? (l : Line) : Option Row :=
  match fields l.text.toList with
  | [isLeaf, prediction, feature, literal, left, right, _] =>
      some ⟨isLeaf == "true".toList, .ofNat (digitsValue prediction), .ofNat (digitsValue feature),
        literal, digitsValue left, digitsValue right⟩
  | _ => none

theorem fields_cons {c : Char} (hc : c = '\x7b' ∨ c = '\x7d' ∨ c = ' ') (cs : List Char) :
    fields (c :: cs) = fields cs := by
  rcases hc with rfl | rfl | rfl <;> rfl

/-- A comma ends a field. -/
theorem fields_append_comma {field : List Char} (h : ∀ c ∈ field, isLiteral c = true)
    (cs : List Char) : fields (field ++ ',' :: cs) = field :: fields cs := by
  have hkept : ∀ c ∈ field, (c != '\x7b' && c != '\x7d' && c != ' ') = true := by
    intro c hc
    have hopen := ne_of_isLiteral (h c hc) (show isLiteral '\x7b' = false by decide)
    have hclose := ne_of_isLiteral (h c hc) (show isLiteral '\x7d' = false by decide)
    have hblank := ne_of_isLiteral (h c hc) (show isLiteral ' ' = false by decide)
    simp [hopen, hclose, hblank]
  have hinside : ∀ c ∈ field, (c == ',') = false := by
    intro c hc
    exact beq_false_of_ne (ne_of_isLiteral (h c hc) (by decide))
  rw [fields, List.filter_append, List.filter_eq_self.2 hkept]
  exact Text.pieces_append_cons hinside rfl _

/-- The brace behind the last field is in front of its comma. -/
theorem fields_append_brace {field : List Char} (h : ∀ c ∈ field, isLiteral c = true)
    (cs : List Char) : fields (field ++ '\x7d' :: ',' :: cs) = field :: fields cs := by
  rw [← fields_append_comma h, fields, fields, List.filter_append, List.filter_append]
  rfl

theorem isLiteral_of_mem_boolText {b : Bool} : ∀ c ∈ (boolText b).toList, isLiteral c = true := by
  apply List.all_eq_true.1
  cases b <;> decide

theorem toList_initialiser (type : CType) (e : Entry) :
    (e.initialiser type).toList = '\x7b' :: ((boolText e.isLeaf).toList ++ ',' :: ' ' ::
      (natText e.prediction.toNat ++ ',' :: ' ' :: (natText e.feature.toNat ++ ',' :: ' ' ::
        (type.literal e.threshold ++ ',' :: ' ' :: (natText e.left ++ ',' :: ' ' ::
          (natText e.right ++ '\x7d' :: ',' :: [])))))) := by
  simp [Entry.initialiser, String.intercalate_cons_cons, toList_toString_uint32, natText]

theorem read?_initialiser (d : Nat) (type : CType) (e : Entry) :
    read? ⟨d, e.initialiser type⟩ = some (e.row type) := by
  have hnat {n : Nat} : ∀ c ∈ natText n, isLiteral c = true :=
    fun c => isLiteral_of_mem_natText
  have hliteral : ∀ c ∈ type.literal e.threshold, isLiteral c = true :=
    fun c => CType.isLiteral_of_mem_literal
  have hfields : fields (e.initialiser type).toList = [(boolText e.isLeaf).toList,
      natText e.prediction.toNat, natText e.feature.toNat, type.literal e.threshold,
      natText e.left, natText e.right, []] := by
    rw [toList_initialiser, fields_cons (.inl rfl), fields_append_comma isLiteral_of_mem_boolText,
      fields_cons (.inr (.inr rfl)), fields_append_comma hnat, fields_cons (.inr (.inr rfl)),
      fields_append_comma hnat, fields_cons (.inr (.inr rfl)), fields_append_comma hliteral,
      fields_cons (.inr (.inr rfl)), fields_append_comma hnat, fields_cons (.inr (.inr rfl)),
      fields_append_brace hnat]
    rfl
  have hbool : ((boolText e.isLeaf).toList == "true".toList) = e.isLeaf := by
    cases e.isLeaf <;> decide
  simp only [read?, hfields, hbool, digitsValue_natText, UInt32.ofNat_toNat, Entry.row]

end Row

/-- Only the ends of an initialiser are braces. -/
theorem exists_initialiser_eq (type : CType) (e : Entry) :
    ∃ fields, Unbraced fields ∧ e.initialiser type = "\x7b" ++ fields ++ "\x7d," := by
  have hbool : Unbraced (boolText e.isLeaf) := by cases e.isLeaf <;> decide
  have hcomma : Unbraced ", " := by decide
  refine ⟨_, ?_, rfl⟩
  simp only [String.intercalate_cons_cons, String.intercalate_singleton]
  apply Unbraced.append (hbool.append hcomma)
  apply Unbraced.append ((unbraced_toString_uint32 e.prediction).append hcomma)
  apply Unbraced.append ((unbraced_toString_uint32 e.feature).append hcomma)
  apply Unbraced.append ((unbraced_literal type e.threshold).append hcomma)
  exact ((unbraced_toString_nat e.left).append hcomma).append (unbraced_toString_nat e.right)

theorem inline_initialiser (type : CType) (e : Entry) : Inline (e.initialiser type) := by
  obtain ⟨fields, hfields, htext⟩ := exists_initialiser_eq type e
  rw [htext]
  exact .append (.append (by decide) hfields.inline) (by decide)

end TreeCode
