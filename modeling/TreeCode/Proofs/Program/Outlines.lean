import TreeCode.Proofs.Program.Lines

/-! # Reading statements back

Of the lines of a statement, those that return, set the cursor or test a feature are the statement
in prefix notation. It is read from its end: what has been read waits on a stack, and a test takes
its arms from there (`Outline.foldr_push_tokens`, `Outline.read?_listing`). -/

namespace TreeCode

open Text (pieces_append_cons pieces_of_not_separates)

/-- A statement without the numbers of its nodes, and with literals for the thresholds. -/
inductive Outline where
  | ret (prediction : UInt32)
  | branch (feature : UInt32) (comparison : Comparison) (literal : List Char)
      (thenArm elseArm : Outline)
  | fallback (entry : Nat)
deriving DecidableEq, Repr

def Statement.outline (type : CType) : Statement → Outline
  | ret p => .ret p
  | branch _ test a b =>
      .branch test.feature test.comparison (type.literal test.threshold) (a.outline type)
        (b.outline type)
  | fallback _ entry => .fallback entry

namespace Outline

/-- What a line of a function says. -/
inductive Token where
  | ret (prediction : UInt32)
  | jump (entry : Nat)
  | test (feature : UInt32) (comparison : Comparison) (literal : List Char)
deriving DecidableEq, Repr

/-- An outline in prefix notation. -/
def tokens : Outline → List Token
  | ret p => [.ret p]
  | branch f comparison literal a b => .test f comparison literal :: (a.tokens ++ b.tokens)
  | fallback entry => [.jump entry]

/-- Take a token in front of some outlines; a test takes its arms from them. -/
def push : Token → List Outline → List Outline
  | .ret p, rest => ret p :: rest
  | .jump entry, rest => fallback entry :: rest
  | .test f comparison literal, a :: b :: rest => branch f comparison literal a b :: rest
  | .test .., _ => []

/-- **Prefix notation** is read from its end. -/
theorem foldr_push_tokens (o : Outline) (ts : List Token) (rest : List Outline) :
    (o.tokens ++ ts).foldr push rest = o :: ts.foldr push rest := by
  induction o generalizing ts with
  | ret p => rfl
  | fallback entry => rfl
  | branch f comparison literal a b iha ihb =>
      rw [tokens, List.cons_append, List.foldr_cons, List.append_assoc, iha, ihb]
      rfl

namespace Token

/-- The condition of a branch, cut at its blanks. -/
def ofWords? : List (List Char) → Option Token
  | [feature, comparison, literal, _] =>
      some (.test (.ofNat (digitsValue (feature.takeWhile Char.isDigit)))
        (if comparison = ['<', '='] then .lessEqual else .greater) (literal.takeWhile isLiteral))
  | _ => none

def ofText? (cs : List Char) : Option Token :=
  match Text.after? "return ".toList cs with
  | some rest => some (.ret (.ofNat (digitsValue (rest.takeWhile Char.isDigit))))
  | none =>
      match Text.after? "subroot = ".toList cs with
      | some rest => some (.jump (digitsValue (rest.takeWhile Char.isDigit)))
      | none =>
          (Text.after? "if (pX[".toList cs).bind fun rest => ofWords? (Text.pieces (· == ' ') rest)

/-- What a line says, if it is of interest. -/
def read? (l : Line) : Option Token := ofText? l.text.toList

theorem takeWhile_natText {c : Char} (hc : c.isDigit = false) (n : Nat) (rest : List Char) :
    (natText n ++ c :: rest).takeWhile Char.isDigit = natText n :=
  (takeWhile_append_of_stops (fun _ => isDigit_of_mem_natText) (stops_cons.2 hc)).1

variable {d : Nat}

theorem read?_ret (p : UInt32) : read? ⟨d, s!"return {p};"⟩ = some (.ret p) := by
  have htext : (s!"return {p};").toList = "return ".toList ++ (natText p.toNat ++ ';' :: []) := by
    simp only [String.toList_append, toList_toString_uint32, List.append_assoc]
    rfl
  rw [read?, ofText?, Text.after?_eq_some_iff.2 htext]
  simp only [takeWhile_natText (show Char.isDigit ';' = false by decide), digitsValue_natText,
    UInt32.ofNat_toNat]

theorem read?_jump (entry : Nat) : read? ⟨d, s!"subroot = {entry};"⟩ = some (.jump entry) := by
  have htext : (s!"subroot = {entry};").toList =
      "subroot = ".toList ++ (natText entry ++ ';' :: []) := by
    simp only [String.toList_append, toList_toString_nat, List.append_assoc]
    rfl
  have hret : Text.after? "return ".toList (s!"subroot = {entry};").toList = none := by
    rw [htext]
    rfl
  rw [read?, ofText?, hret, Text.after?_eq_some_iff.2 htext]
  simp only [takeWhile_natText (show Char.isDigit ';' = false by decide), digitsValue_natText]

theorem ofWords?_test (f : UInt32) (comparison : Comparison) {literal : List Char}
    (h : ∀ c ∈ literal, isLiteral c = true) (word : List Char) :
    ofWords? [natText f.toNat ++ [']'], comparison.symbol.toList, literal ++ [')'], word] =
      some (.test f comparison literal) := by
  have hliteral : (literal ++ [')']).takeWhile isLiteral = literal :=
    (takeWhile_append_of_stops h (stops_cons.2 (by decide))).1
  have hcomparison : (if comparison.symbol.toList = ['<', '='] then Comparison.lessEqual
      else .greater) = comparison := by
    cases comparison <;> rfl
  simp only [ofWords?, hliteral, hcomparison, digitsValue_natText, UInt32.ofNat_toNat,
    takeWhile_natText (show Char.isDigit ']' = false by decide)]

theorem toList_condition (type : CType) (test : Test) :
    (s!"if ({test.condition type}) " ++ "\x7b").toList = "if (pX[".toList ++
      ((natText test.feature.toNat ++ [']']) ++ ' ' :: (test.comparison.symbol.toList ++
        ' ' :: ((type.literal test.threshold ++ [')']) ++ ' ' :: ['\x7b']))) := by
  simp [Test.condition, toString_string, toList_toString_uint32]

theorem read?_test (type : CType) (test : Test) :
    read? ⟨d, s!"if ({test.condition type}) " ++ "\x7b"⟩ =
      some (.test test.feature test.comparison (type.literal test.threshold)) := by
  have hliteral : ∀ c ∈ type.literal test.threshold, isLiteral c = true :=
    fun c => CType.isLiteral_of_mem_literal
  have hother : Text.after? "return ".toList (s!"if ({test.condition type}) " ++ "\x7b").toList =
      none ∧ Text.after? "subroot = ".toList (s!"if ({test.condition type}) " ++ "\x7b").toList =
      none := by
    rw [toList_condition]
    exact ⟨rfl, rfl⟩
  have hblank {word : List Char} {c : Char} (hword : ∀ c ∈ word, isLiteral c = true)
      (hc : c ≠ ' ') : ∀ c' ∈ word ++ [c], (c' == ' ') = false := by
    intro c' hc'
    apply beq_false_of_ne
    rcases List.mem_append.1 hc' with h | h
    · exact ne_of_isLiteral (hword c' h) (by decide)
    · rwa [List.mem_singleton.1 h]
  have hsymbol : ∀ c ∈ test.comparison.symbol.toList, (c == ' ') = false := by
    cases test.comparison <;> simp [Comparison.symbol]
  rw [read?, ofText?, hother.1, hother.2, Text.after?_eq_some_iff.2 (toList_condition type test)]
  simp only [Option.bind_some]
  rw [pieces_append_cons (hblank (fun c => isLiteral_of_mem_natText) (by decide)) rfl,
    pieces_append_cons hsymbol rfl, pieces_append_cons (hblank hliteral (by decide)) rfl,
    pieces_of_not_separates (by simp), ofWords?_test _ _ hliteral]

/-- The other lines of a statement say nothing more. -/
theorem read?_goto (label : String) : read? ⟨d, s!"goto {label};"⟩ = none := by
  have htext : (s!"goto {label};").toList = "goto ".toList ++ (label.toList ++ [';']) := by
    simp [toString_string]
  rw [read?, ofText?, htext]
  rfl

theorem read?_cursor (type : CType) : read? ⟨d, s!"{type.name} subroot;"⟩ = none := by
  show ofText? (s!"{type.name} subroot;").toList = none
  cases type with
  | unsigned w => cases w <;> decide
  | signed w => cases w <;> decide
  | float => decide
  | double => decide

end Token

/-- The lines of a statement are its outline in prefix notation. -/
theorem read?_listing (type : CType) (label : String) (d : Nat) (s : Statement) :
    (s.listing type label d).filterMap Token.read? = (s.outline type).tokens := by
  induction s generalizing d with
  | ret p => rw [Statement.listing, List.filterMap_cons, Token.read?_ret, Statement.outline]; rfl
  | fallback node entry =>
      rw [Statement.listing, List.filterMap_cons, Token.read?_jump, List.filterMap_cons,
        Token.read?_goto]
      rfl
  | branch node test a b iha ihb =>
      have helse : Token.read? ⟨d, "\x7d else \x7b"⟩ = none :=
        show Token.ofText? "\x7d else \x7b".toList = none by decide
      have hclose : Token.read? ⟨d, "\x7d"⟩ = none :=
        show Token.ofText? "\x7d".toList = none by decide
      simp only [Statement.listing, List.filterMap_append, List.filterMap_cons, List.filterMap_nil,
        Token.read?_test, helse, hclose, iha, ihb, Statement.outline, tokens, List.append_nil,
        List.cons_append]

end Outline

/-! ### Plain lines -/

theorem unbraced_condition (type : CType) (test : Test) : Unbraced (test.condition type) := by
  have hsymbol : Unbraced test.comparison.symbol := by cases test.comparison <;> decide
  apply Unbraced.append (.append (.append (.append ?_ (by decide)) hsymbol) (by decide))
    (unbraced_literal type test.threshold)
  exact .append (by decide) (unbraced_toString_uint32 test.feature)

theorem unbraced_ret (p : UInt32) : Unbraced s!"return {p};" :=
  .append (.append (by decide) (unbraced_toString_uint32 p)) (by decide)

theorem unbraced_set (entry : Nat) : Unbraced s!"subroot = {entry};" :=
  .append (.append (by decide) (unbraced_toString_nat entry)) (by decide)

theorem unbraced_test (type : CType) (test : Test) : Unbraced s!"if ({test.condition type}) " :=
  .append (.append (by decide) (unbraced_condition type test)) (by decide)

/-- The lines of a statement are plain, and behind as many tabs at least. -/
theorem plain_listing {label : String} (hlabel : Inline label) (type : CType) (d : Nat)
    (s : Statement) : ∀ l ∈ s.listing type label d, l.Plain ∧ d ≤ l.indent := by
  induction s generalizing d with
  | ret p =>
      intro l hl
      obtain rfl := List.mem_singleton.1 hl
      exact ⟨(unbraced_ret p).inline, Nat.le_refl d⟩
  | fallback node entry =>
      intro l hl
      rcases List.mem_cons.1 hl with rfl | hl
      · exact ⟨(unbraced_set entry).inline, Nat.le_refl d⟩
      · obtain rfl := List.mem_singleton.1 hl
        exact ⟨Inline.append (.append (by decide) hlabel) (by decide), Nat.le_refl d⟩
  | branch node test a b iha ihb =>
      have hif : Inline (s!"if ({test.condition type}) " ++ "\x7b") :=
        (unbraced_test type test).inline.append (by decide)
      have helse : Inline "\x7d else \x7b" := by decide
      have hclose : Inline "\x7d" := by decide
      have hdeeper {l : Line} (h : l.Plain ∧ d + 1 ≤ l.indent) : l.Plain ∧ d ≤ l.indent :=
        ⟨h.1, by omega⟩
      intro l hl
      simp only [Statement.listing, List.cons_append, List.mem_cons, List.mem_append,
        List.not_mem_nil, or_false] at hl
      rcases hl with rfl | (hl | rfl | hl) | rfl
      · exact ⟨hif, Nat.le_refl d⟩
      · exact hdeeper (iha (d + 1) l hl)
      · exact ⟨helse, Nat.le_refl d⟩
      · exact hdeeper (ihb (d + 1) l hl)
      · exact ⟨hclose, Nat.le_refl d⟩

end TreeCode
