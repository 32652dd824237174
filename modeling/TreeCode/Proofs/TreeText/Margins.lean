import TreeCode.Proofs.TreeText.Parsing
import TreeCode.Proofs.TreeText.Simulation

/-! # Blanks and comments around a text

What stands in front of a tree text only moves it down: reading comes to the same tree or the same
error, reported in a line that is later by the lines in front (`parse_separator_append`). What
stands behind a text that is read makes no difference at all (`parse_append_ending`), also where it
goes on with a comment that the text ends in. Both are seen from what readers do not tell apart. -/

namespace TreeCode.TreeText

variable {cs text rest s ending : List Char} {cause : Cause}

/-! ### Places in a text -/

theorem skipFrom_suffix (inComment : Bool) (cs : List Char) : skipFrom inComment cs <:+ cs := by
  fun_induction skipFrom inComment cs with
  | case1 => exact List.suffix_rfl
  | case2 c cs ih => exact ih.trans (List.suffix_cons c cs)
  | case3 cs ih => exact ih.trans (List.suffix_cons ';' cs)
  | case4 c cs hc hblank ih => exact ih.trans (List.suffix_cons c cs)
  | case5 c cs hc hblank => exact List.suffix_rfl

/-- The same place in a text, seen twice. -/
def SamePlace (text cs cs' : List Char) : Prop := cs = cs' ∧ cs <:+ text

/-- Readers only go on to later places. -/
theorem simulation_samePlace (text : List Char) : Simulation (SamePlace text) where
  start := by
    rintro cs _ ⟨rfl, h⟩
    cases cs with
    | nil => exact .other nofun nofun
    | cons c cs =>
        cases hc : isSolid c with
        | true => exact .solid hc ⟨rfl, (List.suffix_cons c cs).trans h⟩
        | false =>
            have hother : ∀ d rest, c :: cs = d :: rest → isSolid d = false := fun d rest he =>
              (List.cons.inj he).1 ▸ hc
            exact .other hother hother
  skip := by
    rintro cs _ ⟨rfl, h⟩
    exact ⟨rfl, (skipFrom_suffix false cs).trans h⟩

/-- What is left at a fault is the end of the text. -/
theorem suffix_of_reading_eq_fault (h : reading text = .error (.fault cause rest)) :
    rest <:+ text := by
  have hsame : SamePlace text text text := ⟨rfl, List.suffix_rfl⟩
  obtain ⟨s, hs, -⟩ | ⟨cause', rest', rest'', hfault, -, -, hsuffix⟩ | ⟨name, hname, -⟩ :=
    reading_alike (simulation_samePlace text) hsame
  · cases h.symm.trans hs
  · cases h.symm.trans hfault
    exact hsuffix
  · cases h.symm.trans hname

/-- The line of a fault counts the line feeds in front of it. -/
theorem lineOf_append (before rest : List Char) :
    lineOf (before ++ rest) rest = before.count '\n' + 1 := by
  rw [lineOf, List.count_append, Nat.add_sub_cancel]

/-! ### In front -/

theorem reading_separator_append (h : Separator s) : reading (s ++ cs) = reading cs := by
  rw [← reading_skip, skip_append_of_separator h, reading_skip]

/-- The error of the same text so many lines further down. -/
def Error.below (lines : Nat) : Error → Error
  | malformed line cause => malformed (line + lines) cause
  | undefined name => undefined name
  | duplicate name => duplicate name
  | invalid error => invalid error

theorem read_separator_append (h : Separator s) (cs : List Char) :
    read (s ++ cs) = (read cs).mapError (Error.below (s.count '\n')) := by
  rw [read_eq, read_eq, reading_separator_append h]
  cases hreading : reading cs with
  | ok source => rfl
  | error stop =>
      cases stop with
      | duplicate name => rfl
      | fault cause rest =>
          obtain ⟨before, rfl⟩ := suffix_of_reading_eq_fault hreading
          have hline : lineOf (s ++ (before ++ rest)) rest =
              lineOf (before ++ rest) rest + s.count '\n' := by
            rw [← List.append_assoc, lineOf_append, lineOf_append, List.count_append]
            omega
          show Except.error (Error.malformed _ cause) = Except.error (Error.malformed _ cause)
          rw [hline]

theorem Source.mapError_below_tree (source : Source) (lines : Nat) :
    source.tree.mapError (Error.below lines) = source.tree := by
  cases htree : source.tree with
  | ok t => rfl
  | error e =>
      cases e with
      | malformed line cause => exact absurd htree (source.tree_ne_malformed line cause)
      | _ => rfl

/-- **In front of a text** blanks and comments only move it down. -/
theorem parse_separator_append {s : String} (h : Separator s.toList) (text : String) :
    Tree.parse (s ++ text) =
      (Tree.parse text).mapError (Error.below (s.toList.count '\n')) := by
  unfold Tree.parse
  rw [String.toList_append, read_separator_append h]
  cases read text.toList with
  | error e => rfl
  | ok source => exact (source.mapError_below_tree _).symm

/-! ### Behind -/

/-- Whether or not a comment is open, nothing of the input is left. -/
def SkippedWhole (cs : List Char) : Prop := ∀ inComment, skipFrom inComment cs = []

theorem Separator.skippedWhole_append (h : Separator s) (hrest : SkippedWhole rest) :
    SkippedWhole (s ++ rest) := by
  induction h with
  | nil => exact hrest
  | @blank c s hc hs ih =>
      rintro (- | -)
      · exact (skip_cons_of_isBlank hc).trans (ih false)
      · exact ih _
  | @comment line s hline hs ih =>
      have htail : skipFrom true (line ++ '\n' :: (s ++ rest)) = [] := by
        rw [skipFrom_true_append hline, skipFrom_newline]
        exact ih false
      rw [List.cons_append, List.append_assoc, List.cons_append]
      rintro (- | -) <;> exact htail

theorem Ending.skippedWhole (h : Ending ending) : SkippedWhole ending := by
  cases h with
  | @separator _ h =>
      rw [← List.append_nil ending]
      exact h.skippedWhole_append fun inComment => by cases inComment <;> rfl
  | @comment s line h hline =>
      have htail : skipFrom true line = [] := by
        rw [← List.append_nil line, skipFrom_true_append hline]
        rfl
      exact h.skippedWhole_append fun inComment => by cases inComment <;> exact htail

/-- Where something is left, it is left in front of what stands behind the text. -/
theorem skipFrom_append (h : SkippedWhole ending) (inComment : Bool) (cs : List Char) :
    skipFrom inComment (cs ++ ending) =
      if skipFrom inComment cs = [] then [] else skipFrom inComment cs ++ ending := by
  fun_induction skipFrom inComment cs with
  | case1 inComment => exact h inComment
  | case2 c cs ih => exact ih
  | case3 cs ih => exact ih
  | case4 c cs hc hblank ih =>
      rw [List.cons_append, skipFrom, if_neg hc, if_pos hblank]
      exact ih
  | case5 c cs hc hblank =>
      rw [List.cons_append, skipFrom, if_neg hc, if_neg hblank, if_neg (List.cons_ne_nil c cs)]

/-- An input, and the same input with something behind it, unless both have come to the end. -/
inductive Prolonged (ending : List Char) : List Char → List Char → Prop where
  | done : Prolonged ending [] []
  | within (cs : List Char) : Prolonged ending cs (cs ++ ending)

/-- Readers do not see an ending. -/
theorem simulation_prolonged (h : Ending ending) : Simulation (Prolonged ending) where
  start := by
    rintro cs _ (- | -)
    case done => exact .other nofun nofun
    case within =>
        cases cs with
        | nil =>
            refine .other nofun fun c rest he => ?_
            have hstops : Stops isSolid (c :: rest) := he ▸ h.stops
            exact stops_cons.1 hstops
        | cons c cs =>
            cases hc : isSolid c with
            | true => exact .solid hc (.within cs)
            | false =>
                refine .other (fun d rest he => ?_) fun d rest he => ?_ <;>
                  exact (List.cons.inj he).1 ▸ hc
  skip := by
    rintro cs _ (- | -)
    case done => exact .done
    case within =>
        rw [skip, skip, skipFrom_append h.skippedWhole]
        split_ifs with hnil
        · rw [hnil]
          exact .done
        · exact .within _

theorem reading_append_ending {source : Source} (h : Ending ending)
    (hread : reading text = .ok source) : reading (text ++ ending) = .ok source := by
  obtain ⟨s, hs, hs'⟩ | ⟨cause, rest, rest', hfault, -, -⟩ | ⟨name, hname, -⟩ :=
    reading_alike (simulation_prolonged h) (.within text)
  · cases hread.symm.trans hs
    exact hs'
  · cases hread.symm.trans hfault
  · cases hread.symm.trans hname

theorem read_eq_ok_iff_reading {source : Source} :
    read text = .ok source ↔ reading text = .ok source := by
  rw [read_eq]
  cases reading text <;> simp [Except.mapError]

/-- **Behind a text** that is read, blanks and comments do not matter. -/
theorem parse_append_ending {t : Tree} {text ending : String} (h : Ending ending.toList)
    (hparse : Tree.parse text = .ok t) : Tree.parse (text ++ ending) = .ok t := by
  obtain ⟨source, hread, htree⟩ := bind_eq_ok_iff.1 hparse
  have hreading := reading_append_ending h (read_eq_ok_iff_reading.1 hread)
  rw [← String.toList_append] at hreading
  rw [parse_of_read (read_eq_ok_iff_reading.2 hreading), htree]

/-! ### Lines -/

/-- The line of an error is that of a place in the text. -/
theorem exists_prefix_of_parse_eq_malformed {text : String} {line : Nat}
    (h : Tree.parse text = .error (.malformed line cause)) :
    ∃ before, before <+: text.toList ∧ line = before.count '\n' + 1 := by
  unfold Tree.parse at h
  rw [read_eq] at h
  cases hreading : reading text.toList with
  | ok source =>
      rw [hreading] at h
      exact absurd h (source.tree_ne_malformed line cause)
  | error stop =>
      rw [hreading] at h
      cases stop with
      | duplicate name => cases h
      | fault cause' rest =>
          obtain ⟨before, hsplit⟩ := suffix_of_reading_eq_fault hreading
          rw [← hsplit] at h
          cases h
          exact ⟨before, ⟨rest, hsplit⟩, lineOf_append before rest⟩

/-- **Blanks and comments around a text.** In front of it they only move it down: the tree is the
same, and so is every error, but for the line of a fault, which is later by the line feeds in front.
Behind a text that gives a tree they do not matter. The line of a fault is one of the text. -/
theorem parse_margins (text : String) :
    (∀ s : String, Separator s.toList → Tree.parse (s ++ text) =
      (Tree.parse text).mapError (Error.below (s.toList.count '\n'))) ∧
    (∀ (t : Tree) (ending : String), Tree.parse text = .ok t → Ending ending.toList →
      Tree.parse (text ++ ending) = .ok t) ∧
    ∀ line cause, Tree.parse text = .error (.malformed line cause) →
      (∃ before, before <+: text.toList ∧ line = before.count '\n' + 1) ∧
        1 ≤ line ∧ line ≤ text.toList.count '\n' + 1 := by
  refine ⟨fun s hs => parse_separator_append hs text,
    fun t ending ht hending => parse_append_ending hending ht, fun line cause h => ?_⟩
  obtain ⟨before, hbefore, rfl⟩ := exists_prefix_of_parse_eq_malformed h
  have hle := hbefore.sublist.count_le '\n'
  exact ⟨⟨before, hbefore, rfl⟩, by omega, by omega⟩

theorem parse_margins_lopsided : Separator "; of two\n ; lines\n".toList ∧
    Tree.parse "\n tre" = .error (.malformed 2 (.expectedKeyword "tree" "tre")) ∧
    (1 ≤ 2 ∧ 2 ≤ "\n tre".toList.count '\n' + 1) ∧
    Tree.parse ("; of two\n ; lines\n" ++ "\n tre") =
      .error (.malformed 4 (.expectedKeyword "tree" "tre")) ∧
    Ending " ; of text\n; and file".toList ∧
    Tree.parse lopsidedText = .ok Draft.lopsidedTree.annotate ∧
    Tree.parse (lopsidedText ++ " ; of text\n; and file") = .ok Draft.lopsidedTree.annotate := by
  have hs : Separator "; of two\n ; lines\n".toList :=
    .comment (show '\n' ∉ " of two".toList by decide)
      (.blank (show Text.isBlank ' ' by decide)
        (.comment (show '\n' ∉ " lines".toList by decide) .nil))
  have hending : Ending " ; of text\n; and file".toList := skip_eq_nil_iff.1 (by decide)
  have hfails : Tree.parse "\n tre" = .error (.malformed 2 (.expectedKeyword "tree" "tre")) := rfl
  obtain ⟨hbefore, -, hline⟩ := parse_margins "\n tre"
  obtain ⟨-, hbehind, -⟩ := parse_margins lopsidedText
  refine ⟨hs, hfails, (hline _ _ hfails).2, ?_, hending, parse_lopsided,
    hbehind _ _ parse_lopsided hending⟩
  rw [hbefore _ hs, hfails]
  rfl

end TreeCode.TreeText
