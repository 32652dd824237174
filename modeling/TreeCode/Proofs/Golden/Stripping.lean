import Mathlib.Data.List.Forall2
import TreeCode.Golden.Spec
import TreeCode.Proofs.Text.Lines
import TreeCode.Proofs.Text.Trim
import TreeCode.Proofs.TreeText.Naming
import TreeCode.Proofs.TreeText.Simulation

/-! # Directives and the tree text

A directive of a golden test is a comment to a reader of tree texts. So the lines that are left
when the directives are taken out are read as the whole file is: as the same tree, or with the same
error, reported with the line number that is left when the directives before it are not counted
(`parse_keeps_tree`). -/

namespace TreeCode.Golden

/-! ### Kinds of lines -/

def runLead : List Char := "; RUN:".toList

def checkLeads : List (List Char) :=
  ["; CHECK-LABEL:".toList, "; CHECK-NEXT:".toList, "; CHECK-EMPTY".toList, "; CHECK:".toList,
    "; COM:".toList]

def isRunLine (line : List Char) : Bool := runLead.isPrefixOf (Text.trim line)

def isCheckLine (line : List Char) : Bool := checkLeads.any (·.isPrefixOf (Text.trim line))

def isTreeLine (line : List Char) : Bool := !isRunLine line && !isCheckLine line

variable {line : List Char}

theorem isPrefixOf_eq_isSome {lead cs : List Char} :
    lead.isPrefixOf cs = (Text.after? lead cs).isSome := by
  rw [Bool.eq_iff_iff, List.isPrefixOf_iff_prefix, Option.isSome_iff_exists]
  simp only [Text.after?_eq_some_iff]
  exact ⟨fun ⟨rest, h⟩ => ⟨rest, h.symm⟩, fun ⟨rest, h⟩ => ⟨rest, h.symm⟩⟩

theorem isSome_directive? : (directive? (Text.trim line)).isSome = isCheckLine line := by
  unfold directive? isCheckLine checkLeads
  simp only [List.any_cons, List.any_nil, isPrefixOf_eq_isSome]
  cases Text.after? "; CHECK-LABEL:".toList (Text.trim line) with
  | some rest => rfl
  | none =>
      cases Text.after? "; CHECK-NEXT:".toList (Text.trim line) with
      | some rest => rfl
      | none =>
          cases Text.after? "; CHECK-EMPTY".toList (Text.trim line) with
          | some rest => rfl
          | none =>
              cases Text.after? "; CHECK:".toList (Text.trim line) with
              | some rest => rfl
              | none => cases Text.after? "; COM:".toList (Text.trim line) <;> rfl

/-- A run line is not a check line. -/
theorem isCheckLine_of_isRunLine (h : isRunLine line) : isCheckLine line = false := by
  obtain ⟨rest, hrest⟩ := List.isPrefixOf_iff_prefix.1 h
  rw [isCheckLine, ← hrest]
  rfl

/-- **Each line** is of one kind. -/
theorem kinds (line : List Char) :
    (isRunLine line).toNat + (isCheckLine line).toNat + (isTreeLine line).toNat = 1 := by
  cases hrun : isRunLine line with
  | true => simp [isTreeLine, isCheckLine_of_isRunLine hrun, hrun]
  | false => cases hcheck : isCheckLine line <;> simp [isTreeLine, hrun, hcheck]

/-- What a line is read as shows its kind. -/
theorem kind_of_readItem {item : Item} (h : readItem line = .ok item) :
    isRunLine line = (Spec.runOf? item).isSome ∧
      isCheckLine line = (Spec.directiveOf? item).isSome ∧
      isTreeLine line = (Spec.treeLineOf? item).isSome := by
  have hrun : isRunLine line = (Text.after? "; RUN:".toList (Text.trim line)).isSome :=
    isPrefixOf_eq_isSome
  unfold readItem at h
  dsimp only at h
  split at h
  · rename_i rest hrest
    rw [hrest] at hrun
    split at h
    · cases h
      rw [isTreeLine, isCheckLine_of_isRunLine hrun, hrun]
      exact ⟨rfl, rfl, rfl⟩
    · cases h
  · rename_i hrest
    rw [hrest] at hrun
    split at h <;> rename_i hd
    all_goals
      cases h
      rw [isTreeLine, hrun, ← isSome_directive?, hd]
      exact ⟨rfl, rfl, rfl⟩

theorem eq_of_readItem {item : Item} {l : List Char} (h : readItem line = .ok item)
    (hl : Spec.treeLineOf? item = some l) : l = line := by
  obtain rfl : item = .tree l := by
    cases item with
    | tree l' => rw [Option.some.inj hl]
    | _ => cases hl
  unfold readItem at h
  dsimp only at h
  split at h
  · split at h <;> cases h
  · split at h <;> cases h
    rfl

/-! ### Lists of lines -/

/-- What is chosen among the items comes from the lines of a kind, in their order. -/
theorem forall₂_chosen {α : Type} {kind : List Char → Bool} {choose : Item → Option α}
    (hkind : ∀ {line item}, readItem line = .ok item → kind line = (choose item).isSome)
    {ls : List (List Char)} {items : List Item} (h : ls.mapM readItem = .ok items) :
    List.Forall₂ (fun line a => ∃ item, readItem line = .ok item ∧ choose item = some a)
      (ls.filter kind) (items.filterMap choose) := by
  induction ls generalizing items with
  | nil =>
      cases h
      exact .nil
  | cons line ls ih =>
      rw [List.mapM_cons] at h
      obtain ⟨item, hitem, h⟩ := bind_eq_ok_iff.1 h
      obtain ⟨rest, hrest, h⟩ := bind_eq_ok_iff.1 h
      cases h
      have hline := hkind hitem
      cases hchoose : choose item with
      | none =>
          rw [hchoose] at hline
          rw [List.filter_cons_of_neg (by simp [hline]), List.filterMap_cons_none hchoose]
          exact ih hrest
      | some a =>
          rw [hchoose] at hline
          rw [List.filter_cons_of_pos (by simp [hline]), List.filterMap_cons_some hchoose]
          exact .cons ⟨item, hitem, hchoose⟩ (ih hrest)

/-- **A golden test** consists of its run lines, its check lines and its tree lines. -/
theorem parse_eq_ok {content : String} {spec : Spec} (h : Spec.parse content = .ok spec) :
    List.Forall₂ (fun line r => readItem line = .ok (.run r))
        ((Text.lines content.toList).filter isRunLine) spec.runs ∧
      List.Forall₂ (fun line d => readItem line = .ok (.directive d))
        ((Text.lines content.toList).filter isCheckLine) spec.directives ∧
      spec.treeText.toList =
        ['\n'].intercalate ((Text.lines content.toList).filter isTreeLine) := by
  cases hitems : (Text.lines content.toList).mapM readItem with
  | error e =>
      rw [Spec.parse, hitems] at h
      cases h
  | ok items =>
      rw [Spec.parse, hitems] at h
      obtain rfl : Spec.ofItems items = spec := Except.ok.inj h
      refine ⟨?_, ?_, ?_⟩
      · refine (forall₂_chosen (fun h => (kind_of_readItem h).1) hitems).imp fun line r h => ?_
        obtain ⟨item, hitem, hr⟩ := h
        cases item with
        | run r' => rwa [← Option.some.inj hr]
        | _ => cases hr
      · refine (forall₂_chosen (fun h => (kind_of_readItem h).2.1) hitems).imp fun line d h => ?_
        obtain ⟨item, hitem, hd⟩ := h
        cases item with
        | directive d' => rwa [← Option.some.inj hd]
        | _ => cases hd
      · have htrees := (forall₂_chosen (fun h => (kind_of_readItem h).2.2) hitems).imp
          fun line l h => (eq_of_readItem h.choose_spec.1 h.choose_spec.2).symm
        rw [List.forall₂_eq_eq_eq] at htrees
        rw [Spec.ofItems, htrees, String.toList_ofList]

/-! ### Places in both texts -/

open TreeText
open Text (EndsAndLines IsLineEnd)

/-- The tree lines among some lines, each behind a line feed. -/
def treeText (ls : List (List Char)) : List Char := (ls.filter isTreeLine).flatMap ('\n' :: ·)

/-- What is left of a file with these lines and of its tree text, at the same place within a tree
line or at the end. -/
inductive Aligned (all : List (List Char)) (final : Nat) : List Char → List Char → Prop where
  | done : Aligned all final [] []
  | within {before after : List (List Char)} {line cs rest : List Char} :
      all = before ++ line :: after → isTreeLine line → '\n' ∉ cs →
        EndsAndLines final after rest → Aligned all final (cs ++ rest) (cs ++ treeText after)

/-- To a reader of tree texts, a line that is no tree line is a comment. -/
theorem skip_append_of_not_isTreeLine {rest : List Char} (h : isTreeLine line = false)
    (hline : '\n' ∉ line) : skip (line ++ rest) = skipFrom true rest := by
  obtain ⟨tail, htrim⟩ : ∃ tail, Text.trim line = ';' :: tail := by
    rw [isTreeLine, Bool.and_eq_false_iff, Bool.not_eq_false', Bool.not_eq_false'] at h
    rcases h with h | h
    · obtain ⟨tail, htail⟩ := List.isPrefixOf_iff_prefix.1 h
      exact ⟨_, htail.symm⟩
    · obtain ⟨lead, hlead, h⟩ := List.any_eq_true.1 h
      obtain ⟨tail, htail⟩ := List.isPrefixOf_iff_prefix.1 h
      rw [← htail]
      simp only [checkLeads, List.mem_cons, List.not_mem_nil, or_false] at hlead
      rcases hlead with rfl | rfl | rfl | rfl | rfl <;> exact ⟨_, rfl⟩
  obtain ⟨blanks, tail', hblanks, hsplit⟩ := Text.exists_blanks_append_trim line
  rw [htrim] at hsplit
  have hcomment : '\n' ∉ tail ++ tail' := fun hmem =>
    hline (hsplit ▸ List.mem_append_right blanks (List.mem_cons_of_mem ';' hmem))
  rw [hsplit, List.append_assoc, skip_append_of_isBlank hblanks, List.cons_append, List.cons_append,
    skip_semicolon, skipFrom_true_append hcomment]

theorem skipFrom_lineEnd {ending : List Char} (h : IsLineEnd ending) (inComment : Bool)
    (cs : List Char) : skipFrom inComment (ending ++ cs) = skip cs := by
  rcases h with rfl | rfl
  · exact skipFrom_newline inComment
  · cases inComment with
    | true => rfl
    | false => exact (skip_cons_of_isBlank (by decide)).trans (skipFrom_newline false)

theorem skip_lineEnd {ending : List Char} (h : IsLineEnd ending) (cs : List Char) :
    skip (ending ++ cs) = skip cs :=
  skipFrom_lineEnd h false cs

/-- At the end of a line it does not matter whether the line ends in a comment. -/
theorem skipFrom_endsAndLines {final : Nat} {ls : List (List Char)} {cs : List Char}
    (h : EndsAndLines final ls cs) (inComment : Bool) : skipFrom inComment cs = skip cs := by
  cases h with
  | nil => cases inComment <;> rfl
  | final hend => rw [← List.append_nil cs, skipFrom_lineEnd hend, skip_lineEnd hend]
  | line hend _ _ => rw [skipFrom_lineEnd hend, skip_lineEnd hend]

theorem not_isSolid_of_lineEnd {ending : List Char} (h : IsLineEnd ending) {c : Char}
    {cs rest : List Char} (hcons : ending ++ cs = c :: rest) : isSolid c = false := by
  rcases h with rfl | rfl <;> rw [← (List.cons.inj hcons).1] <;> decide

theorem not_isSolid_of_endsAndLines {final : Nat} {ls : List (List Char)} {c : Char}
    {rest : List Char} (h : EndsAndLines final ls (c :: rest)) : isSolid c = false := by
  generalize htext : c :: rest = text at h
  cases h with
  | nil => cases htext
  | final hend => exact not_isSolid_of_lineEnd hend ((List.append_nil _).trans htext.symm)
  | line hend _ _ => exact not_isSolid_of_lineEnd hend htext.symm

theorem not_isSolid_of_treeText {ls : List (List Char)} {c : Char} {rest : List Char}
    (h : treeText ls = c :: rest) : isSolid c = false := by
  unfold treeText at h
  cases hls : ls.filter isTreeLine with
  | nil => rw [hls] at h; cases h
  | cons line ls =>
      rw [hls, List.flatMap_cons, List.cons_append] at h
      rw [← (List.cons.inj h).1]
      decide

theorem skipFrom_treeText (ls : List (List Char)) (inComment : Bool) :
    skipFrom inComment (treeText ls) = skip (treeText ls) := by
  unfold treeText
  cases ls.filter isTreeLine with
  | nil => cases inComment <;> rfl
  | cons line rest =>
      rw [List.flatMap_cons, List.cons_append, skipFrom_newline]
      exact (skipFrom_newline false).symm

namespace Aligned

variable {all before after : List (List Char)} {final : Nat} {rest : List Char}

/-- From a place within a tree line skipping comes to the same place in both texts, if it does from
the end of the line. -/
theorem skipFrom_within (hall : all = before ++ line :: after) (htree : isTreeLine line)
    (hrest : EndsAndLines final after rest)
    (hskip : Aligned all final (skip rest) (skip (treeText after))) {cs : List Char}
    (hcs : '\n' ∉ cs) (inComment : Bool) : Aligned all final (skipFrom inComment (cs ++ rest))
      (skipFrom inComment (cs ++ treeText after)) := by
  induction cs generalizing inComment with
  | nil =>
      rw [List.nil_append, List.nil_append, skipFrom_endsAndLines hrest, skipFrom_treeText]
      exact hskip
  | cons c cs ih =>
      have ih := ih fun hmem => hcs (List.mem_cons_of_mem c hmem)
      rw [List.cons_append, List.cons_append]
      cases inComment with
      | true => exact ih _
      | false =>
          rw [skipFrom, skipFrom]
          split_ifs
          · exact ih true
          · exact ih false
          · exact .within hall htree hcs hrest

/-- From the end of a line skipping comes to the same place in both texts. -/
theorem skip_endsAndLines (hall : all = before ++ after) (hrest : EndsAndLines final after rest) :
    Aligned all final (skip rest) (skip (treeText after)) := by
  induction hrest generalizing before with
  | nil => exact .done
  | @final ending hend =>
      rw [← List.append_nil ending, skip_lineEnd hend]
      exact .done
  | @line final after ending line rest hend hline hrest ih =>
      have ih := @ih (before ++ [line]) (by rw [hall, List.append_assoc]; rfl)
      rw [skip_lineEnd hend]
      cases htree : isTreeLine line with
      | true =>
          have htext : treeText (line :: after) = '\n' :: (line ++ treeText after) := by
            rw [treeText, List.filter_cons_of_pos htree, List.flatMap_cons]
            rfl
          rw [htext, show skip ('\n' :: _) = skip _ from skipFrom_newline false]
          exact skipFrom_within hall htree hrest ih hline false
      | false =>
          have htext : treeText (line :: after) = treeText after := by
            rw [treeText, List.filter_cons_of_neg (by simp [htree]), treeText]
          rw [skip_append_of_not_isTreeLine htree hline, htext, skipFrom_endsAndLines hrest]
          exact ih

/-- Readers of tree texts do not tell the file and the tree text apart. -/
theorem simulation : Simulation (Aligned all final) where
  start h := by
    cases h with
    | done => exact .other nofun nofun
    | @within before after line cs rest hall htree hcs hrest =>
        cases cs with
        | nil =>
            refine .other (fun c tail h => ?_) fun c tail h => not_isSolid_of_treeText h
            rw [List.nil_append] at h
            exact not_isSolid_of_endsAndLines (h ▸ hrest)
        | cons c cs =>
            cases hc : isSolid c with
            | true =>
                exact .solid hc (.within hall htree (fun hmem => hcs (List.mem_cons_of_mem c hmem))
                  hrest)
            | false =>
                exact .other (fun d _ h => (List.cons.inj h).1 ▸ hc)
                  fun d _ h => (List.cons.inj h).1 ▸ hc
  skip h := by
    cases h with
    | done => exact .done
    | @within before after line cs rest hall htree hcs hrest =>
        have hall' : all = (before ++ [line]) ++ after := by
          rw [hall, List.append_assoc]
          rfl
        exact skipFrom_within hall htree hrest (skip_endsAndLines hall' hrest) hcs false

end Aligned

/-! ### Lines of errors -/

theorem treeText_eq (ls : List (List Char)) : ls.filter isTreeLine = [] ∨
    treeText ls = '\n' :: ['\n'].intercalate (ls.filter isTreeLine) := by
  unfold treeText
  induction ls.filter isTreeLine with
  | nil => exact .inl rfl
  | cons line rest ih =>
      rcases ih with rfl | ih
      · simp [List.intercalate]
      · cases rest with
        | nil => simp [List.intercalate]
        | cons next rest =>
            rw [List.flatMap_cons, ih]
            simp [List.intercalate]

theorem count_treeText {ls : List (List Char)} (h : ∀ l ∈ ls, '\n' ∉ l) :
    (treeText ls).count '\n' = ls.countP isTreeLine := by
  rw [treeText, List.count_flatMap, List.countP_eq_length_filter]
  have hone : ∀ l ∈ ls.filter isTreeLine, (List.count '\n' ∘ ('\n' :: ·)) l = 1 := fun l hl => by
    rw [Function.comp_apply, List.count_cons_self,
      List.count_eq_zero_of_not_mem (h l (List.mem_of_mem_filter hl))]
  rw [List.map_congr_left (g := fun _ => 1) hone]
  simp

/-- What is left of a file without its directives. -/
def stripped (cs : List Char) : List Char :=
  ['\n'].intercalate ((Text.lines cs).filter isTreeLine)

section lines

variable {cs : List Char} {final : Nat} (h : EndsAndLines final (Text.lines cs) ('\n' :: cs))
include h

theorem count_newline : cs.count '\n' + 1 = (Text.lines cs).length + final := by
  have := h.count_newline
  rwa [List.count_cons_self] at this

theorem count_stripped : (stripped cs).count '\n' + 1 = max 1 ((Text.lines cs).countP isTreeLine) := by
  have hcount := count_treeText h.not_mem
  rcases treeText_eq (Text.lines cs) with hnil | heq
  · rw [stripped, hnil, List.countP_eq_length_filter, hnil]
    rfl
  · rw [heq, List.count_cons_self] at hcount
    rw [stripped, hcount]
    omega

/-- Both texts are read from the same place on. -/
theorem Aligned.start : Aligned (Text.lines cs) final (skip cs) (skip (stripped cs)) := by
  have halign := Aligned.skip_endsAndLines (List.nil_append _).symm h
  have hcs : skip ('\n' :: cs) = skip cs := skipFrom_newline false
  have htree : skip (treeText (Text.lines cs)) = skip (stripped cs) := by
    rcases treeText_eq (Text.lines cs) with hnil | heq
    · rw [treeText, stripped, hnil]
      rfl
    · rw [heq]
      exact skipFrom_newline false
  rwa [hcs, htree] at halign

/-- Number of directives among the lines before a line of a file. -/
def directivesBefore (cs : List Char) (line : Nat) : Nat :=
  ((Text.lines cs).take (line - 1)).countP (!isTreeLine ·)

/-- At a place within a tree line, the lines before it in the file are those before it in the tree
text and the directives. -/
theorem Aligned.lineOf_eq {rest rest' : List Char}
    (halign : Aligned (Text.lines cs) final rest rest') (hrest : rest ≠ []) :
    lineOf (stripped cs) rest' + directivesBefore cs (lineOf cs rest) = lineOf cs rest := by
  have hcount := count_newline h
  have hstripped := count_stripped h
  have hmem := h.not_mem
  unfold directivesBefore
  cases halign with
  | done => exact absurd rfl hrest
  | @within before after line tail rest hall htree htail hends =>
      generalize Text.lines cs = all at *
      subst hall
      have hline : lineOf cs (tail ++ rest) = before.length + 1 := by
        rw [lineOf, List.count_append, List.count_eq_zero_of_not_mem htail, hends.count_newline]
        rw [List.length_append, List.length_cons] at hcount
        omega
      have hline' : lineOf (stripped cs) (tail ++ treeText after) = before.countP isTreeLine + 1 := by
        rw [lineOf, List.count_append, List.count_eq_zero_of_not_mem htail,
          count_treeText fun l hl => hmem l (by simp [hl])]
        rw [List.countP_append, List.countP_cons_of_pos htree] at hstripped
        omega
      have hkinds := List.length_eq_countP_add_countP isTreeLine (l := before)
      simp only [decide_not, Bool.decide_eq_true] at hkinds
      rw [hline, hline', Nat.add_sub_cancel, List.take_left]
      omega

/-- At the end of the file, the lines before may be one more. -/
theorem lineOf_end : lineOf (stripped cs) [] + directivesBefore cs (lineOf cs []) ≤ lineOf cs [] ∧
    lineOf cs [] ≤ lineOf (stripped cs) [] + directivesBefore cs (lineOf cs []) + 1 := by
  have hcount := count_newline h
  have hstripped := count_stripped h
  have hfinal := h.final_le_one
  have hline : lineOf cs [] = cs.count '\n' + 1 := by simp [lineOf]
  have hline' : lineOf (stripped cs) [] = (stripped cs).count '\n' + 1 := by simp [lineOf]
  rw [hline, hline', hstripped, directivesBefore, Nat.add_sub_cancel]
  -- the lines before the last line end, and at most one line after it
  have hsplit := List.take_append_drop (cs.count '\n') (Text.lines cs)
  have hrest : ((Text.lines cs).drop (cs.count '\n')).countP isTreeLine ≤ 1 := by
    refine List.countP_le_length.trans ?_
    rw [List.length_drop]
    omega
  have hlength : ((Text.lines cs).take (cs.count '\n')).length = cs.count '\n' := by
    rw [List.length_take]
    omega
  have hkinds := List.length_eq_countP_add_countP isTreeLine
    (l := (Text.lines cs).take (cs.count '\n'))
  have hall := congrArg (List.countP isTreeLine) hsplit
  simp only [decide_not, Bool.decide_eq_true] at hkinds
  rw [List.countP_append] at hall
  omega

theorem Aligned.eq_nil {rest' : List Char} (halign : Aligned (Text.lines cs) final [] rest') :
    rest' = [] := by
  generalize htext : ([] : List Char) = text at halign
  cases halign with
  | done => rfl
  | @within before after line tail rest hall htree htail hends =>
      obtain ⟨rfl, rfl⟩ := List.append_eq_nil_iff.1 htext.symm
      generalize hrest : ([] : List Char) = rest at hends
      cases hends with
      | nil => rfl
      | final hend => rcases hend with rfl | rfl <;> cases hrest
      | line hend _ _ => rcases hend with rfl | rfl <;> cases hrest

end lines

/-! ### Files -/

/-- **Taking the directives out does not change the tree.** Each line of a golden test is of one
kind, and the lines of each kind are read in their order. The tree lines give the tree that the
whole file gives, or the same error. The line of a fault is the one in the file, less the
directives before it, unless the fault is at the end of the file: there it may be one less still. -/
theorem parse_keeps_tree {content : String} {spec : Spec} (h : Spec.parse content = .ok spec) :
    (∀ line ∈ Text.lines content.toList,
      (isRunLine line).toNat + (isCheckLine line).toNat + (isTreeLine line).toNat = 1) ∧
      List.Forall₂ (fun line r => readItem line = .ok (.run r))
        ((Text.lines content.toList).filter isRunLine) spec.runs ∧
      List.Forall₂ (fun line d => readItem line = .ok (.directive d))
        ((Text.lines content.toList).filter isCheckLine) spec.directives ∧
      spec.treeText.toList =
        ['\n'].intercalate ((Text.lines content.toList).filter isTreeLine) ∧
      match Tree.parse content with
      | .ok t => Tree.parse spec.treeText = .ok t
      | .error (.malformed line cause) => ∃ line' rest,
          Tree.parse spec.treeText = .error (.malformed line' cause) ∧
            reading content.toList = .error (.fault cause rest) ∧
            line' + directivesBefore content.toList line ≤ line ∧
            line ≤ line' + directivesBefore content.toList line + 1 ∧
            (rest ≠ [] → line' + directivesBefore content.toList line = line)
      | .error e => Tree.parse spec.treeText = .error e := by
  obtain ⟨hruns, hchecks, htext⟩ := parse_eq_ok h
  refine ⟨fun line _ => kinds line, hruns, hchecks, htext, ?_⟩
  obtain ⟨final, hends⟩ := Text.exists_endsAndLines content.toList
  have htext : spec.treeText.toList = stripped content.toList := htext
  have halike := reading_alike Aligned.simulation (Aligned.start hends)
  rw [reading_skip, reading_skip] at halike
  unfold Tree.parse
  rw [htext, read_eq, read_eq]
  obtain ⟨s, hs, hs'⟩ | ⟨cause, rest, rest', hfault, hfault', halign⟩ | ⟨name, hname, hname'⟩ := halike
  · rw [hs, hs']
    have hline := s.tree_ne_malformed
    show match s.tree with | .ok t => _ | .error (.malformed line cause) => _ | .error e => _
    cases htree : s.tree with
    | ok t => exact htree
    | error e =>
        cases e with
        | malformed line cause => exact absurd htree (hline line cause)
        | _ => exact htree
  · rw [hfault, hfault']
    refine ⟨lineOf (stripped content.toList) rest', rest, rfl, rfl, ?_⟩
    by_cases hrest : rest = []
    · subst hrest
      rw [Aligned.eq_nil hends halign]
      obtain ⟨hle, hle'⟩ := lineOf_end hends
      exact ⟨hle, hle', fun hne => absurd rfl hne⟩
    · have hline := Aligned.lineOf_eq hends halign hrest
      exact ⟨hline.le, by omega, fun _ => hline⟩
  · rw [hname, hname']
    rfl

/-- A golden test with directives before and within the tree, which names no rule in its fourth
line. -/
def interrupted : String :=
  "; RUN: treecode\ntree t dim 1 int \x7b a:\n  ; CHECK-NEXT: x\n lea 0 \x7d\n; CHECK: y\n"

theorem reading_interrupted : reading interrupted.toList =
    .error (.fault (.unknownRule "lea") " 0 \x7d\n; CHECK: y\n".toList) := by
  have hsource : source interrupted.toList =
      (definitions [] " a:\n  ; CHECK-NEXT: x\n lea 0 \x7d\n; CHECK: y\n".toList >>= fun r =>
        .ok (⟨"t", 1, .int, r.1⟩, r.2)) := rfl
  rw [reading, hsource, definitions_eq]
  rfl

theorem parse_keeps_tree_interrupted :
    Spec.parse interrupted = .ok ⟨[⟨false, "treecode", []⟩], [.checkNext "x", .check "y"],
      "tree t dim 1 int \x7b a:\n lea 0 \x7d"⟩ ∧
    Tree.parse interrupted = .error (.malformed 4 (.unknownRule "lea")) ∧
    Tree.parse "tree t dim 1 int \x7b a:\n lea 0 \x7d" = .error (.malformed 2 (.unknownRule "lea")) := by
  have hspec : Spec.parse interrupted = .ok ⟨[⟨false, "treecode", []⟩],
      [.checkNext "x", .check "y"], "tree t dim 1 int \x7b a:\n lea 0 \x7d"⟩ := rfl
  have hfile : Tree.parse interrupted = .error (.malformed 4 (.unknownRule "lea")) := by
    rw [Tree.parse, read_eq, reading_interrupted]
    rfl
  obtain ⟨-, -, -, -, hkeeps⟩ := parse_keeps_tree hspec
  rw [hfile] at hkeeps
  obtain ⟨line, rest, hline, hreading, -, -, heq⟩ := hkeeps
  rw [reading_interrupted] at hreading
  have hbefore : directivesBefore interrupted.toList 4 = 2 := by decide
  obtain rfl : line = 2 := by
    have := heq (by cases hreading; exact List.cons_ne_nil _ _)
    omega
  exact ⟨hspec, hfile, hline⟩

end TreeCode.Golden
