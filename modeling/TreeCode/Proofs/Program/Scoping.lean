import TreeCode.Proofs.Inline.Spending
import TreeCode.Proofs.Program.Braces
import TreeCode.Proofs.Program.Fields
import TreeCode.Proofs.Program.LineKinds

/-! # Control flow of a definition

Lines are counted by their kinds. Statements have a jump for every part that is left to the table
(`Statement.countP_listing`), each of them behind a line that sets the cursor
(`Statement.setBeforeJumps_listing`), and two lines for every branch. The label, the declaration of
the cursor and the loop are put around them just if there are jumps, so the control flow is well
scoped (`Program.wellScoped`). -/

namespace TreeCode

namespace Line

/-! ### Rows of lines -/

section rows

variable {label : String} {bound : Nat} {l : Line} {ls ls' : List Line} {kind : Option Kind}

theorem countP_cons_of_ofKind (h : l.OfKind label kind) (ls : List Line) (k : Kind) :
    (l :: ls).countP (hasKind label k) =
      ls.countP (hasKind label k) + if kind = some k then 1 else 0 := by
  simp [List.countP_cons, h k]

theorem countP_eq_zero_of_ofKind (h : ∀ l ∈ ls, l.OfKind label none) (k : Kind) :
    ls.countP (hasKind label k) = 0 := by
  refine List.countP_eq_zero.2 fun l hl => ?_
  simp [h l hl k]

/-- The lines without the loops, each of which has all lines that are deeper than its first one. -/
def outsideLoops : Option Nat → List Line → List Line
  | _, [] => []
  | depth, l :: ls =>
      if depth.any (· < l.indent) then outsideLoops depth ls
      else if l.startsLoop then outsideLoops (some l.indent) ls
      else l :: outsideLoops none ls

theorem outsideLoops_append (h : ls.countP (hasKind label .loop) = 0) (ls' : List Line) :
    outsideLoops none (ls ++ ls') = ls ++ outsideLoops none ls' := by
  rw [List.countP_eq_zero] at h
  induction ls with
  | nil => rfl
  | cons l ls ih =>
      rw [List.forall_mem_cons] at h
      have hl : l.startsLoop = false := Bool.eq_false_iff.2 h.1
      simp [outsideLoops, hl, ih h.2]

/-- Each jump comes directly after a line that sets the cursor to a number below the bound. -/
def SetBeforeJumps (label : String) (bound : Nat) (ls : List Line) : Prop :=
  ∀ front l back, ls = front ++ l :: back → l.text = s!"goto {label};" →
    ∃ front' entry, front = front' ++ [⟨l.indent, s!"subroot = {entry};"⟩] ∧ entry < bound

theorem setBeforeJumps_of_countP (h : ls.countP (hasKind label .jump) = 0) :
    SetBeforeJumps label bound ls := by
  rintro front l back rfl hjump
  have hl : l.hasKind label .jump = true := beq_iff_eq.2 hjump
  exact absurd hl (List.countP_eq_zero.1 h l (by simp))

theorem setBeforeJumps_pair {d entry : Nat} (hentry : entry < bound) :
    SetBeforeJumps label bound [⟨d, s!"subroot = {entry};"⟩, ⟨d, s!"goto {label};"⟩] := by
  intro front l back heq hjump
  cases front with
  | nil =>
      obtain ⟨rfl, -⟩ := List.cons.inj heq
      have hset : hasKind label .jump ⟨d, s!"subroot = {entry};"⟩ = false := ofKind_set entry .jump
      exact absurd (beq_iff_eq.2 hjump) (Bool.eq_false_iff.1 hset)
  | cons first front =>
      obtain ⟨rfl, hrest⟩ := List.cons.inj heq
      cases front with
      | nil =>
          obtain ⟨rfl, -⟩ := List.cons.inj hrest
          exact ⟨[], entry, rfl, hentry⟩
      | cons second front => simp at hrest

theorem SetBeforeJumps.append (h : SetBeforeJumps label bound ls)
    (h' : SetBeforeJumps label bound ls') : SetBeforeJumps label bound (ls ++ ls') := by
  intro front l back heq hjump
  rcases List.append_eq_append_iff.1 heq with ⟨middle, rfl, hback⟩ | ⟨middle, hfront, hback⟩
  · obtain ⟨front', entry, rfl, hentry⟩ := h' middle l back hback hjump
    exact ⟨ls ++ front', entry, by rw [List.append_assoc], hentry⟩
  · cases middle with
    | nil =>
        -- the line is the first one of the second part, which has nothing in front of it
        obtain ⟨front', entry, hnil, -⟩ := h' [] l back hback.symm hjump
        simp at hnil
    | cons first middle =>
        obtain ⟨rfl, rfl⟩ := List.cons.inj hback
        exact h front l middle hfront hjump

end rows
end Line

/-! ### Statements -/

namespace Statement

open Line

/-- How many lines of a kind a statement has. -/
def lineCount (s : Statement) : Line.Kind → Nat
  | .jump => s.fallbackSites
  | .branch => s.inlineBranches
  | .otherwise => s.inlineBranches
  | _ => 0

variable (type : CType) (label : String) (d : Nat) (s : Statement)

/-- **The lines of a statement** are a jump for every part that is left to the table, and two lines
for every branch. -/
theorem countP_listing (k : Line.Kind) :
    (s.listing type label d).countP (hasKind label k) = s.lineCount k := by
  induction s generalizing d with
  | ret p =>
      rw [listing, countP_cons_of_ofKind (ofKind_ret p)]
      cases k <;> rfl
  | fallback node entry =>
      rw [listing, countP_cons_of_ofKind (ofKind_set entry), countP_cons_of_ofKind ofKind_goto]
      cases k <;> rfl
  | branch node test a b iha ihb =>
      rw [listing, List.cons_append, List.cons_append,
        countP_cons_of_ofKind (ofKind_test type test), List.countP_append, List.countP_append,
        countP_cons_of_ofKind ofKind_else, iha, ihb, countP_cons_of_ofKind ofKind_close]
      cases k <;> simp [lineCount, fallbackSites, inlineBranches]
      omega

/-- **Jumps of a statement** come after the cursor has been set. -/
theorem setBeforeJumps_listing {bound : Nat}
    (h : ∀ node entry, .fallback node entry ∈ s.preorder → entry < bound) :
    SetBeforeJumps label bound (s.listing type label d) := by
  have hquiet {d : Nat} {text : String} {kind : Option Line.Kind} (hl : OfKind label ⟨d, text⟩ kind)
      (hkind : kind ≠ some .jump) : SetBeforeJumps label bound [⟨d, text⟩] := by
    apply setBeforeJumps_of_countP
    rw [countP_cons_of_ofKind hl, if_neg hkind]
    rfl
  induction s generalizing d with
  | ret p => exact hquiet (ofKind_ret p) (by decide)
  | fallback node entry => exact setBeforeJumps_pair (h node entry List.mem_cons_self)
  | branch node test a b iha ihb =>
      have ha := iha (d + 1) fun node entry hs => h node entry (by simp [preorder, hs])
      have hb := ihb (d + 1) fun node entry hs => h node entry (by simp [preorder, hs])
      have hall := (((hquiet (d := d) (ofKind_test type test) (by decide)).append ha).append
        (hquiet (d := d) ofKind_else (by decide))).append
        (hb.append (hquiet (d := d) ofKind_close (by decide)))
      simpa [listing] using hall

end Statement

/-! ### Definitions -/

namespace Program

open Line

variable (p : Program)

/-- The lines of the text of a definition. -/
def readDefinitionLines : List Line := readLines p.definition.toList

/-- The lines in front of the statements. -/
def frontLines : List Line := p.titleLine :: (p.rowLines ++ (p.middleLines ++ p.cursorLines))

/-- The lines of the statements. -/
def bodyLines : List Line := p.body.listing p.layout.threshold p.symbols.fallback 1

/-- The lines behind the statements, up to the end of the function. -/
def loopPart : List Line := if p.hasFallback then p.loopLines else []

/-- The end of the function, and what follows the last end of a line. -/
def endLines : List Line := [⟨0, "\x7d"⟩, ⟨0, ""⟩]

/-- The text of a definition has a jump for every part that is left to the table, each behind a line
that sets the cursor to a position of the table. The label, the declaration of the cursor and the
loop are there just if there are jumps, and once. Outside the loop there are two lines for every
branch. The braces are balanced. -/
structure WellScoped : Prop where
  jumps : p.readDefinitionLines.countP (hasKind p.symbols.fallback .jump) = p.body.fallbackSites
  cursor : SetBeforeJumps p.symbols.fallback p.table.size p.readDefinitionLines
  once : ∀ k ∈ [Kind.label, Kind.cursor, Kind.loop],
    p.readDefinitionLines.countP (hasKind p.symbols.fallback k) =
      if 0 < p.body.fallbackSites then 1 else 0
  loop : 0 < p.body.fallbackSites → p.loopLines <:+: p.readDefinitionLines
  branches : ∀ k ∈ [Kind.branch, Kind.otherwise],
    (outsideLoops none p.readDefinitionLines).countP (hasKind p.symbols.fallback k) =
      p.body.inlineBranches
  balanced : nesting 0 p.definition = some 0

variable {p} {k : Kind} {label : String}

section kinds

theorem ofKind_titleLine : p.titleLine.OfKind label none := by
  refine ofKind_none (ends_append ['s', 't'] '\x7b' ?_ (by decide)) (by decide)
  simp [toString_string]

theorem ofKind_rowLines : ∀ l ∈ p.rowLines, l.OfKind label none := by
  intro l hl
  obtain ⟨e, -, rfl⟩ := List.mem_map.1 hl
  have hstart : (e.initialiser p.layout.threshold).toList.take 2 =
      ['\x7b', if e.isLeaf then 't' else 'f'] := by
    rw [Row.toList_initialiser]
    cases e.isLeaf <;> simp [boolText]
  obtain ⟨fields, -, htext⟩ := exists_initialiser_eq p.layout.threshold e
  rw [htext] at hstart ⊢
  refine ofKind_none (ends_append _ ',' hstart (by decide)) ?_
  cases e.isLeaf <;> decide

theorem ofKind_middleLines : ∀ l ∈ p.middleLines, l.OfKind label none := by
  intro l hl
  simp only [middleLines, List.mem_cons, List.not_mem_nil, or_false] at hl
  rcases hl with rfl | rfl | rfl
  · exact ofKind_none (show ends ⟨0, "\x7d;"⟩ = (['\x7d', ';'], some ';') by decide) (by decide)
  · exact ofKind_none (show ends ⟨0, ""⟩ = ([], none) by decide) (by decide)
  · refine ofKind_none (ends_append ['u', 'n'] '\x7b' ?_ (by decide)) (by decide)
    unfold prototype
    simp [toString_string]

/-- In front of the statements the cursor is declared if there is a loop. -/
theorem countP_frontLines (k : Kind) : p.frontLines.countP (hasKind label k) =
    if p.hasFallback ∧ k = .cursor then 1 else 0 := by
  have hcursor : p.cursorLines.countP (hasKind label k) =
      if p.hasFallback ∧ k = .cursor then 1 else 0 := by
    rw [cursorLines]
    by_cases h : p.hasFallback = true
    · rw [if_pos h, countP_cons_of_ofKind (ofKind_cursor p.layout.index)]
      simp [h, eq_comm]
    · simp [h]
  rw [frontLines, countP_cons_of_ofKind ofKind_titleLine, List.countP_append, List.countP_append,
    countP_eq_zero_of_ofKind ofKind_rowLines, countP_eq_zero_of_ofKind ofKind_middleLines, hcursor]
  simp

theorem countP_endLines (label : String) (k : Kind) : endLines.countP (hasKind label k) = 0 := by
  have hblank : OfKind label ⟨0, ""⟩ none :=
    ofKind_none (show ends ⟨0, ""⟩ = ([], none) by decide) (by decide)
  rw [endLines, countP_cons_of_ofKind ofKind_close, countP_cons_of_ofKind hblank]
  rfl

end kinds

/-! ### The loop -/

section loop

variable (hname : isIdentifier p.tree.name.toList = true)
include hname

theorem ofKind_loopLabel :
    OfKind p.symbols.fallback ⟨0, s!"{p.symbols.fallback}:"⟩ (some .label) :=
  ofKind_label (Symbols.isIdentifier_get_ofTree hname p.treeId .fallback)

theorem countP_loopLines (k : Kind) : p.loopLines.countP (hasKind p.symbols.fallback k) =
    if k = .jump ∨ k = .cursor then 0 else 1 := by
  have hleft : OfKind p.symbols.fallback ⟨4, s!"i = {p.symbols.table}[i].leftChild;"⟩ none :=
    ofKind_child p.symbols.table (by decide)
  have hright : OfKind p.symbols.fallback ⟨4, s!"i = {p.symbols.table}[i].rightChild;"⟩ none :=
    ofKind_child p.symbols.table (by decide)
  rw [loopLines, countP_cons_of_ofKind (ofKind_loopLabel hname), countP_cons_of_ofKind ofKind_open,
    countP_cons_of_ofKind (ofKind_read _), countP_cons_of_ofKind (ofKind_while _),
    countP_cons_of_ofKind (ofKind_if _), countP_cons_of_ofKind hleft,
    countP_cons_of_ofKind ofKind_else, countP_cons_of_ofKind hright,
    countP_cons_of_ofKind ofKind_close, countP_cons_of_ofKind ofKind_close,
    countP_cons_of_ofKind (ofKind_result _), countP_cons_of_ofKind ofKind_close]
  cases k <;> rfl

theorem countP_loopPart (k : Kind) : p.loopPart.countP (hasKind p.symbols.fallback k) =
    if p.hasFallback then (if k = .jump ∨ k = .cursor then 0 else 1) else 0 := by
  rw [loopPart]
  split
  · exact countP_loopLines hname k
  · rfl

/-- The lines around the loop itself. -/
def loopHead (p : Program) : List Line :=
  [⟨0, s!"{p.symbols.fallback}:"⟩, ⟨1, "\x7b"⟩, ⟨2, s!"{p.layout.index.name} i = subroot;"⟩]

def loopEnd (p : Program) : List Line :=
  [⟨2, "\x7d"⟩, ⟨2, s!"return {p.symbols.table}[i].prediction;"⟩, ⟨1, "\x7d"⟩]

theorem countP_loopHead (k : Kind) : p.loopHead.countP (hasKind p.symbols.fallback k) =
    if k = .label then 1 else 0 := by
  rw [loopHead, countP_cons_of_ofKind (ofKind_loopLabel hname), countP_cons_of_ofKind ofKind_open,
    countP_cons_of_ofKind (ofKind_read _)]
  cases k <;> rfl

omit hname in
theorem countP_loopEnd (label : String) (k : Kind) : p.loopEnd.countP (hasKind label k) = 0 := by
  rw [loopEnd, countP_cons_of_ofKind ofKind_close, countP_cons_of_ofKind (ofKind_result _),
    countP_cons_of_ofKind ofKind_close]
  rfl

theorem outsideLoops_loopLines (ls : List Line) :
    outsideLoops none (p.loopLines ++ ls) = p.loopHead ++ (p.loopEnd ++ outsideLoops none ls) := by
  have hwhile : startsLoop ⟨2, s!"while (!{p.symbols.table}[i].isLeaf) " ++ "\x7b"⟩ = true :=
    show hasKind p.symbols.fallback .loop _ = true from ofKind_while p.symbols.table .loop
  have hclose : startsLoop ⟨2, "\x7d"⟩ = false :=
    show hasKind p.symbols.fallback .loop _ = false from ofKind_close .loop
  have hend : p.loopEnd ++ outsideLoops none ls = outsideLoops none (p.loopEnd ++ ls) :=
    (outsideLoops_append (countP_loopEnd p.symbols.fallback .loop) ls).symm
  rw [hend]
  change outsideLoops none (p.loopHead ++ _) = _
  rw [outsideLoops_append (countP_loopHead hname .loop)]
  refine congrArg (p.loopHead ++ ·) ?_
  simp [outsideLoops, hwhile, hclose, loopEnd]

end loop

/-! ### The text -/

section text

variable (hname : isIdentifier p.tree.name.toList = true)
include hname

theorem plain_loopLines : ∀ l ∈ p.loopLines, l.Plain := by
  have hfallback : Unbraced p.symbols.fallback := unbraced_symbol hname .fallback
  have haround {front back : String} (hfront : Unbraced front) (hback : Unbraced back) :
      Inline (front ++ p.symbols.table ++ back) := (unbraced_around_table hname hfront hback).inline
  intro l hl
  simp only [loopLines, List.mem_cons, List.not_mem_nil, or_false] at hl
  rcases hl with rfl | rfl | rfl | rfl | rfl | rfl | rfl | rfl | rfl | rfl | rfl | rfl
  · exact (hfallback.append (by decide)).inline
  · exact show Inline "\x7b" by decide
  · exact ((unbraced_name _).append (by decide)).inline
  · exact (haround (by decide) (by decide)).append (by decide)
  · exact (unbraced_loopTest hname).inline.append (by decide)
  · exact haround (by decide) (by decide)
  · exact show Inline "\x7d else \x7b" by decide
  · exact haround (by decide) (by decide)
  · exact show Inline "\x7d" by decide
  · exact show Inline "\x7d" by decide
  · exact haround (by decide) (by decide)
  · exact show Inline "\x7d" by decide

/-- **The text of a definition** is cut into its lines. -/
theorem readDefinitionLines_eq : p.readDefinitionLines =
    p.frontLines ++ (p.bodyLines ++ (p.loopPart ++ endLines)) := by
  have hinline : Inline p.tree.name := (unbraced_of_isIdentifier hname).inline
  have hplain : ∀ l ∈ p.definitionLines, l.Plain := by
    intro l hl
    simp only [definitionLines_eq_append, tailLines, List.mem_cons, List.mem_append,
      List.not_mem_nil, or_false] at hl
    rcases hl with rfl | hl | hl | hl | hl | rfl
    · exact plain_titleLine hinline
    · exact plain_rowLines l hl
    · exact plain_middleLines hinline l hl
    · exact (plain_inlineLines hinline l hl).1
    · split at hl
      · exact plain_loopLines hname l hl
      · cases hl
    · exact show Inline "\x7d" by decide
  have hread := readLines_append hplain []
  rw [List.append_nil] at hread
  change readLines (renderLines p.definitionLines).toList = _
  rw [hread, definitionLines_eq_append, frontLines, bodyLines, inlineLines, tailLines, loopPart]
  simp [endLines, readLines, Text.pieces, Line.ofTabbed]

theorem countP_readDefinitionLines (k : Kind) :
    p.readDefinitionLines.countP (hasKind p.symbols.fallback k) =
      (if p.hasFallback ∧ k = .cursor then 1 else 0) + (p.body.lineCount k +
        if p.hasFallback then (if k = .jump ∨ k = .cursor then 0 else 1) else 0) := by
  rw [readDefinitionLines_eq hname, List.countP_append, List.countP_append, List.countP_append,
    countP_frontLines, bodyLines, Statement.countP_listing, countP_loopPart hname, countP_endLines,
    Nat.add_zero]

/-- Outside the loop there is no line of a branch but those of the statements. -/
theorem countP_outsideLoops (hk : k = .branch ∨ k = .otherwise) :
    (outsideLoops none p.readDefinitionLines).countP (hasKind p.symbols.fallback k) =
      p.body.inlineBranches := by
  have hfront : p.frontLines.countP (hasKind p.symbols.fallback .loop) = 0 := by
    simp [countP_frontLines]
  have hbody : p.bodyLines.countP (hasKind p.symbols.fallback .loop) = 0 :=
    Statement.countP_listing ..
  have hend : outsideLoops none endLines = endLines := by
    have hnone := outsideLoops_append (countP_endLines p.symbols.fallback .loop) []
    simpa [outsideLoops] using hnone
  have hloop : (outsideLoops none (p.loopPart ++ endLines)).countP
      (hasKind p.symbols.fallback k) = 0 := by
    rw [loopPart]
    split
    · rw [outsideLoops_loopLines hname, hend, List.countP_append, List.countP_append,
        countP_loopHead hname, countP_loopEnd, countP_endLines]
      rcases hk with rfl | rfl <;> rfl
    · rw [List.nil_append, hend, countP_endLines]
  have hbranches : p.body.lineCount k = p.body.inlineBranches := by
    rcases hk with rfl | rfl <;> rfl
  have hnone : ¬(p.hasFallback = true ∧ k = .cursor) := by
    rcases hk with rfl | rfl <;> exact fun h => nomatch h.2
  rw [readDefinitionLines_eq hname, outsideLoops_append hfront, outsideLoops_append hbody,
    List.countP_append, List.countP_append, hloop, countP_frontLines, if_neg hnone, bodyLines,
    Statement.countP_listing, hbranches]
  omega

/-- **The control flow of a definition** is well scoped if the statements jump to positions of the
table. -/
theorem wellScoped (hentries : ∀ node entry, .fallback node entry ∈ p.body.preorder →
    entry < p.table.size) : p.WellScoped := by
  have hfallback : p.hasFallback = true ↔ 0 < p.body.fallbackSites := by
    rw [hasFallback, decide_eq_true_iff]
  constructor
  case jumps =>
    rw [countP_readDefinitionLines hname]
    simp [Statement.lineCount]
  case cursor =>
    have hfront : SetBeforeJumps p.symbols.fallback p.table.size p.frontLines :=
      setBeforeJumps_of_countP (by simp [countP_frontLines])
    have hbody := Statement.setBeforeJumps_listing p.layout.threshold p.symbols.fallback 1 p.body
      hentries
    have hloop : SetBeforeJumps p.symbols.fallback p.table.size p.loopPart :=
      setBeforeJumps_of_countP (by simp [countP_loopPart hname])
    have hend : SetBeforeJumps p.symbols.fallback p.table.size endLines :=
      setBeforeJumps_of_countP (countP_endLines _ .jump)
    rw [readDefinitionLines_eq hname]
    exact hfront.append (hbody.append (hloop.append hend))
  case once =>
    intro k hk
    rw [countP_readDefinitionLines hname]
    simp only [List.mem_cons, List.not_mem_nil, or_false] at hk
    rcases hk with rfl | rfl | rfl <;> simp [Statement.lineCount, hfallback]
  case loop =>
    intro hpos
    rw [readDefinitionLines_eq hname, loopPart, if_pos (hfallback.2 hpos)]
    exact ⟨p.frontLines ++ p.bodyLines, endLines, by simp⟩
  case branches =>
    intro k hk
    exact countP_outsideLoops hname (by simpa using hk)
  case balanced => exact nesting_definition hname

end text
end Program

/-! ### Trees that were built -/

namespace Draft

variable {d : Draft} {head : NodeId} {t : Tree}

/-- **The control flow of a definition** is well scoped, whatever the budget. -/
theorem definition_wellScoped (hb : d.build head = .ok t) (c : Config) (treeId : UInt32) :
    ∃ p, Program.lower c t.annotate treeId = .ok p ∧ p.WellScoped := by
  have hroot := root_wellFormed_annotate hb
  obtain ⟨p, hp, h⟩ := Program.exists_lower (t := t.annotate) hroot.distinct rfl c treeId
  have htree : p.tree = t.annotate := congrArg Program.tree (Program.lower_eq_ok hp).2.2.2
  have hname : isIdentifier p.tree.name.toList = true := by
    rw [htree]
    exact show isIdentifier t.name.toList = true from isIdentifier_of_build hb
  exact ⟨p, hp, Program.wellScoped hname fun node entry hs =>
    h.table.lt_size (h.body.exists_index hs)⟩

/-- One split is a branch, the other one is left to the table. -/
theorem definition_wellScoped_lopsided : lopsided.build 0 = .ok lopsidedTree ∧
    ∃ p, Program.lower ((Config.ofArchitecture .arm).withBudget 50) lopsidedTree.annotate 0 =
        .ok p ∧ p.body.inlineBranches = 1 ∧ p.body.fallbackSites = 1 ∧ p.WellScoped := by
  obtain ⟨p, hp, hscoped⟩ :=
    definition_wellScoped build_lopsided ((Config.ofArchitecture .arm).withBudget 50) 0
  obtain ⟨-, hplan, hlink, -⟩ := Program.lower_eq_ok hp
  refine ⟨build_lopsided, p, hp, ?_, ?_, hscoped⟩
  · rw [Plan.inlineBranches_link hlink, hplan]
    decide
  · rw [Plan.fallbackSites_link hlink, hplan]
    decide

end Draft
end TreeCode
