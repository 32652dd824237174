import TreeCode.Proofs.Program.Outlines
import TreeCode.Proofs.Program.Prediction
import TreeCode.Proofs.Program.Rows

/-! # Reading a program back from its text

The first lines behind one tab are the rows of the table, and the next lines behind tabs are the
statements of the function. So the text of a definition has everything of the program but the
numbers of the nodes, and of the thresholds it has the literals (`Draft.definition_decodes`). -/

namespace TreeCode

/-- The rows of the table and the outline of the function in the text of a definition. -/
def readDefinition (text : String) : Option (List Row × Outline) := do
  let lines := (readLines text.toList).drop 1
  let rows ← (lines.takeWhile (·.indent == 1)).mapM Row.read?
  -- the end of the table, an empty line and the prototype come before the function
  let function := ((lines.dropWhile (·.indent == 1)).drop 3).takeWhile (0 < ·.indent)
  match (function.filterMap Outline.Token.read?).foldr Outline.push [] with
  | [outline] => some (rows, outline)
  | _ => none

namespace Program

variable (p : Program)

def rows : List Row := p.table.entries.toList.map (Entry.row p.layout.threshold)

def outline : Outline := p.body.outline p.layout.threshold

/-- The declaration of the cursor, if there is a loop. -/
def cursorLines : List Line :=
  if p.hasFallback then [⟨1, s!"{p.layout.index.name} subroot;"⟩] else []

/-- The inline part of the function. -/
def inlineLines : List Line :=
  p.cursorLines ++ p.body.listing p.layout.threshold p.symbols.fallback 1

def rowLines : List Line :=
  p.table.entries.toList.map fun e => ⟨1, e.initialiser p.layout.threshold⟩

/-- The first line, and the lines between the table and the function. -/
def titleLine : Line :=
  ⟨0, s!"static const struct {p.symbols.record} {p.symbols.table}[{p.table.size}] = " ++ "\x7b"⟩

def middleLines : List Line := [⟨0, "\x7d;"⟩, ⟨0, ""⟩, ⟨0, p.prototype ++ " \x7b"⟩]

/-- The loop, if there is one, and the end of the function. -/
def tailLines : List Line := (if p.hasFallback then p.loopLines else []) ++ [⟨0, "\x7d"⟩]

theorem definitionLines_eq_append : p.definitionLines =
    p.titleLine :: (p.rowLines ++ (p.middleLines ++ (p.inlineLines ++ p.tailLines))) := by
  simp [definitionLines, tableLines, functionLines, titleLine, rowLines, middleLines, inlineLines,
    cursorLines, tailLines]

/-- What the prototype has around the name of the function. -/
theorem exists_prototype_eq : ∃ front back, Unbraced front ∧ Unbraced back ∧
    p.prototype = front ++ p.symbols.predict ++ back := by
  have hback : Unbraced ("(" ++ p.tree.featureType.cName ++ " const pX[" ++
      toString p.tree.dim ++ "])") :=
    .append (.append (.append (.append (by decide) (unbraced_cName p.tree.featureType))
      (by decide)) (unbraced_toString_uint32 p.tree.dim)) (by decide)
  refine ⟨"unsigned int ", _, by decide, hback, ?_⟩
  unfold prototype
  simp only [String.append_assoc]
  rfl

section plain

variable {p} (hname : Inline p.tree.name)
include hname

theorem inline_symbols : Inline p.symbols.record ∧ Inline p.symbols.table ∧
    Inline p.symbols.predict ∧ Inline p.symbols.fallback := by
  have hsymbol {kind : String} (hkind : Inline kind) :
      Inline (p.tree.name ++ kind ++ toString p.treeId) :=
    (hname.append hkind).append (unbraced_toString_uint32 p.treeId).inline
  exact ⟨hsymbol (by decide), hsymbol (by decide), hsymbol (by decide), hsymbol (by decide)⟩

/-- A line without tabs ends the inline part. -/
theorem exists_definitionLines_eq : ∃ stop rest,
    p.definitionLines =
        p.titleLine :: (p.rowLines ++ (p.middleLines ++ (p.inlineLines ++ [stop]))) ++ rest ∧
      stop.indent = 0 ∧ stop.Plain := by
  rw [definitionLines_eq_append, tailLines]
  by_cases h : p.hasFallback = true
  · have hlabel : Inline s!"{p.symbols.fallback}:" :=
      (inline_symbols hname).2.2.2.append (by decide)
    refine ⟨⟨0, s!"{p.symbols.fallback}:"⟩, p.loopLines.tail ++ [⟨0, "\x7d"⟩], ?_, rfl, hlabel⟩
    simp [loopLines, h]
  · refine ⟨⟨0, "\x7d"⟩, [], ?_, rfl, show Inline "\x7d" by decide⟩
    simp [h]

theorem plain_titleLine : p.titleLine.Plain := by
  obtain ⟨hrecord, htable, -, -⟩ := inline_symbols hname
  have hsize : Inline (toString p.table.size) := (unbraced_toString_nat p.table.size).inline
  apply Inline.append (.append (.append ?_ hsize) (by decide)) (by decide)
  exact .append (.append (.append (.append (by decide) hrecord) (by decide)) htable) (by decide)

theorem plain_middleLines : ∀ l ∈ p.middleLines, l.Plain := by
  obtain ⟨-, -, hpredict, -⟩ := inline_symbols hname
  obtain ⟨front, back, hfront, hback, hprototype⟩ := p.exists_prototype_eq
  intro l hl
  simp only [middleLines, List.mem_cons, List.not_mem_nil, or_false] at hl
  rcases hl with rfl | rfl | rfl
  · exact show Inline "\x7d;" by decide
  · exact show Inline "" by decide
  · show Inline (p.prototype ++ " \x7b")
    rw [hprototype]
    exact .append (.append (.append hfront.inline hpredict) hback.inline) (by decide)

theorem plain_inlineLines : ∀ l ∈ p.inlineLines, l.Plain ∧ 1 ≤ l.indent := by
  obtain ⟨-, -, -, hlabel⟩ := inline_symbols hname
  intro l hl
  rw [inlineLines, List.mem_append] at hl
  rcases hl with hl | hl
  · rw [cursorLines] at hl
    split at hl
    · obtain rfl := List.mem_singleton.1 hl
      exact ⟨(unbraced_name p.layout.index).inline.append (by decide), Nat.le_refl 1⟩
    · cases hl
  · exact plain_listing hlabel p.layout.threshold 1 p.body l hl

end plain

variable {p}

theorem plain_rowLines : ∀ l ∈ p.rowLines, l.Plain := by
  intro l hl
  obtain ⟨e, -, rfl⟩ := List.mem_map.1 hl
  exact inline_initialiser p.layout.threshold e

theorem mapM_rowLines : p.rowLines.mapM Row.read? = some p.rows := by
  rw [rowLines, rows]
  induction p.table.entries.toList with
  | nil => rfl
  | cons e entries ih =>
      rw [List.map_cons, List.mapM_cons, Row.read?_initialiser, ih]
      rfl

theorem filterMap_inlineLines :
    p.inlineLines.filterMap Outline.Token.read? = p.outline.tokens := by
  have hcursor : p.cursorLines.filterMap Outline.Token.read? = [] := by
    rw [cursorLines]
    split
    · rw [List.filterMap_cons, Outline.Token.read?_cursor]
      rfl
    · rfl
  rw [inlineLines, List.filterMap_append, hcursor, Outline.read?_listing]
  rfl

/-- The lines of a definition are read back, up to the one that ends the inline part. -/
theorem exists_readLines_definition (hname : Inline p.tree.name) : ∃ stop after,
    readLines p.definition.toList =
        p.titleLine :: (p.rowLines ++ (p.middleLines ++ (p.inlineLines ++ stop :: after))) ∧
      stop.indent = 0 := by
  obtain ⟨stop, rest, hlines, hindent, hstop⟩ := exists_definitionLines_eq hname
  have hplain : ∀ l ∈ p.titleLine :: (p.rowLines ++ (p.middleLines ++ (p.inlineLines ++ [stop]))),
      l.Plain := by
    intro l hl
    simp only [List.mem_cons, List.mem_append, List.not_mem_nil, or_false] at hl
    rcases hl with rfl | hl | hl | hl | rfl
    · exact plain_titleLine hname
    · exact plain_rowLines l hl
    · exact plain_middleLines hname l hl
    · exact (plain_inlineLines hname l hl).1
    · exact hstop
  have hall := readLines_append hplain (renderLines rest).toList
  rw [← String.toList_append, renderLines, renderLines, ← String.join_append, ← List.map_append,
    ← hlines] at hall
  refine ⟨stop, readLines (renderLines rest).toList, ?_, hindent⟩
  simpa [definition, renderLines] using hall

/-- **The text of a definition** has the rows of the table and the outline of the function. -/
theorem read_definition (hname : Inline p.tree.name) :
    readDefinition p.definition = some (p.rows, p.outline) := by
  obtain ⟨stop, after, hread, hindent⟩ := exists_readLines_definition hname
  have hrow : ∀ l ∈ p.rowLines, (l.indent == 1) = true := by
    intro l hl
    obtain ⟨e, -, rfl⟩ := List.mem_map.1 hl
    rfl
  have hinline : ∀ l ∈ p.inlineLines, decide (0 < l.indent) = true :=
    fun l hl => decide_eq_true (plain_inlineLines hname l hl).2
  have htake (tail : List Line) :
      (p.rowLines ++ (p.middleLines ++ tail)).takeWhile (·.indent == 1) = p.rowLines := by
    rw [List.takeWhile_append_of_pos hrow, middleLines]
    simp
  have hdrop (tail : List Line) :
      ((p.rowLines ++ (p.middleLines ++ tail)).dropWhile (·.indent == 1)).drop 3 = tail := by
    rw [List.dropWhile_append_of_pos hrow]
    rfl
  have hfunction : (p.inlineLines ++ stop :: after).takeWhile (0 < ·.indent) = p.inlineLines := by
    rw [List.takeWhile_append_of_pos hinline]
    simp [hindent]
  have houtline : p.outline.tokens.foldr Outline.push [] = [p.outline] := by
    simpa using Outline.foldr_push_tokens p.outline [] []
  simp only [readDefinition, hread, List.drop_one, List.tail_cons, htake, hdrop, hfunction,
    mapM_rowLines, filterMap_inlineLines, houtline, Option.bind_eq_bind, Option.bind_some]

end Program

/-! ### Trees that were built -/

namespace Draft

variable {d d' : Draft} {head head' : NodeId} {t t' : Tree}

theorem isIdentifier_of_build (hb : d.build head = .ok t) : isIdentifier t.name.toList = true := by
  obtain ⟨⟨⟩, hhead, -⟩ := bind_eq_ok_iff.1 hb
  rw [(assemble_eq_ok (assemble_of_build hb)).1]
  unfold checkHead at hhead
  split_ifs at hhead with _ _ hname
  simpa using hname

theorem inline_name_of_build (hb : d.build head = .ok t) : Inline t.name :=
  (unbraced_of_isIdentifier (isIdentifier_of_build hb)).inline

/-- **Nothing is lost** in the text of a definition. It is read back as the rows of the table and
the outline of the function, so programs with the same text have the same table up to the literals
of thresholds, and the same function up to the numbers of nodes as well. -/
theorem definition_decodes (hb : d.build head = .ok t) (hb' : d'.build head' = .ok t')
    {c c' : Config} {treeId treeId' : UInt32} {p p' : Program}
    (hp : Program.lower c t.annotate treeId = .ok p)
    (hp' : Program.lower c' t'.annotate treeId' = .ok p') :
    readDefinition p.definition = some (p.rows, p.outline) ∧
      (p.definition = p'.definition → p.table.size = p'.table.size ∧
        (∀ (i : Nat) (e e' : Entry), p.table.entries[i]? = some e →
          p'.table.entries[i]? = some e' →
            e.row p.layout.threshold = e'.row p'.layout.threshold) ∧
        p.body.outline p.layout.threshold = p'.body.outline p'.layout.threshold) := by
  have hread {d : Draft} {head : NodeId} {t : Tree} {c : Config} {treeId : UInt32} {p : Program}
      (hb : d.build head = .ok t) (hp : Program.lower c t.annotate treeId = .ok p) :
      readDefinition p.definition = some (p.rows, p.outline) := by
    apply Program.read_definition
    have htree : p.tree = t.annotate := congrArg Program.tree (Program.lower_eq_ok hp).2.2.2
    rw [htree]
    exact show Inline t.name from inline_name_of_build hb
  refine ⟨hread hb hp, fun htext => ?_⟩
  have hsame : some (p.rows, p.outline) = some (p'.rows, p'.outline) := by
    rw [← hread hb hp, htext, hread hb' hp']
  obtain ⟨hrows, houtline⟩ := Prod.mk.inj (Option.some.inj hsame)
  refine ⟨?_, fun i e e' he he' => ?_, houtline⟩
  · simpa [Program.rows, Table.size] using congrArg List.length hrows
  · have hrow : p.rows[i]? = p'.rows[i]? := by rw [hrows]
    simpa [Program.rows, he, he'] using hrow

theorem definition_decodes_lopsided : ∃ t p p', lopsided.build 0 = .ok t ∧
    Program.lower (.ofArchitecture .arm) t.annotate 3 = .ok p ∧
    Program.lower (.ofArchitecture .intel) t.annotate 3 = .ok p' ∧
    readDefinition p.definition = some (p.rows, p.outline) ∧
      (p.definition = p'.definition → p.table.size = p'.table.size ∧
        (∀ (i : Nat) (e e' : Entry), p.table.entries[i]? = some e →
          p'.table.entries[i]? = some e' →
            e.row p.layout.threshold = e'.row p'.layout.threshold) ∧
        p.body.outline p.layout.threshold = p'.body.outline p'.layout.threshold) := by
  obtain ⟨t, ht⟩ := exists_build_lopsided
  have hroot := (build_wellFormed ht).annotate 1
  obtain ⟨p, hp, -⟩ :=
    Program.exists_lower (t := t.annotate) hroot.distinct rfl (.ofArchitecture .arm) 3
  obtain ⟨p', hp', -⟩ :=
    Program.exists_lower (t := t.annotate) hroot.distinct rfl (.ofArchitecture .intel) 3
  exact ⟨t, p, p', ht, hp, hp', definition_decodes ht ht hp hp'⟩

end Draft

end TreeCode
