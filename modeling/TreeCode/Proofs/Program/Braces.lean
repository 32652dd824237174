import TreeCode.Proofs.Program.Decoding
import TreeCode.Proofs.Program.Names

/-! # Braces of a definition

Read from left to right, a definition closes no brace that is not open, and leaves none open
(`Program.nesting_definition`). Names, numbers and literals have no braces, so the braces are those
of the lines: a statement closes what it opens, and so do the table, the loop and the function. -/

namespace TreeCode

/-! ### Counting -/

/-- The number of open braces behind one more character. -/
def nest (depth : Nat) (c : Char) : Option Nat :=
  if c = '\x7b' then some (depth + 1)
  else if c = '\x7d' then (if depth = 0 then none else some (depth - 1))
  else some depth

/-- The number of open braces behind a text, if it closes none that is not open. -/
def nesting (depth : Nat) (s : String) : Option Nat := s.toList.foldlM nest depth

section nesting

variable {s : String} {depth : Nat}

theorem nesting_append (depth : Nat) (s t : String) :
    nesting depth (s ++ t) = (nesting depth s).bind (nesting · t) := by
  rw [nesting, String.toList_append, List.foldlM_append]
  rfl

theorem nesting_of_ne (h : ∀ c ∈ s.toList, c ≠ '\x7b' ∧ c ≠ '\x7d') (depth : Nat) :
    nesting depth s = some depth := by
  rw [nesting]
  generalize s.toList = cs at h
  induction cs with
  | nil => rfl
  | cons c cs ih =>
      rw [List.forall_mem_cons] at h
      rw [List.foldlM_cons, nest, if_neg h.1.1, if_neg h.1.2]
      exact ih h.2

theorem nesting_of_unbraced (h : Unbraced s) : nesting depth s = some depth :=
  nesting_of_ne (fun c hc => (isUnbraced_iff.1 (h c hc)).2) depth

theorem nesting_open (h : Unbraced s) : nesting depth (s ++ "\x7b") = some (depth + 1) := by
  rw [nesting_append, nesting_of_unbraced h]
  rfl

@[simp] theorem nesting_close : nesting (depth + 1) "\x7d" = some depth := by
  simp [nesting, nest]

@[simp] theorem nesting_else : nesting (depth + 1) "\x7d else \x7b" = some (depth + 1) := by
  simp [nesting, nest]

@[simp] theorem nesting_initialiser (type : CType) (e : Entry) :
    nesting depth (e.initialiser type) = some depth := by
  obtain ⟨fields, hfields, htext⟩ := exists_initialiser_eq type e
  have hopen : nesting depth "\x7b" = some (depth + 1) := rfl
  have hclose : nesting (depth + 1) "\x7d," = some depth := by simp [nesting, nest]
  rw [htext, nesting_append, nesting_append, hopen, Option.bind_some, nesting_of_unbraced hfields,
    Option.bind_some, hclose]

end nesting

/-! ### Lines -/

section lines

variable {depth : Nat}

@[simp] theorem nesting_renderLines_nil (depth : Nat) :
    nesting depth (renderLines []) = some depth :=
  rfl

@[simp] theorem nesting_renderLines_cons (depth : Nat) (l : Line) (ls : List Line) :
    nesting depth (renderLines (l :: ls)) =
      (nesting depth l.text).bind fun depth => nesting depth (renderLines ls) := by
  have htabs : nesting depth (String.ofList (List.replicate l.indent '\t')) = some depth := by
    refine nesting_of_ne (fun c hc => ?_) depth
    rw [String.toList_ofList] at hc
    rw [List.eq_of_mem_replicate hc]
    decide
  have hend (depth : Nat) : nesting depth "\n" = some depth := rfl
  rw [renderLines, List.map_cons, String.join_cons, nesting_append, Line.render, nesting_append,
    nesting_append, htabs, Option.bind_some]
  simp only [hend, Option.bind_fun_some]
  rfl

@[simp] theorem nesting_renderLines_append (depth : Nat) (ls ls' : List Line) :
    nesting depth (renderLines (ls ++ ls')) =
      (nesting depth (renderLines ls)).bind fun depth => nesting depth (renderLines ls') := by
  induction ls generalizing depth with
  | nil => rfl
  | cons l ls ih => simp [ih, Option.bind_assoc]

theorem nesting_rows (type : CType) (d : Nat) (es : List Entry) :
    nesting depth (renderLines (es.map fun e => ⟨d, e.initialiser type⟩)) = some depth := by
  induction es with
  | nil => rfl
  | cons e es ih => simp [ih]

end lines

/-- **Statements** close the braces that they open. -/
theorem nesting_listing {label : String} (hlabel : Unbraced label) (type : CType) (d : Nat)
    (s : Statement) (depth : Nat) :
    nesting depth (renderLines (s.listing type label d)) = some depth := by
  have hgoto : Unbraced s!"goto {label};" := .append (.append (by decide) hlabel) (by decide)
  induction s generalizing d depth with
  | ret p => simp [Statement.listing, nesting_of_unbraced (unbraced_ret p)]
  | fallback node entry =>
      simp only [Statement.listing, nesting_renderLines_cons, nesting_renderLines_nil,
        nesting_of_unbraced (unbraced_set entry), nesting_of_unbraced hgoto, Option.bind_some]
  | branch node test a b iha ihb =>
      simp [Statement.listing, nesting_open (unbraced_test type test), iha, ihb]

/-! ### Definitions -/

namespace Program

variable {p : Program} (hname : isIdentifier p.tree.name.toList = true)
include hname

theorem unbraced_symbol (k : Symbols.Kind) : Unbraced (p.symbols.get k) :=
  unbraced_of_isIdentifier (Symbols.isIdentifier_get_ofTree hname p.treeId k)

theorem nesting_titleLine (depth : Nat) : nesting depth p.titleLine.text = some (depth + 1) := by
  have hrecord : Unbraced p.symbols.record := unbraced_symbol hname .record
  have htable : Unbraced p.symbols.table := unbraced_symbol hname .table
  have hnames : Unbraced
      ("static const struct " ++ p.symbols.record ++ " " ++ p.symbols.table ++ "[") :=
    .append (.append (.append (.append (by decide) hrecord) (by decide)) htable) (by decide)
  have htext : Unbraced
      s!"static const struct {p.symbols.record} {p.symbols.table}[{p.table.size}] = " :=
    .append (.append hnames (unbraced_toString_nat p.table.size)) (by decide)
  exact nesting_open htext

theorem nesting_middleLines (depth : Nat) :
    nesting (depth + 1) (renderLines p.middleLines) = some (depth + 1) := by
  have hpredict : Unbraced p.symbols.predict := unbraced_symbol hname .predict
  have hend : nesting (depth + 1) "\x7d;" = some depth := by simp [nesting, nest]
  have hprototype : nesting depth (p.prototype ++ " \x7b") = some (depth + 1) := by
    obtain ⟨front, back, hfront, hback, htext⟩ := p.exists_prototype_eq
    have hopen : nesting depth " \x7b" = some (depth + 1) := by simp [nesting, nest]
    rw [htext, nesting_append, nesting_of_unbraced ((hfront.append hpredict).append hback),
      Option.bind_some, hopen]
  have hblank : nesting depth "" = some depth := rfl
  simp [middleLines, hend, hprototype, hblank]

theorem unbraced_around_table {front back : String} (hfront : Unbraced front)
    (hback : Unbraced back) : Unbraced (front ++ p.symbols.table ++ back) :=
  (hfront.append (unbraced_symbol hname .table)).append hback

theorem unbraced_loopTest :
    Unbraced s!"if (pX[{p.symbols.table}[i].feature] <= {p.symbols.table}[i].split) " :=
  .append (.append (unbraced_around_table hname (by decide) (by decide))
    (unbraced_symbol hname .table)) (by decide)

theorem nesting_loopLines (depth : Nat) :
    nesting depth (renderLines p.loopLines) = some depth := by
  have hlabel : Unbraced s!"{p.symbols.fallback}:" :=
    (unbraced_symbol hname .fallback).append (by decide)
  have hcursor : Unbraced s!"{p.layout.index.name} i = subroot;" :=
    (unbraced_name p.layout.index).append (by decide)
  have hwhile : Unbraced s!"while (!{p.symbols.table}[i].isLeaf) " :=
    unbraced_around_table hname (by decide) (by decide)
  have hleft : Unbraced s!"i = {p.symbols.table}[i].leftChild;" :=
    unbraced_around_table hname (by decide) (by decide)
  have hright : Unbraced s!"i = {p.symbols.table}[i].rightChild;" :=
    unbraced_around_table hname (by decide) (by decide)
  have hreturn : Unbraced s!"return {p.symbols.table}[i].prediction;" :=
    unbraced_around_table hname (by decide) (by decide)
  have hopen (depth : Nat) : nesting depth "\x7b" = some (depth + 1) := rfl
  simp [loopLines, hopen, nesting_open hwhile, nesting_open (unbraced_loopTest hname),
    nesting_of_unbraced hlabel, nesting_of_unbraced hcursor, nesting_of_unbraced hleft,
    nesting_of_unbraced hright, nesting_of_unbraced hreturn]

/-- **Braces of a definition** are balanced. -/
theorem nesting_definition : nesting 0 p.definition = some 0 := by
  have hcursor : nesting 1 (renderLines p.cursorLines) = some 1 := by
    have htext : Unbraced s!"{p.layout.index.name} subroot;" :=
      (unbraced_name p.layout.index).append (by decide)
    rw [cursorLines]
    split
    · simp [nesting_of_unbraced htext]
    · rfl
  have htail : nesting 1 (renderLines p.tailLines) = some 0 := by
    rw [tailLines]
    split
    · simp [nesting_loopLines hname]
    · simp
  have hinline : nesting 1 (renderLines p.inlineLines) = some 1 := by
    rw [inlineLines, nesting_renderLines_append, hcursor]
    exact nesting_listing (unbraced_symbol hname .fallback) _ _ _ _
  rw [definition, definitionLines_eq_append]
  simp [nesting_titleLine hname, rowLines, nesting_rows, nesting_middleLines hname, hinline, htail]

end Program
end TreeCode
