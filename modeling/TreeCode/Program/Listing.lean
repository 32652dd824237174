import TreeCode.Program.Basic

/-! # C text of a program

The declaration has the prototype of the predict function and the record type of the table
entries; the definition has the table and the function. Where some part of the tree is left to
the table, the function ends in a loop that walks the table from a cursor, and the statements
jump to it after they have set the cursor. Texts are put together from lines. -/

namespace TreeCode

/-- A line of text behind so many tabs. -/
structure Line where
  indent : Nat
  text : String
deriving DecidableEq, Repr

def Line.render (l : Line) : String :=
  String.ofList (List.replicate l.indent '\t') ++ l.text ++ "\n"

def renderLines (ls : List Line) : String := String.join (ls.map Line.render)

/-! ### Entries and statements -/

def boolText (b : Bool) : String := if b then "true" else "false"

/-- The initialiser of a table entry, with the threshold as a literal of the given type. -/
def Entry.initialiser (type : CType) (e : Entry) : String :=
  "\x7b" ++ ", ".intercalate
    [boolText e.isLeaf, s!"{e.prediction}", s!"{e.feature}",
      String.ofList (type.literal e.threshold), s!"{e.left}", s!"{e.right}"] ++ "\x7d,"

/-- The condition of a branch, with the threshold as a literal of the given type. -/
def Test.condition (type : CType) (t : Test) : String :=
  s!"pX[{t.feature}] {t.comparison.symbol} {String.ofList (type.literal t.threshold)}"

/-- The lines of a statement that jumps to the given label where it leaves off. -/
def Statement.listing (type : CType) (label : String) : Nat → Statement → List Line
  | d, ret p => [⟨d, s!"return {p};"⟩]
  | d, fallback _ entry => [⟨d, s!"subroot = {entry};"⟩, ⟨d, s!"goto {label};"⟩]
  | d, branch _ test a b =>
      ⟨d, s!"if ({test.condition type}) " ++ "\x7b"⟩ :: a.listing type label (d + 1) ++
        ⟨d, "\x7d else \x7b"⟩ :: b.listing type label (d + 1) ++ [⟨d, "\x7d"⟩]

namespace Program

variable (p : Program)

/-! ### Declaration -/

def prototype : String :=
  s!"unsigned int {p.symbols.predict}({p.tree.featureType.cName} const pX[{p.tree.dim}])"

def declarationLines : List Line :=
  [⟨0, "#include <stdbool.h>"⟩, ⟨0, ""⟩, ⟨0, p.prototype ++ ";"⟩, ⟨0, ""⟩,
    ⟨0, s!"struct {p.symbols.record} " ++ "\x7b"⟩,
    ⟨1, "bool isLeaf;"⟩,
    ⟨1, "unsigned int prediction;"⟩,
    ⟨1, s!"{p.layout.feature.name} feature;"⟩,
    ⟨1, s!"{p.layout.threshold.name} split;"⟩,
    ⟨1, s!"{p.layout.index.name} leftChild;"⟩,
    ⟨1, s!"{p.layout.index.name} rightChild;"⟩,
    ⟨0, "\x7d;"⟩]

def declaration : String := renderLines p.declarationLines

/-! ### Definition -/

def tableLines : List Line :=
  let type := p.layout.threshold
  ⟨0, s!"static const struct {p.symbols.record} {p.symbols.table}[{p.table.size}] = " ++
      "\x7b"⟩ ::
    p.table.entries.toList.map (fun e => ⟨1, e.initialiser type⟩) ++ [⟨0, "\x7d;"⟩]

/-- The label and the loop that walks the table from the cursor. -/
def loopLines : List Line :=
  let table := p.symbols.table
  [⟨0, s!"{p.symbols.fallback}:"⟩,
    ⟨1, "\x7b"⟩,
    ⟨2, s!"{p.layout.index.name} i = subroot;"⟩,
    ⟨2, s!"while (!{table}[i].isLeaf) " ++ "\x7b"⟩,
    ⟨3, s!"if (pX[{table}[i].feature] <= {table}[i].split) " ++ "\x7b"⟩,
    ⟨4, s!"i = {table}[i].leftChild;"⟩,
    ⟨3, "\x7d else \x7b"⟩,
    ⟨4, s!"i = {table}[i].rightChild;"⟩,
    ⟨3, "\x7d"⟩,
    ⟨2, "\x7d"⟩,
    ⟨2, s!"return {table}[i].prediction;"⟩,
    ⟨1, "\x7d"⟩]

def hasFallback : Bool := decide (0 < p.body.fallbackSites)

def functionLines : List Line :=
  ⟨0, p.prototype ++ " \x7b"⟩ ::
    (if p.hasFallback then [⟨1, s!"{p.layout.index.name} subroot;"⟩] else []) ++
    p.body.listing p.layout.threshold p.symbols.fallback 1 ++
    (if p.hasFallback then p.loopLines else []) ++ [⟨0, "\x7d"⟩]

def definitionLines : List Line := p.tableLines ++ ⟨0, ""⟩ :: p.functionLines

def definition : String := renderLines p.definitionLines

end Program

/-- Both texts of a program. -/
structure GeneratedCode where
  declaration : String
  definition : String
deriving DecidableEq, Repr

def Program.assemble (p : Program) : GeneratedCode := ⟨p.declaration, p.definition⟩

end TreeCode
