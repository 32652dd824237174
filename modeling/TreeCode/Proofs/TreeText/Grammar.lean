import Mathlib.Data.List.Chain
import TreeCode.Proofs.Number.Scanning
import TreeCode.TreeText.Parse

/-! # The grammar of tree texts

What a tree text says is spelled as a row of tokens (`Source.Spelled`); a number may be written in
several ways. A text is a layout of tokens if it holds them in order, with blanks and comments
between them, which are needed only where the next token would be read as part of the one before
(`IsLayout`). -/

namespace TreeCode.TreeText

/-! ### Tokens -/

inductive Token where
  | word (w : String)
  /-- A row of digits. -/
  | digits (ds : List Char)
  | literal (n : Numeral)
  | sign (s : String)
deriving DecidableEq

namespace Token

def text : Token → List Char
  | word w => w.toList
  | digits ds => ds
  | literal n => n.text
  | sign s => s.toList

/-- A character right after the token would be read as part of it. -/
def goesOnWith : Token → Char → Bool
  | word _, c => continuesWord c
  | digits _, c => c.isDigit
  | literal n, c => n.goesOnWith c
  | sign _, _ => false

/-- Without anything in between, the second token would be read as part of the first one. -/
def runsInto (t u : Token) : Bool := u.text.head?.any t.goesOnWith

end Token

/-! ### Layouts -/

/-- Blanks, and comments through the ends of their lines. -/
inductive Separator : List Char → Prop where
  | nil : Separator []
  | blank {c : Char} {s : List Char} : Text.isBlank c → Separator s → Separator (c :: s)
  | comment {line s : List Char} : '\n' ∉ line → Separator s →
      Separator (';' :: (line ++ '\n' :: s))

/-- A text may end in a comment without the end of its line. -/
inductive Ending : List Char → Prop where
  | separator {s : List Char} : Separator s → Ending s
  | comment {s line : List Char} : Separator s → '\n' ∉ line → Ending (s ++ ';' :: line)

/-- The tokens are laid out from the start of the text on. -/
inductive Laid : List Token → List Char → Prop where
  | last {t : Token} {ending : List Char} : Ending ending → Laid [t] (t.text ++ ending)
  | next {t u : Token} {ts : List Token} {s rest : List Char} : Separator s →
      (s = [] → t.runsInto u = false) → Laid (u :: ts) rest →
        Laid (t :: u :: ts) (t.text ++ (s ++ rest))

/-- The text is a layout of the tokens. -/
def IsLayout (ts : List Token) (text : List Char) : Prop :=
  ∃ s rest, Separator s ∧ text = s ++ rest ∧ Laid ts rest

/-! ### Spelling -/

/-- A letter or an underscore, and then letters, numerals and underscores. -/
def isWord (w : String) : Bool :=
  match w.toList with
  | [] => false
  | c :: cs => startsWord c && cs.all continuesWord

/-- The digits stand for the number; zeros may come first. -/
def Denotes (ds : List Char) (n : Nat) : Prop :=
  ds ≠ [] ∧ (∀ c ∈ ds, c.isDigit) ∧ digitsValue ds = n

instance (ds : List Char) (n : Nat) : Decidable (Denotes ds n) :=
  decidable_of_iff (ds ≠ [] ∧ ds.all Char.isDigit ∧ digitsValue ds = n) (by
    rw [List.all_eq_true, Denotes])

inductive NamedRule.Spelled : NamedRule → List Token → Prop where
  | leaf {p : UInt32} {ds : List Char} : Denotes ds p.toNat →
      Spelled (.leaf p) [.word "leaf", .digits ds]
  | split {f : UInt32} {x : Float} {l r : String} {ds : List Char} {n : Numeral} :
      Denotes ds f.toNat → n.WellFormed → n.value? = some x → isWord l → isWord r →
        Spelled (.split f x l r) [.word "split", .digits ds, .sign "<=", .literal n, .sign "?",
          .word l, .sign ":", .word r]

/-- The number of training samples may be left out. -/
inductive SamplesSpelled : Option UInt64 → List Token → Prop where
  | none : SamplesSpelled none []
  | some {n : UInt64} {ds : List Char} : Denotes ds n.toNat →
      SamplesSpelled (some n) [.word "samples", .digits ds]

inductive Definition.Spelled : Definition → List Token → Prop where
  | mk {name : String} {rule : NamedRule} {samples : Option UInt64} {ts us : List Token} :
      isWord name → rule.Spelled ts → SamplesSpelled samples us →
        Spelled ⟨name, rule, samples⟩ (.word name :: .sign ":" :: (ts ++ us))

inductive DefinitionsSpelled : List Definition → List Token → Prop where
  | nil : DefinitionsSpelled [] []
  | cons {d : Definition} {ds : List Definition} {ts us : List Token} : d.Spelled ts →
      DefinitionsSpelled ds us → DefinitionsSpelled (d :: ds) (ts ++ us)

inductive Source.Spelled : Source → List Token → Prop where
  | mk {name : String} {dim : UInt32} {type : FeatureType} {ds : List Definition}
      {digits : List Char} {ts : List Token} : isWord name → Denotes digits dim.toNat →
      DefinitionsSpelled ds ts →
        Spelled ⟨name, dim, type, ds⟩ (.word "tree" :: .word name :: .word "dim" ::
          .digits digits :: .word type.keyword :: .sign "\x7b" :: (ts ++ [.sign "\x7d"]))

/-- The names of definitions, in their order. -/
def names (ds : List Definition) : List String := ds.map (·.name)

/-- The name `samples` right after a definition would be read as the word for its samples, if these
were left out. -/
def Source.Unambiguous (s : Source) : Prop :=
  s.definitions.IsChain fun d e => d.samples = none → e.name ≠ "samples"

end TreeCode.TreeText
