import TreeCode.TreeText.Reader

/-! # Node definitions

The body of a tree text is a row of node definitions in braces. Each names a node, says what it
does, with children given by name, and may record its training samples. -/

namespace TreeCode.TreeText

/-- What a named node does. -/
inductive NamedRule where
  | leaf (prediction : UInt32)
  | split (feature : UInt32) (threshold : Float) (left right : String)
deriving DecidableEq

structure Definition where
  name : String
  rule : NamedRule
  samples : Option UInt64
deriving DecidableEq

/-! ### One definition -/

def splitRule : Reader NamedRule := do
  let feature ← unsigned32 .feature
  lessEqual
  let threshold ← number
  char '?'
  let left ← word
  char ':'
  let right ← word
  pure (.split feature threshold left right)

def leafRule : Reader NamedRule := do
  let prediction ← unsigned32 .prediction
  pure (.leaf prediction)

def rule : Reader NamedRule := do
  let kind ← word
  if kind = "leaf" then leafRule
  else if kind = "split" then splitRule
  else fail (.unknownRule kind)

/-- The word at the start of the input ends there. -/
def wordEnds : List Char → Bool
  | [] => true
  | c :: _ => !continuesWord c

/-- The number of training samples, where the word for it comes next. -/
def samplesClause : Reader (Option UInt64) := fun cs =>
  match Text.after? "samples".toList (skip cs) with
  | some rest => if wordEnds rest then (some <$> unsigned : Reader _) rest else .ok (none, skip cs)
  | none => .ok (none, skip cs)

def definition : Reader Definition := do
  let name ← word
  char ':'
  let rule ← rule
  let samples ← samplesClause
  pure ⟨name, rule, samples⟩

theorem keeps_splitRule : Keeps splitRule :=
  (keeps_unsigned32 _).bind fun _ => shrinks_lessEqual.keeps.bind fun _ =>
    keeps_number.bind fun _ => (shrinks_char _).keeps.bind fun _ =>
      shrinks_word.keeps.bind fun _ => (shrinks_char _).keeps.bind fun _ =>
        shrinks_word.keeps.bind fun _ => keeps_pure _

theorem keeps_rule : Keeps rule := by
  refine shrinks_word.keeps.bind fun kind => ?_
  split
  · exact (keeps_unsigned32 _).bind fun _ => keeps_pure _
  · split
    · exact keeps_splitRule
    · exact keeps_fail _

theorem keeps_samplesClause : Keeps samplesClause := by
  intro cs n rest h
  have hs := length_skip_le cs
  unfold samplesClause at h
  split at h
  next after e =>
    have hl := congrArg List.length (Text.after?_eq_some_iff.1 e)
    rw [List.length_append] at hl
    split at h
    · have hk : Keeps (some <$> unsigned : Reader (Option UInt64)) := by
        rw [map_eq_pure_bind]
        exact keeps_unsigned.bind fun _ => keeps_pure _
      have := hk _ _ _ h
      omega
    · cases h
      exact hs
  · cases h
    exact hs

theorem shrinks_definition : Shrinks definition :=
  shrinks_word.bind fun _ => (shrinks_char _).keeps.bind fun _ => keeps_rule.bind fun _ =>
    keeps_samplesClause.bind fun _ => keeps_pure _

/-! ### All definitions -/

/-- Definitions up to the closing brace, after the ones already known; a name that is already
known stops the reading. -/
def definitions (known : List Definition) (cs : List Char) :
    Except Stop (List Definition × List Char) :=
  match skip cs with
  | [] => .error (.fault .unclosed [])
  | c :: rest =>
      if c = '\x7d' then .ok (known, rest)
      else
        match _h : definition cs with
        | .error stop => .error stop
        | .ok (d, rest) =>
            if known.any (·.name == d.name) then .error (.duplicate d.name)
            else definitions (known ++ [d]) rest
termination_by cs.length
decreasing_by exact shrinks_definition _ _ _ _h

end TreeCode.TreeText
