import TreeCode.Text.Alphabetic
import TreeCode.Text.Blank
import TreeCode.Text.Lines
import TreeCode.Text.Numeric
import TreeCode.Number.Numeral
import TreeCode.TreeText.Fault

/-! # Reading tokens

A reader takes a token from the start of the input, after blanks and comments, and leaves the
rest. Main statements: no reader makes the input longer, and every reader of a token makes it
shorter. -/

namespace TreeCode.TreeText

abbrev Reader := StateT (List Char) (Except Stop)

/-- Stop at the place that reading has come to. -/
def fail {α : Type} (cause : Cause) : Reader α := fun cs => .error (.fault cause cs)

/-! ### Blanks and comments -/

/-- Drop blanks and comments; a comment goes from a semicolon through the end of its line. The
flag tells that the input starts inside a comment. -/
def skipFrom : Bool → List Char → List Char
  | _, [] => []
  | true, c :: cs => skipFrom (c != '\n') cs
  | false, c :: cs =>
      if c = ';' then skipFrom true cs
      else if Text.isBlank c then skipFrom false cs
      else c :: cs

def skip (cs : List Char) : List Char := skipFrom false cs

/-! ### Tokens -/

def startsWord (c : Char) : Bool := Text.isAlphabetic c || c == '_'

def continuesWord (c : Char) : Bool := Text.isAlphabetic c || Text.isNumeric c || c == '_'

/-- An identifier of the text format: letters, numerals and underscores of any script, with no
numeral in front. -/
def word : Reader String := fun cs =>
  match skip cs with
  | [] => .error (.fault (.expectedIdentifier none) [])
  | c :: cs =>
      if startsWord c then
        .ok (String.ofList (c :: cs.takeWhile continuesWord), cs.dropWhile continuesWord)
      else .error (.fault (.expectedIdentifier (some c)) (c :: cs))

def keyword (k : String) : Reader Unit := do
  let found ← word
  if found = k then pure () else fail (.expectedKeyword k found)

def char (c : Char) : Reader Unit := fun cs =>
  match skip cs with
  | [] => .error (.fault (.expectedChar c none) [])
  | d :: cs => if d = c then .ok ((), cs) else .error (.fault (.expectedChar c (some d)) (d :: cs))

/-- The comparison sign of a split. -/
def lessEqual : Reader Unit := fun cs =>
  match skip cs with
  | '<' :: '=' :: cs => .ok ((), cs)
  | cs => .error (.fault (.expectedSign "<=") cs)

/-- The number that a row of digits denotes, if it fits into 64 bits. -/
def unsignedValue? (digits : List Char) : Option UInt64 :=
  if digits.isEmpty then none
  else if digitsValue digits < UInt64.size then some (UInt64.ofNat (digitsValue digits))
  else none

def unsigned : Reader UInt64 := fun cs =>
  let (digits, rest) := scanDigits (skip cs)
  match unsignedValue? digits with
  | some n => .ok (n, rest)
  | none => .error (.fault (.expectedUnsigned (String.ofList digits)) rest)

def unsigned32 (field : Field) : Reader UInt32 := do
  let n ← unsigned
  if n.toNat < UInt32.size then pure n.toUInt32 else fail (.tooWide field n.toNat)

def number : Reader Float := fun cs =>
  let (numeral, rest) := Numeral.scan (skip cs)
  match numeral.value? with
  | some x => .ok (x, rest)
  | none => .error (.fault (.expectedNumber (String.ofList numeral.text)) rest)

/-! ### Progress -/

variable {α β : Type}

/-- The rest is never longer than the input. -/
def Keeps (r : Reader α) : Prop :=
  ∀ cs a rest, r cs = .ok (a, rest) → rest.length ≤ cs.length

/-- The rest is always shorter than the input. -/
def Shrinks (r : Reader α) : Prop :=
  ∀ cs a rest, r cs = .ok (a, rest) → rest.length < cs.length

theorem Shrinks.keeps {r : Reader α} (h : Shrinks r) : Keeps r :=
  fun cs a rest e => Nat.le_of_lt (h cs a rest e)

theorem keeps_pure (a : α) : Keeps (pure a : Reader α) := by
  intro cs b rest h
  cases h
  exact Nat.le_refl _

theorem keeps_fail (cause : Cause) : Keeps (fail cause : Reader α) := by
  intro cs a rest h
  cases h

theorem bind_eq_ok {r : Reader α} {f : α → Reader β} {cs rest : List Char} {b : β}
    (h : (r >>= f) cs = .ok (b, rest)) :
    ∃ a mid, r cs = .ok (a, mid) ∧ f a mid = .ok (b, rest) := by
  cases e : r cs with
  | error s => simp [bind, StateT.bind, e, Except.bind] at h
  | ok p => exact ⟨p.1, p.2, rfl, by simpa [bind, StateT.bind, e, Except.bind] using h⟩

theorem Keeps.bind {r : Reader α} {f : α → Reader β} (hr : Keeps r) (hf : ∀ a, Keeps (f a)) :
    Keeps (r >>= f) := by
  intro cs b rest h
  obtain ⟨a, mid, h1, h2⟩ := bind_eq_ok h
  exact Nat.le_trans (hf a mid b rest h2) (hr cs a mid h1)

theorem Shrinks.bind {r : Reader α} {f : α → Reader β} (hr : Shrinks r)
    (hf : ∀ a, Keeps (f a)) : Shrinks (r >>= f) := by
  intro cs b rest h
  obtain ⟨a, mid, h1, h2⟩ := bind_eq_ok h
  exact Nat.lt_of_le_of_lt (hf a mid b rest h2) (hr cs a mid h1)

theorem length_dropWhile_le (p : Char → Bool) (cs : List Char) :
    (cs.dropWhile p).length ≤ cs.length :=
  (List.dropWhile_sublist p).length_le

theorem length_skipFrom_le (b : Bool) (cs : List Char) : (skipFrom b cs).length ≤ cs.length := by
  fun_induction skipFrom b cs <;> simp_all <;> omega

theorem length_skip_le (cs : List Char) : (skip cs).length ≤ cs.length :=
  length_skipFrom_le false cs

theorem shrinks_word : Shrinks word := by
  intro cs w rest h
  have hs := length_skip_le cs
  unfold word at h
  split at h
  · cases h
  next c cs' e =>
    split at h
    · cases h
      have := length_dropWhile_le continuesWord cs'
      rw [e, List.length_cons] at hs
      omega
    · cases h

theorem shrinks_char (c : Char) : Shrinks (char c) := by
  intro cs w rest h
  have hs := length_skip_le cs
  unfold char at h
  split at h
  · cases h
  next d cs' e =>
    split at h
    · cases h
      rw [e, List.length_cons] at hs
      omega
    · cases h

theorem shrinks_lessEqual : Shrinks lessEqual := by
  intro cs w rest h
  have hs := length_skip_le cs
  unfold lessEqual at h
  split at h
  next cs' e =>
    cases h
    rw [e, List.length_cons, List.length_cons] at hs
    omega
  · cases h

theorem keeps_unsigned : Keeps unsigned := by
  intro cs n rest h
  have hs := length_skip_le cs
  simp only [unsigned, scanDigits] at h
  split at h
  · cases h
    exact Nat.le_trans (length_dropWhile_le _ _) hs
  · cases h

theorem keeps_unsigned32 (field : Field) : Keeps (unsigned32 field) := by
  refine keeps_unsigned.bind fun n => ?_
  split
  · exact keeps_pure _
  · exact keeps_fail _

theorem keeps_number : Keeps number := by
  intro cs x rest h
  have hs := length_skip_le cs
  have hn := congrArg List.length (Numeral.text_append_scan (skip cs))
  rw [List.length_append] at hn
  simp only [number] at h
  split at h
  · cases h
    omega
  · cases h

end TreeCode.TreeText
