/-! # Decimal numerals

A numeral is an optional sign, digits, an optional point with more digits and an optional
exponent. Scanning takes the longest such stretch of the input, whether or not it denotes a
number; it does if there is a digit before the exponent, and one in the exponent if the exponent
is there. The number denoted is the nearest one of double precision. Main statement: the numeral
as written and the rest make up the input. -/

namespace TreeCode

/-- The value of a row of decimal digits. -/
def digitsValue (cs : List Char) : Nat :=
  cs.foldl (fun n c => 10 * n + (c.toNat - '0'.toNat)) 0

def scanDigits (cs : List Char) : List Char × List Char :=
  (cs.takeWhile Char.isDigit, cs.dropWhile Char.isDigit)

/-- At most one character of the given kind. -/
def scanOne (p : Char → Bool) : List Char → List Char × List Char
  | [] => ([], [])
  | c :: cs => if p c then ([c], cs) else ([], c :: cs)

/-- Scan on only where `found` holds something. -/
def scanAfter (found : List Char) (scan : List Char → List Char × List Char) (cs : List Char) :
    List Char × List Char :=
  if found.isEmpty then ([], cs) else scan cs

theorem scanDigits_append (cs : List Char) : (scanDigits cs).1 ++ (scanDigits cs).2 = cs :=
  List.takeWhile_append_dropWhile

theorem scanOne_append (p : Char → Bool) (cs : List Char) :
    (scanOne p cs).1 ++ (scanOne p cs).2 = cs := by
  cases cs with
  | nil => rfl
  | cons c cs => simp only [scanOne]; split <;> rfl

theorem scanAfter_append (found : List Char) {scan : List Char → List Char × List Char}
    (h : ∀ cs, (scan cs).1 ++ (scan cs).2 = cs) (cs : List Char) :
    (scanAfter found scan cs).1 ++ (scanAfter found scan cs).2 = cs := by
  unfold scanAfter
  split
  · rfl
  · exact h cs

/-- The parts of a numeral as written; `sign`, `point`, `mark` and `exponentSign` hold at most
one character. -/
structure Numeral where
  sign : List Char
  whole : List Char
  point : List Char
  fraction : List Char
  mark : List Char
  exponentSign : List Char
  exponent : List Char
deriving DecidableEq, Repr

namespace Numeral

def isSign (c : Char) : Bool := c == '-' || c == '+'

def isPoint (c : Char) : Bool := c == '.'

def isMark (c : Char) : Bool := c == 'e' || c == 'E'

/-- The longest numeral at the start of the input, and the rest. -/
def scan (cs : List Char) : Numeral × List Char :=
  let (sign, cs) := scanOne isSign cs
  let (whole, cs) := scanDigits cs
  let (point, cs) := scanOne isPoint cs
  let (fraction, cs) := scanAfter point scanDigits cs
  let (mark, cs) := scanOne isMark cs
  let (exponentSign, cs) := scanAfter mark (scanOne isSign) cs
  let (exponent, cs) := scanAfter mark scanDigits cs
  (⟨sign, whole, point, fraction, mark, exponentSign, exponent⟩, cs)

/-- The numeral as written. -/
def text (n : Numeral) : List Char :=
  n.sign ++ n.whole ++ n.point ++ n.fraction ++ n.mark ++ n.exponentSign ++ n.exponent

theorem text_append_scan (cs : List Char) : (scan cs).1.text ++ (scan cs).2 = cs := by
  simp only [scan, text, List.append_assoc, scanAfter_append _ scanDigits_append,
    scanAfter_append _ (scanOne_append isSign), scanOne_append, scanDigits_append]

/-- Digits are where a number needs them. -/
def denotes (n : Numeral) : Bool :=
  !(n.whole ++ n.fraction).isEmpty && (n.mark.isEmpty || !n.exponent.isEmpty)

/-- The exponent of ten that the digits are multiplied by, when they are read as an integer. -/
def scale (n : Numeral) : Int :=
  let e : Int := digitsValue n.exponent
  (if n.exponentSign = ['-'] then -e else e) - n.fraction.length

/-- The number nearest to the absolute value. -/
def magnitude (n : Numeral) : Float :=
  OfScientific.ofScientific (digitsValue (n.whole ++ n.fraction)) (decide (n.scale < 0))
    n.scale.natAbs

/-- The number denoted, if there is one. -/
def value? (n : Numeral) : Option Float :=
  if n.denotes then some (if n.sign = ['-'] then -n.magnitude else n.magnitude) else none

end Numeral

/-- The digits of a text, after a sign if there is one. -/
def unsigned? (isSign : Char → Bool) (cs : List Char) : Option Nat :=
  let digits := (scanOne isSign cs).2
  if digits.isEmpty || !digits.all Char.isDigit then none else some (digitsValue digits)

/-- A number below `limit`, in decimal digits with an optional plus sign. -/
def readUnsigned? (limit : Nat) (cs : List Char) : Option Nat :=
  (unsigned? (· == '+') cs).filter (· < limit)

/-- A number below `limit`, in decimal digits with an optional sign; a minus sign is for zero
alone. -/
def readSigned? (limit : Nat) (cs : List Char) : Option Nat :=
  (unsigned? Numeral.isSign cs).filter fun n =>
    n < limit && (n == 0 || (scanOne Numeral.isSign cs).1 != ['-'])

/-- The number that a whole text denotes. -/
def readNumber? (cs : List Char) : Option Float :=
  match Numeral.scan cs with
  | (n, []) => n.value?
  | _ => none

end TreeCode
