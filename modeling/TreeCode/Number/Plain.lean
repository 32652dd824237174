import TreeCode.Number.Shortest

/-! # Numbers in plain notation

Numbers are written with the fewest digits that read back, never with an exponent: digits, and
a point with more digits only when there is a fractional part. -/

namespace TreeCode

open Float.Model (Format)

/-- Decimal digits of a natural number. -/
def natText (n : Nat) : List Char := Nat.toDigits 10 n

/-- Decimal digits of an integer, with a minus sign in front of a negative one. -/
def intText : Int → List Char
  | .ofNat n => natText n
  | .negSucc n => '-' :: natText (n + 1)

/-- At least `width` digits, filled up with zeros on the left. -/
def paddedText (width n : Nat) : List Char :=
  List.replicate (width - (natText n).length) '0' ++ natText n

/-- A decimal without an exponent. -/
def Decimal.plain (d : Decimal) : List Char :=
  if 0 ≤ d.exponent then natText (d.digits * Nat.pow 10 d.exponent.toNat)
  else
    let places := (-d.exponent).toNat
    let unit := Nat.pow 10 places
    natText (d.digits / unit) ++ '.' :: paddedText places (d.digits % unit)

def signText (negative : Bool) : List Char := if negative then ['-'] else []

/-- The text of a value of the given format; zero keeps its sign. -/
def Exact.plain (fmt : Format) : Exact → List Char
  | nan => ['N', 'a', 'N']
  | infinite negative => signText negative ++ ['i', 'n', 'f']
  | finite negative 0 _ => signText negative ++ ['0']
  | finite negative (m + 1) e => signText negative ++ (Decimal.shortest fmt (m + 1) e).plain

/-- The text of a number in double precision. -/
def doubleText (x : Float) : List Char := (Exact.ofFloat x).plain Format.binary64

/-- The text of a number after rounding it to single precision. -/
def singleText (x : Float) : List Char := (Exact.ofFloat x).single.plain Format.binary32

end TreeCode
