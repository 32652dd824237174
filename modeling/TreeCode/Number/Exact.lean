/-! # Exact values of floating-point numbers

A floating-point number is decoded into the value it stands for: a signed integer times a
power of two, or one of the values that are not numbers of that form. Decisions that need more
than one comparison (whether a number is integral, its integer part, its nearest neighbour in
single precision) are taken on the exact value. -/

namespace TreeCode

open Float.Model (UnpackedFloat Format)

/-- What a floating-point number stands for; a finite one is `±mantissa · 2 ^ exponent`. -/
inductive Exact where
  | nan
  | infinite (negative : Bool)
  | finite (negative : Bool) (mantissa : Nat) (exponent : Int)
deriving DecidableEq, Repr

namespace Exact

/-! ### Decoding -/

def isNegative : UnpackedFloat.Sign → Bool
  | .negative => true
  | .positive => false

def ofUnpacked : UnpackedFloat → Exact
  | .notANumber => nan
  | .infinity s => infinite (isNegative s)
  | .zero s => finite (isNegative s) 0 0
  | .finite s m e _ => finite (isNegative s) m e

/-- The value of a double-precision number. -/
def ofFloat (x : Float) : Exact := ofUnpacked x.toModel.unpack

def signOf (negative : Bool) : UnpackedFloat.Sign :=
  if negative then .negative else .positive

/-- The nearest value of single precision, an even mantissa winning a tie; values beyond the
range become infinite. -/
def single : Exact → Exact
  | nan => nan
  | infinite negative => infinite negative
  | finite negative m e =>
      ofUnpacked (UnpackedFloat.unpack Format.binary32 (UnpackedFloat.pack Format.binary32
        (UnpackedFloat.normalize Format.binary32 ((signOf negative).apply m) e
          (signOf negative))))

/-! ### Integers -/

/-- `mantissa · 2 ^ exponent`, rounded down. -/
def floorAbs (mantissa : Nat) (exponent : Int) : Nat :=
  if 0 ≤ exponent then mantissa * Nat.pow 2 exponent.toNat
  else mantissa / Nat.pow 2 (-exponent).toNat

/-- A finite value without a fractional part. -/
def isIntegral : Exact → Bool
  | finite _ m e => decide (0 ≤ e) || m % Nat.pow 2 (-e).toNat == 0
  | _ => false

/-- The integer part, rounded toward zero and kept between `low` and `high`; what is not a
number counts as zero. -/
def integerPart (low high : Int) : Exact → Int
  | nan => 0
  | infinite negative => if negative then low else high
  | finite negative m e =>
      max low (min high (if negative then -(floorAbs m e : Int) else floorAbs m e))

end Exact

/-- The fractional part of `x` is zero. -/
def isIntegral (x : Float) : Bool := (Exact.ofFloat x).isIntegral

/-- The integer part of `x` within the signed 64-bit integers. -/
def integerPart (x : Float) : Int :=
  (Exact.ofFloat x).integerPart Int64.minValue.toInt Int64.maxValue.toInt

/-- Position of `x` in the total order of floating-point numbers, where `-0` comes before `0`
and the values that are not numbers come last. -/
def totalRank (x : Float) : Int :=
  let bits : Int := x.toBits.toNat
  if bits ≤ Int64.maxValue.toInt then bits else Int64.maxValue.toInt - bits

end TreeCode
