import TreeCode.Number.Exact

/-! # The shortest decimal that reads back

A finite floating-point number is the nearest one to every real number in an interval around
it. Among the decimals `digits · 10 ^ exponent` in that interval the ones with the largest
exponent have the fewest digits; of these the nearest to the number is taken, the larger one on
a tie. The search goes through the exponents downwards, in exact integer arithmetic. -/

namespace TreeCode

/-- The number `digits · 10 ^ exponent`. -/
structure Decimal where
  digits : Nat
  exponent : Int
deriving DecidableEq, Repr

namespace Decimal

open Float.Model (Format)

/-- An interval of rationals with a distinguished point, over one denominator. -/
structure Target where
  low : Nat
  value : Nat
  high : Nat
  den : Nat
  /-- The ends belong to the interval. -/
  closed : Bool

/-- The reals that round to `m · 2 ^ e` in the given format, for `0 < m`. A power of two has a
lower neighbour at half the distance unless it has the least exponent; a number with an even
mantissa attracts both ends. -/
def target (fmt : Format) (m : Nat) (e : Int) : Target :=
  let below := if m = Nat.pow 2 (fmt.mantissaBits - 1) ∧ fmt.minExponent < e then 1 else 2
  let up := Nat.pow 2 (e - 2).toNat
  { low := (4 * m - below) * up
    value := 4 * m * up
    high := (4 * m + 2) * up
    den := Nat.pow 2 (2 - e).toNat
    closed := m % 2 == 0 }

namespace Target

variable (t : Target)

def reaches (a b : Nat) : Bool := if t.closed then decide (a ≤ b) else decide (a < b)

/-- The multiple of `10 ^ k` to take for the value, if the interval has one. -/
def multiple? (k : Int) : Option Nat :=
  let scale := Nat.pow 10 (-k).toNat
  let step := Nat.pow 10 k.toNat * t.den
  let value := t.value * scale
  let floor := value / step
  let below := t.reaches (t.low * scale) (floor * step)
  let above := t.reaches ((floor + 1) * step) (t.high * scale)
  if below && (!above || decide (2 * (value - floor * step) < step)) then some floor
  else if above then some (floor + 1)
  else none

/-- Exponents from `k` down, as many as the first argument says. -/
def search : Nat → Int → Option Decimal
  | 0, _ => none
  | fuel + 1, k =>
      match t.multiple? k with
      | some digits => some ⟨digits, k⟩
      | none => search fuel (k - 1)

end Target

/-- An exponent `k` with `m · 2 ^ e < 10 ^ k`, at most four above the position of the first
digit. -/
def startExponent (m : Nat) (e : Int) : Int :=
  (m.log2 + 1 + e) * 30103 / 100000 + 2

/-- The shortest decimal of `m · 2 ^ e` in the given format, for `0 < m`. Seventeen digits are
enough for double precision. -/
def shortest (fmt : Format) (m : Nat) (e : Int) : Decimal :=
  ((target fmt m e).search 24 (startExponent m e)).getD ⟨m, e⟩

end Decimal

end TreeCode
