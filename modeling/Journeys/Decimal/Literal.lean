import Journeys.Decimal.Binary

/-!
# Decimal literals

A number in a text is a decimal of any length; a double is read off it with one rounding to each of
three steps. Digits are gathered into a 64-bit significand as long as it does not overflow; digits
beyond that are dropped, those before the point counting as powers of ten. The significand is
rounded to a double, and that is multiplied or divided by a power of ten. This is the nearest double
for short literals and can be a neighbour of it for long ones. A number too large for a double is no
number, and one too small is zero.
-/

namespace Journeys

/-- A number as it is written: sign, digits before and after the point, and exponent. -/
structure DecimalLiteral where
  /-- Whether there is a minus sign. -/
  negative : Bool
  /-- The digits before the point. -/
  whole : List Nat
  /-- The digits after the point. -/
  fraction : List Nat
  /-- The written exponent, zero if there is none. -/
  exponent : Int
deriving DecidableEq, Repr

namespace DecimalLiteral

/-- The literal of an integer. -/
def ofInt (n : Int) : DecimalLiteral :=
  { negative := n < 0
    whole := (Nat.toDigits 10 n.natAbs).map fun c => c.toNat - 48
    fraction := []
    exponent := 0 }

/-- Appends digits to a number until it would leave 64 bits; answers the number and the digits that
are left over. -/
def gather (n : Nat) : List Nat → Nat × List Nat
  | [] => (n, [])
  | d :: ds => if n * 10 + d ≤ 18446744073709551615 then gather (n * 10 + d) ds else (n, d :: ds)

/-- The significand of a literal and the power of ten that it counts. -/
def significand (l : DecimalLiteral) : Nat × Int :=
  let (whole, dropped) := gather 0 l.whole
  let (all, unread) := gather whole l.fraction
  (all, l.exponent + dropped.length - (l.fraction.length - unread.length : Nat))

/-- The power of ten that scaling goes by: the largest below every overflow. -/
def largestPower : Nat := 308

/-- The double nearest to a power of ten. -/
def tenTo (power : Nat) : Float := Float.ofScientific 1 false power

/-- A double times a power of ten, unless that is too large. A large negative power is taken off in
steps, of which `fuel` many are enough if it is at least one more than the power holds
`largestPower`s. -/
def scale? : Nat → Float → Int → Option Float
  | 0, x, _ => some x
  | fuel + 1, x, power =>
    if power.natAbs ≤ largestPower then
      if power < 0 then
        some (x / tenTo power.natAbs)
      else
        let scaled := x * tenTo power.natAbs
        if scaled.isInf then none else some scaled
    else if x == 0.0 then
      some x
    else if 0 < power then
      none
    else
      scale? fuel (x / tenTo largestPower) (power + largestPower)

/-- The double that a literal is read as, unless it is too large. -/
def toFloat? (l : DecimalLiteral) : Option Float :=
  let (digits, power) := l.significand
  let magnitude := scale? (power.natAbs / largestPower + 1) (floatOfInt digits) power
  magnitude.map fun x => if l.negative then -x else x

end DecimalLiteral

end Journeys
