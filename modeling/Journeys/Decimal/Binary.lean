/-!
# The value of a floating-point number

A finite double is `± m * 2 ^ q` for natural `m`, and every exact question about one (which whole
number is nearest, which decimals read back as it) is a question about `m` and `q`.
`FloatValue.ofFloat` splits the 64 bits into these parts.
-/

namespace Journeys

/-- What a double stands for. -/
inductive FloatValue where
  /-- Not a number. -/
  | nan
  /-- Infinity of either sign. -/
  | infinite (negative : Bool)
  /-- The number `± m * 2 ^ q`; zero has a sign of its own. -/
  | finite (negative : Bool) (m : Nat) (q : Int)
deriving DecidableEq, Repr

namespace FloatValue

/-- `2 ^ 52`: the least significand of a double that has all its 53 bits. -/
def leastFull : Nat := 4503599627370496

/-- The parts of a 64-bit pattern: a sign bit, 11 bits of exponent, 52 bits of fraction. -/
def ofBits (bits : Nat) : FloatValue :=
  let negative := bits.testBit 63
  let exponent : Nat := (bits >>> 52) % 2048
  let fraction : Nat := bits % leastFull
  if exponent = 2047 then
    if fraction = 0 then infinite negative else nan
  else if exponent = 0 then
    finite negative fraction (-1074)
  else
    finite negative (leastFull + fraction) (exponent - 1075)

/-- The value of a double. -/
def ofFloat (x : Float) : FloatValue := ofBits x.toBits.toNat

/-- The natural number nearest to `m * 2 ^ q`; a half goes up. -/
def nearest (m : Nat) (q : Int) : Nat :=
  if 0 ≤ q then m <<< q.toNat else (2 * m + 1 <<< (-q).toNat) >>> ((-q).toNat + 1)

/-- The natural number nearest to a value, at most `bound`. Negative values and what is no number
go to zero. -/
def nearestUpTo (bound : Nat) : FloatValue → Nat
  | nan => 0
  | infinite negative => if negative then 0 else bound
  | finite negative m q => if negative then 0 else min (nearest m q) bound

/-- The nearest natural number stays within the bound. -/
theorem nearestUpTo_le (bound : Nat) (v : FloatValue) : v.nearestUpTo bound ≤ bound := by
  cases v with
  | nan => exact Nat.zero_le _
  | infinite negative =>
    show (if negative then 0 else bound) ≤ bound
    split <;> omega
  | finite negative m q =>
    show (if negative then 0 else min (nearest m q) bound) ≤ bound
    split <;> omega

end FloatValue

/-- The double nearest to a whole number whose magnitude is below `2^64`. -/
def floatOfInt (n : Int) : Float :=
  let magnitude := (UInt64.ofNat n.natAbs).toFloat
  if n < 0 then -magnitude else magnitude

end Journeys
