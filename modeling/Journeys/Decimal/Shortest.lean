import Journeys.Decimal.Binary

/-!
# Shortest decimals

The reals that round to a given double `m * 2 ^ q` form an interval around it, with its ends
included exactly when `m` is even. `Shortest.ofBinary` finds the decimal `n * 10 ^ s` in that
interval with the fewest digits, and of those the one nearest to the double: it tries the grids
`10 ^ s` from the coarsest that could hold a digit to the finest that 17 digits can need, and on
each looks at the two grid points next to the double. If any point of a grid lies in the interval,
one of these two does.

All comparisons are made between natural numbers, after both sides were multiplied by powers of
two and ten that clear the negative exponents.
-/

namespace Journeys

/-- A decimal `digits * 10 ^ exponent`. -/
structure Decimal where
  /-- The digits, as a number. -/
  digits : Nat
  /-- The power of ten that the last digit counts. -/
  exponent : Int
deriving DecidableEq, Repr

namespace Shortest

/-- How many decimal digits a number has; zero has one. -/
def digitCount (n : Nat) : Nat := n.repr.length

/-- The place of the first digit of `m * 2 ^ q`, for positive `m`: the number is below ten to this
power and not below ten to the power one less. No double is below `10 ^ (-324)`, so 400 further
places bring out every first digit. -/
def leadingPlace (m : Nat) (q : Int) : Int :=
  (digitCount ((m * Nat.pow 10 400) <<< q.toNat >>> (-q).toNat) : Int) - 400

/-- Four times the distance from a double to the lower end of its interval, counted in units of
`2 ^ q`: the next double below is half as far away when `m` is the least one of its power of
two. -/
def lowerReach (m : Nat) (q : Int) : Nat := if m = FloatValue.leastFull ∧ -1074 < q then 1 else 2

/-- The grid point nearest to `m * 2 ^ q` among the two next to it on the grid `10 ^ s` that lie in
the interval of the double, if there is one. Of two equally near the upper one is taken. -/
def onGrid? (m : Nat) (q s : Int) : Option Nat :=
  let scale := Nat.pow 10 (-s).toNat <<< (q - 2).toNat
  let grid := Nat.pow 10 s.toNat <<< (2 - q).toNat
  let value := 4 * m * scale
  let low := (4 * m - lowerReach m q) * scale
  let high := (4 * m + 2) * scale
  let inside (n : Nat) : Bool :=
    if m % 2 = 0 then low ≤ n * grid && n * grid ≤ high else low < n * grid && n * grid < high
  let below := value / grid
  let above := below + 1
  match inside below, inside above with
  | true, true => if value - below * grid < above * grid - value then some below else some above
  | true, false => some below
  | false, true => some above
  | false, false => none

/-- The decimal with the fewest digits that reads back as the double `m * 2 ^ q`, for positive `m`;
of those with the fewest digits the nearest one. -/
def ofBinary (m : Nat) (q : Int) : Decimal :=
  let place := leadingPlace m q
  let found := (List.range' 1 17).findSome? fun count : Nat =>
    (onGrid? m q (place - count)).map fun n =>
      if n = Nat.pow 10 count then Decimal.mk 1 place else Decimal.mk n (place - count)
  found.getD ⟨m <<< q.toNat, 0⟩

end Shortest

end Journeys
