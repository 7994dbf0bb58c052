import Journeys.Decimal.Binary

/-!
# Generalized cost

A `Cost` weighs the time spent on a journey by how tedious it is, in hundredths of a second. It is
never negative and holds at most `2^64 - 1`; sums stop there. A journey that was not priced has no
cost at all, which is different from a cost of zero.

Weights are floating-point factors, so a product is rounded to the nearest hundredth, a half going
up.
-/

namespace Journeys

/-- A generalized cost in hundredths of a second. -/
structure Cost where
  /-- The hundredths of a second. -/
  value : Nat
  /-- The cost fits an unsigned 64-bit number. -/
  le_max : value ≤ 18446744073709551615 := by omega
deriving DecidableEq, Repr

namespace Cost

/-- No cost. -/
def zero : Cost := { value := 0 }

instance : Inhabited Cost := ⟨zero⟩

/-- The cost of this many hundredths of a second, or the greatest cost if that is less. -/
def ofNat (n : Nat) : Cost := { value := min n 18446744073709551615 }

/-- The cost of this many hundredths of a second, if it is in range. -/
def ofNat? (n : Nat) : Option Cost :=
  if h : n ≤ 18446744073709551615 then some { value := n, le_max := h } else none

/-- The cost nearest to a floating-point number, a half going up. Numbers below zero, and what is no
number, cost nothing; a number that is too large is the greatest cost. -/
def nearest (x : Float) : Cost :=
  { value := (FloatValue.ofFloat x).nearestUpTo 18446744073709551615
    le_max := FloatValue.nearestUpTo_le _ _ }

/-- The sum of two costs, or the greatest cost if that is less. -/
def add (a b : Cost) : Cost := ofNat (a.value + b.value)

instance : Add Cost := ⟨add⟩

instance : LE Cost := ⟨fun a b => a.value ≤ b.value⟩

instance : LT Cost := ⟨fun a b => a.value < b.value⟩

instance (a b : Cost) : Decidable (a ≤ b) := inferInstanceAs (Decidable (a.value ≤ b.value))

instance (a b : Cost) : Decidable (a < b) := inferInstanceAs (Decidable (a.value < b.value))

/-- The sum of a list of costs, front to back. -/
def sum (costs : List Cost) : Cost := costs.foldl (· + ·) zero

/-- The cost of `seconds` weighted by `factor`. A product that is not finite costs nothing. -/
def ofSeconds (seconds : Int) (factor : Float) : Cost :=
  let weighted := floatOfInt seconds * factor * 100.0
  if weighted.isFinite then nearest weighted else zero

/-- The cost scaled by `factor`. -/
def scale (c : Cost) (factor : Float) : Cost := nearest (floatOfInt c.value * factor)

/-- The text of a cost: `$5`. -/
def text (c : Cost) : String := "$" ++ c.value.repr

/-- The text of a cost with its kind in front, as diagnostics show it: `Cost(5)`. -/
def tagged (c : Cost) : String := "Cost(" ++ c.value.repr ++ ")"

/-! ## The operations on values -/

@[ext] theorem ext {a b : Cost} (h : a.value = b.value) : a = b := by
  cases a; cases b; simp_all

theorem le_iff {a b : Cost} : a ≤ b ↔ a.value ≤ b.value := Iff.rfl

theorem lt_iff {a b : Cost} : a < b ↔ a.value < b.value := Iff.rfl

@[simp] theorem value_zero : zero.value = 0 := rfl

theorem value_ofNat (n : Nat) : (ofNat n).value = min n 18446744073709551615 := rfl

theorem value_add (a b : Cost) : (a + b).value = min (a.value + b.value) 18446744073709551615 := rfl

end Cost

end Journeys
