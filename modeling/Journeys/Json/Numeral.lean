import Journeys.Json.Value

/-!
# Numbers in a JSON text

A number is read character by character. `PartialNumeral` is what was read of it so far: where in
its grammar it stands, and its digits. A number has no end mark; it ends before the first character
that cannot go on with it, if it may end there. A zero is not followed by a digit, and a point, an
exponent mark and a sign are.
-/

namespace Journeys

/-- Where in its grammar a number stands. -/
inductive NumeralPart where
  /-- After the minus sign. -/
  | sign
  /-- After a leading zero. -/
  | zero
  /-- Among the digits before the point. -/
  | whole
  /-- After the point. -/
  | point
  /-- Among the digits after the point. -/
  | fraction
  /-- After the exponent mark. -/
  | mark
  /-- After the sign of the exponent. -/
  | markSign
  /-- Among the digits of the exponent. -/
  | exponent
deriving DecidableEq, Repr

/-- A number that has been read so far. -/
structure PartialNumeral where
  /-- Where in its grammar it stands. -/
  part : NumeralPart
  /-- Whether it started with a minus sign. -/
  negative : Bool
  /-- The digits before the point, the last one first. -/
  whole : List Nat := []
  /-- The digits after the point, the last one first. -/
  fraction : List Nat := []
  /-- Whether the exponent is negative. -/
  exponentNegative : Bool := false
  /-- The digits of the exponent, as a number. -/
  exponent : Nat := 0

/-- What a character means to a number. -/
inductive NumeralStep where
  /-- It goes on with the number. -/
  | more (numeral : PartialNumeral)
  /-- It comes after the number. -/
  | past
  /-- It cannot come here. -/
  | fault

/-- The value of an ASCII digit. -/
def jsonDigit? (c : Char) : Option Nat := if c.isDigit then some (c.toNat - 48) else none

namespace PartialNumeral

/-- The number that a character starts, if it starts one. -/
def start? (c : Char) : Option PartialNumeral :=
  if c = '-' then
    some { part := .sign, negative := true }
  else
    match jsonDigit? c with
    | none => none
    | some 0 => some { part := .zero, negative := false, whole := [0] }
    | some d => some { part := .whole, negative := false, whole := [d] }

/-- Whether a number may end here. -/
def mayEnd (n : PartialNumeral) : Bool :=
  match n.part with
  | .zero => true
  | .whole => true
  | .fraction => true
  | .exponent => true
  | _ => false

/-- The number with one more digit. -/
def digit (n : PartialNumeral) (d : Nat) : NumeralStep :=
  match n.part with
  | .sign => .more { n with part := if d = 0 then .zero else .whole, whole := [d] }
  | .zero => .fault
  | .whole => .more { n with whole := d :: n.whole }
  | .point => .more { n with part := .fraction, fraction := [d] }
  | .fraction => .more { n with fraction := d :: n.fraction }
  | .mark => .more { n with part := .exponent, exponent := d }
  | .markSign => .more { n with part := .exponent, exponent := d }
  | .exponent => .more { n with exponent := n.exponent * 10 + d }

/-- The number after a character that is not a digit. -/
def sign (n : PartialNumeral) (c : Char) : NumeralStep :=
  if c = '.' ∧ (n.part = .zero ∨ n.part = .whole) then
    .more { n with part := .point }
  else if (c = 'e' ∨ c = 'E') ∧ (n.part = .zero ∨ n.part = .whole ∨ n.part = .fraction) then
    .more { n with part := .mark }
  else if (c = '+' ∨ c = '-') ∧ n.part = .mark then
    .more { n with part := .markSign, exponentNegative := c = '-' }
  else if n.mayEnd then
    .past
  else
    .fault

/-- The number after one more character. -/
def step (n : PartialNumeral) (c : Char) : NumeralStep :=
  match jsonDigit? c with
  | some d => n.digit d
  | none => n.sign c

/-- The value of a number that ends here. -/
def value (n : PartialNumeral) : Json :=
  let magnitude : Nat := n.whole.reverse.foldl (fun value d => value * 10 + d) 0
  let isInteger := n.part = .zero ∨ n.part = .whole
  if isInteger ∧ ¬(n.negative ∧ magnitude = 0) then
    .integer (if n.negative then -magnitude else magnitude)
  else
    .decimal {
      negative := n.negative
      whole := n.whole.reverse
      fraction := n.fraction.reverse
      exponent := if n.exponentNegative then -n.exponent else n.exponent }

end PartialNumeral

end Journeys
