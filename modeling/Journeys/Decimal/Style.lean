import Journeys.Decimal.Shortest

/-!
# Number styles

How the digits of a floating-point number are laid out: positionally or with an exponent, and with
or without a `.0` behind a whole number. The two styles in use are `NumberStyle.plain`, for messages
to the user, and `NumberStyle.diagnostic`, for the description of a result set.
-/

namespace Journeys

/-- The layout of a floating-point number. -/
structure NumberStyle where
  /-- Whether a number with its first digit at this power of ten is written positionally. -/
  positional : Int → Bool
  /-- Whether a whole number that is written positionally ends in `.0`. -/
  pointZero : Bool

namespace NumberStyle

/-- Every number in full, whole numbers without a point. -/
def plain : NumberStyle := ⟨fun _ => true, false⟩

/-- Numbers from `10^-4` to below `10^16` in full, all others with an exponent; a whole number shows
that it is no integer by its `.0`. -/
def diagnostic : NumberStyle := ⟨fun power => -4 ≤ power && power < 16, true⟩

/-- A decimal without an exponent. -/
def writePositional (style : NumberStyle) (d : Decimal) : String :=
  let digits := d.digits.repr
  let point : Int := digits.length + d.exponent
  if 0 ≤ d.exponent then
    digits ++ String.ofList (List.replicate d.exponent.toNat '0')
      ++ (if style.pointZero then ".0" else "")
  else if 0 < point then
    String.ofList (digits.toList.take point.toNat) ++ "."
      ++ String.ofList (digits.toList.drop point.toNat)
  else
    "0." ++ String.ofList (List.replicate (-point).toNat '0') ++ digits

/-- A decimal as one digit, the other digits behind a point if there are any, and an exponent. -/
def writeScientific (d : Decimal) : String :=
  let digits := d.digits.repr.toList
  let power : Int := digits.length + d.exponent - 1
  let tail := digits.drop 1
  String.ofList (digits.take 1) ++ (if tail.isEmpty then "" else "." ++ String.ofList tail)
    ++ "e" ++ power.repr

/-- The text of a positive decimal. -/
def writeDecimal (style : NumberStyle) (d : Decimal) : String :=
  if style.positional (d.digits.repr.length + d.exponent - 1) then
    style.writePositional d
  else
    writeScientific d

/-- The text of a double, with the fewest digits that read back as it. -/
def write (style : NumberStyle) (x : Float) : String :=
  match FloatValue.ofFloat x with
  | .nan => "NaN"
  | .infinite negative => if negative then "-inf" else "inf"
  | .finite negative m q =>
    let magnitude :=
      if m = 0 then
        style.writePositional ⟨0, 0⟩
      else
        style.writeDecimal (Shortest.ofBinary m q)
    (if negative then "-" else "") ++ magnitude

end NumberStyle

end Journeys
