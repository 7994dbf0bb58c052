import Journeys.Decimal.Literal

/-!
# JSON values

A `Json` value is what a text says, or as much of it as could be read. Reading goes on until the
text stops being JSON; what came before stays usable, so that whoever decodes a value can report the
first trouble in the order of the text. A container whose end was never reached is not `closed`, and
a value that could not be read at all is `broken`.

Integers are kept apart from other numbers, which are kept as they are written: an integer has no
point, no exponent, and is not `-0`.
-/

namespace Journeys

/-- The text of a JSON string, or nothing if it holds half of a surrogate pair and so is no
Unicode text. -/
abbrev JsonText := Option String

/-- A JSON value, or as much of one as could be read. -/
inductive Json where
  /-- `null`. -/
  | null
  /-- `true` or `false`. -/
  | bool (value : Bool)
  /-- A number without point and exponent, other than `-0`. -/
  | integer (value : Int)
  /-- Any other number. -/
  | decimal (literal : DecimalLiteral)
  /-- A string. -/
  | text (value : JsonText)
  /-- An array; `closed` if its end was read. -/
  | array (items : List Json) (closed : Bool)
  /-- An object with its fields in order, repeated ones included; `closed` if its end was read. -/
  | object (fields : List (JsonText × Json)) (closed : Bool)
  /-- A value that could not be read. -/
  | broken

namespace Json

instance : Inhabited Json := ⟨null⟩

/-- Whether a value was read to its end. The end of a container is only reached through whole
values, so nothing inside has to be looked at. -/
def isWhole : Json → Bool
  | array _ closed => closed
  | object _ closed => closed
  | broken => false
  | _ => true

/-- A string as a value. -/
def ofString (s : String) : Json := text (some s)

/-- The array of these items. -/
def ofItems (items : List Json) : Json := array items true

/-- The object with these fields. -/
def ofFields (fields : List (String × Json)) : Json :=
  object (fields.map fun (key, value) => (some key, value)) true

end Json

/-- What a text as a whole was read as. -/
structure JsonDocument where
  /-- The value that the text starts with. -/
  value : Json
  /-- Whether nothing but white space follows the value. -/
  atEnd : Bool

end Journeys
