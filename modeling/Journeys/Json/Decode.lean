import Journeys.Json.Reader

/-!
# Decoding JSON

A decoder turns a JSON value into a value of the domain. It goes through the value in the order of
the text and reports the first trouble that it meets: that the text is malformed or says something
else than expected, or that a number of seconds is no span. The second is kept apart because it is
not a fault of the form.

Two shapes come up again and again. A *record* is an object with fields of known names, or the array
of their values in order; other fields are passed over, and no known field may be repeated. A
*variant* is a name, or an object with the name as its only key and the value that belongs to it.
-/

namespace Journeys

/-- Why a JSON value cannot be decoded. -/
inductive DecodeError where
  /-- The text is not JSON or not of the expected form. -/
  | malformed
  /-- A number of seconds is out of the range of spans. -/
  | spanOutOfRange
deriving DecidableEq, Repr

/-- Turns a JSON value into a value of the domain. -/
abbrev Decoder (α : Type) := Json → Except DecodeError α

namespace Decoder

/-- Takes what a check lets through. -/
def ofOption {α : Type} : Option α → Except DecodeError α
  | some a => .ok a
  | none => .error .malformed

/-- An integer between two bounds. -/
def int (least greatest : Int) : Decoder Int
  | .integer n => if least ≤ n ∧ n ≤ greatest then .ok n else .error .malformed
  | _ => .error .malformed

/-- A natural number below `2^64`. -/
def nat64 : Decoder Nat := fun v => (int 0 18446744073709551615 v).map Int.toNat

/-- A natural number below `2^32`. -/
def nat32 : Decoder UInt32 := fun v => (int 0 4294967295 v).map fun n => UInt32.ofNat n.toNat

/-- A signed 64-bit number. -/
def int64 : Decoder Int := int (-9223372036854775808) 9223372036854775807

/-- A floating-point number, which may be written as an integer. -/
def float : Decoder Float
  | .integer n => ofOption (DecimalLiteral.ofInt n).toFloat?
  | .decimal literal => ofOption literal.toFloat?
  | _ => .error .malformed

/-- `true` or `false`. -/
def bool : Decoder Bool
  | .bool b => .ok b
  | _ => .error .malformed

/-- A string of Unicode text. -/
def string : Decoder String
  | .text s => ofOption s
  | _ => .error .malformed

/-- A value, or nothing where `null` is written. -/
def optional {α : Type} (decode : Decoder α) : Decoder (Option α)
  | .null => .ok none
  | v => (decode v).map some

/-- An array of values. -/
def list {α : Type} (decode : Decoder α) : Decoder (List α)
  | .array items closed => do
    let values ← items.mapM decode
    if closed then .ok values else .error .malformed
  | _ => .error .malformed

/-! ## Records -/

/-- Fills one field of a record from its name and value. -/
abbrev FieldSetter (δ : Type) := δ → String → Json → Except DecodeError δ

/-- A field that is read for the first time; a repetition is refused before its value is looked
at. -/
def once {α : Type} (seen : Option α) (decode : Decoder α) : Decoder (Option α) := fun v =>
  if seen.isSome then .error .malformed else (decode v).map some

/-- A field that is not known is passed over, but it must be JSON. -/
def skip {δ : Type} (draft : δ) (v : Json) : Except DecodeError δ :=
  if v.isWhole then .ok draft else .error .malformed

/-- Fills a record from the fields of an object, in their order. -/
def setFields {δ : Type} (set : FieldSetter δ) : δ → List (JsonText × Json) → Except DecodeError δ
  | draft, [] => .ok draft
  | _, (none, _) :: _ => .error .malformed
  | draft, (some key, v) :: fields => do
    let draft ← set draft key v
    setFields set draft fields

/-- Fills a record from the items of an array, which belong to the named fields in order. Answers
the draft and the names that no item was left for; too many items are refused. -/
def setItems {δ : Type} (set : FieldSetter δ) :
    δ → List String → List Json → Except DecodeError (δ × List String)
  | draft, names, [] => .ok (draft, names)
  | _, [], _ :: _ => .error .malformed
  | draft, name :: names, v :: items => do
    let draft ← set draft name v
    setItems set draft names items

/-- A draft of a record, filled from an object or an array. `names` are the fields in the order of
the array, and `mayStop` says whether the array may leave out the last of them. -/
def record {δ : Type} (names : List String) (mayStop : Bool) (empty : δ) (set : FieldSetter δ) :
    Decoder δ
  | .object fields closed => do
    let draft ← setFields set empty fields
    if closed then .ok draft else .error .malformed
  | .array items closed => do
    let (draft, missing) ← setItems set empty names items
    if closed ∧ (mayStop ∨ missing = []) then .ok draft else .error .malformed
  | _ => .error .malformed

/-! ## Variants -/

/-- A variant: its name, and the value that belongs to it if one is written. -/
def variant {α : Type} (read : String → Option Json → Except DecodeError α) : Decoder α
  | .text s => do
    let name ← ofOption s
    read name none
  | .object ((key, v) :: others) closed => do
    let name ← ofOption key
    let a ← read name (some v)
    if others.isEmpty ∧ closed then .ok a else .error .malformed
  | _ => .error .malformed

/-- A variant without a value, for which `null` may be written. -/
def unit {α : Type} (a : α) : Option Json → Except DecodeError α
  | none => .ok a
  | some .null => .ok a
  | some _ => .error .malformed

/-- A variant with a value. -/
def payload {α : Type} (decode : Decoder α) : Option Json → Except DecodeError α
  | some v => decode v
  | none => .error .malformed

/-! ## Texts -/

/-- Decodes a whole text: its value first, and then that nothing follows it. -/
def ofText {α : Type} (decode : Decoder α) (text : String) : Except DecodeError α := do
  let document := JsonDocument.ofString text
  let a ← decode document.value
  if document.atEnd then .ok a else .error .malformed

end Decoder

end Journeys
