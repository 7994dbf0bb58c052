import Journeys.Json.Numeral

/-!
# Reading JSON

`JsonDocument.ofString` reads a text character by character. The containers that are open stand in a
list of frames, so values may be nested to any depth, and every character is one step of
`JsonReader.step`. The grammar is strict: no comments, no trailing commas, no byte order mark, and
only space, tab, line feed and carriage return between values.

When a character cannot come where it stands, reading stops. The containers open at that point are
kept with what was read of them.
-/

namespace Journeys

/-- A container that is being read, with what came before, the last one first. -/
inductive JsonFrame where
  /-- An array. -/
  | items (before : List Json)
  /-- An object, between two fields. -/
  | fields (before : List (JsonText × Json))
  /-- An object, at the value of a field. -/
  | value (before : List (JsonText × Json)) (key : JsonText)

/-- Where in an escape sequence a string stands. -/
inductive EscapeState where
  /-- In none. -/
  | plain
  /-- After the backslash. -/
  | backslash
  /-- Among the four hexadecimal digits; `missing` of them are still to come. -/
  | hex (missing : Nat) (value : Nat)

/-- What is being read inside the innermost container. -/
inductive JsonMode where
  /-- A value is to come; the array may also end if nothing came before. -/
  | value (mayClose : Bool)
  /-- The key of a field is to come; the object may also end if nothing came before. -/
  | key (mayClose : Bool)
  /-- The colon behind a key is to come. -/
  | colon
  /-- A comma or the end of the container is to come. -/
  | next
  /-- A literal name, of which these letters are still to come. -/
  | word (missing : List Char) (value : Json)
  /-- A number. -/
  | numeral (numeral : PartialNumeral)
  /-- A string, with its code points and UTF-16 units so far, the last one first. -/
  | text (isKey : Bool) (units : List Nat) (escape : EscapeState)

/-- How far a text has been read. -/
inductive JsonReader where
  /-- Containers are open, the innermost one first. -/
  | reading (frames : List JsonFrame) (mode : JsonMode)
  /-- The value has ended; only white space may follow. -/
  | finished (value : Json)
  /-- A character could not come where it stands. -/
  | stopped (value : Json)

namespace JsonReader

/-- Nothing has been read. -/
def initial : JsonReader := reading [] (.value false)

/-- The white space of JSON. -/
def isBlank (c : Char) : Bool := c = ' ' || c = '\n' || c = '\t' || c = '\r'

/-- The code points of a string; two UTF-16 units that make up a pair become one, and half a pair
makes the string unusable. -/
def joinUnits : List Nat → Option (List Char)
  | [] => some []
  | u :: rest =>
    if 0xD800 ≤ u ∧ u ≤ 0xDBFF then
      match rest with
      | [] => none
      | v :: rest' =>
        if 0xDC00 ≤ v ∧ v ≤ 0xDFFF then
          (joinUnits rest').map
            (Char.ofNat (0x10000 + (u - 0xD800) * 0x400 + (v - 0xDC00)) :: ·)
        else
          none
    else if 0xDC00 ≤ u ∧ u ≤ 0xDFFF then
      none
    else
      (joinUnits rest).map (Char.ofNat u :: ·)

/-- The text of a string from its units, the last one first. -/
def textOfUnits (units : List Nat) : JsonText := (joinUnits units.reverse).map String.ofList

/-- The unit that a letter behind a backslash stands for. -/
def simpleEscape? (c : Char) : Option Nat :=
  match c with
  | '"' => some 0x22
  | '\\' => some 0x5C
  | '/' => some 0x2F
  | 'b' => some 0x08
  | 'f' => some 0x0C
  | 'n' => some 0x0A
  | 'r' => some 0x0D
  | 't' => some 0x09
  | _ => none

/-- The value of a hexadecimal digit. -/
def hexDigit? (c : Char) : Option Nat :=
  if '0' ≤ c ∧ c ≤ '9' then some (c.toNat - 48)
  else if 'a' ≤ c ∧ c ≤ 'f' then some (c.toNat - 87)
  else if 'A' ≤ c ∧ c ≤ 'F' then some (c.toNat - 55)
  else none

/-- The containers that are open become values that were not closed; `inner` is what was read of
the value inside the innermost one, if one was to come. -/
def abandon : List JsonFrame → Option Json → Json
  | [], inner => inner.getD .broken
  | .items before :: frames, inner =>
    abandon frames (some (.array (inner.toList ++ before).reverse false))
  | .fields before :: frames, _ => abandon frames (some (.object before.reverse false))
  | .value before key :: frames, inner =>
    abandon frames (some (.object ((key, inner.getD .broken) :: before).reverse false))

/-- Goes on behind a value. -/
def complete (frames : List JsonFrame) (v : Json) : JsonReader :=
  match frames with
  | [] => finished v
  | .items before :: frames => reading (.items (v :: before) :: frames) .next
  | .value before key :: frames => reading (.fields ((key, v) :: before) :: frames) .next
  | .fields before :: frames => stopped (abandon (.fields before :: frames) (some v))

/-- Goes on behind the key of a field. -/
def completeKey (frames : List JsonFrame) (key : JsonText) : JsonReader :=
  match frames with
  | .fields before :: frames => reading (.value before key :: frames) .colon
  | frames => stopped (abandon frames none)

/-- Stops where a value was to come. -/
def stopAtValue (frames : List JsonFrame) : JsonReader := stopped (abandon frames (some .broken))

/-- Stops where no value was to come. -/
def stopBetween (frames : List JsonFrame) : JsonReader := stopped (abandon frames none)

/-- Ends the innermost container at its closing bracket. -/
def close (frames : List JsonFrame) (c : Char) : JsonReader :=
  match frames with
  | .items before :: outer =>
    if c = ']' then complete outer (.array before.reverse true) else stopBetween frames
  | .fields before :: outer =>
    if c = '\x7d' then complete outer (.object before.reverse true) else stopBetween frames
  | _ => stopBetween frames

/-- The first character of a value. -/
def startValue (frames : List JsonFrame) (c : Char) : JsonReader :=
  match c with
  | '[' => reading (.items [] :: frames) (.value true)
  | '\x7b' => reading (.fields [] :: frames) (.key true)
  | '"' => reading frames (.text false [] .plain)
  | 'n' => reading frames (.word ['u', 'l', 'l'] .null)
  | 't' => reading frames (.word ['r', 'u', 'e'] (.bool true))
  | 'f' => reading frames (.word ['a', 'l', 's', 'e'] (.bool false))
  | c =>
    match PartialNumeral.start? c with
    | some numeral => reading frames (.numeral numeral)
    | none => stopAtValue frames

/-- A character behind a value. -/
def stepNext (frames : List JsonFrame) (c : Char) : JsonReader :=
  if isBlank c then
    reading frames .next
  else if c = ',' then
    match frames with
    | .items before :: outer => reading (.items before :: outer) (.value false)
    | .fields before :: outer => reading (.fields before :: outer) (.key false)
    | frames => stopBetween frames
  else
    close frames c

/-- Stops inside a string. -/
def stopInText (frames : List JsonFrame) (isKey : Bool) : JsonReader :=
  if isKey then stopBetween frames else stopAtValue frames

/-- A character of a string. -/
def stepText (frames : List JsonFrame) (isKey : Bool) (units : List Nat) (c : Char) :
    EscapeState → JsonReader
  | .plain =>
    if c = '"' then
      if isKey then
        completeKey frames (textOfUnits units)
      else
        complete frames (.text (textOfUnits units))
    else if c = '\\' then
      reading frames (.text isKey units .backslash)
    else if c.toNat < 0x20 then
      stopInText frames isKey
    else
      reading frames (.text isKey (c.toNat :: units) .plain)
  | .backslash =>
    if c = 'u' then
      reading frames (.text isKey units (.hex 4 0))
    else
      match simpleEscape? c with
      | some unit => reading frames (.text isKey (unit :: units) .plain)
      | none => stopInText frames isKey
  | .hex missing value =>
    match hexDigit? c with
    | none => stopInText frames isKey
    | some d =>
      let value := value * 16 + d
      if missing ≤ 1 then
        reading frames (.text isKey (value :: units) .plain)
      else
        reading frames (.text isKey units (.hex (missing - 1) value))

/-- A character behind the whole value. -/
def stepFinished (v : Json) (c : Char) : JsonReader := if isBlank c then finished v else stopped v

/-- A character behind a value that has just ended, wherever that leads. -/
def stepPast (r : JsonReader) (c : Char) : JsonReader :=
  match r with
  | reading frames .next => stepNext frames c
  | finished v => stepFinished v c
  | r => r

/-- One more character. -/
def step (r : JsonReader) (c : Char) : JsonReader :=
  match r with
  | stopped v => stopped v
  | finished v => stepFinished v c
  | reading frames (.value mayClose) =>
    if isBlank c then reading frames (.value mayClose)
    else if mayClose ∧ c = ']' then close frames c
    else startValue frames c
  | reading frames (.key mayClose) =>
    if isBlank c then reading frames (.key mayClose)
    else if c = '"' then reading frames (.text true [] .plain)
    else if mayClose then close frames c
    else stopBetween frames
  | reading frames .colon =>
    if isBlank c then reading frames .colon
    else if c = ':' then reading frames (.value false)
    else stopAtValue frames
  | reading frames .next => stepNext frames c
  | reading frames (.word missing v) =>
    match missing with
    | [] => stepPast (complete frames v) c
    | [last] => if c = last then complete frames v else stopAtValue frames
    | letter :: missing =>
      if c = letter then reading frames (.word missing v) else stopAtValue frames
  | reading frames (.numeral numeral) =>
    match numeral.step c with
    | .more numeral => reading frames (.numeral numeral)
    | .past => stepPast (complete frames numeral.value) c
    | .fault => stopAtValue frames
  | reading frames (.text isKey units escape) => stepText frames isKey units c escape

/-- The end of the text inside a container or before any value. -/
def endInside (frames : List JsonFrame) : JsonMode → Json
  | .value _ => abandon frames (some .broken)
  | .colon => abandon frames (some .broken)
  | .word _ _ => abandon frames (some .broken)
  | .text false _ _ => abandon frames (some .broken)
  | .numeral numeral =>
    abandon frames (some (if numeral.mayEnd then numeral.value else .broken))
  | .key _ => abandon frames none
  | .next => abandon frames none
  | .text true _ _ => abandon frames none

/-- The end of the text. -/
def finish : JsonReader → JsonDocument
  | finished v => { value := v, atEnd := true }
  | stopped v => { value := v, atEnd := false }
  | reading frames mode =>
    let v := endInside frames mode
    { value := v, atEnd := v.isWhole }

end JsonReader

/-- Reads a text. -/
def JsonDocument.ofString (text : String) : JsonDocument :=
  (text.toList.foldl JsonReader.step JsonReader.initial).finish

end Journeys
