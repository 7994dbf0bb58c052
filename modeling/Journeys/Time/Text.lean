import Journeys.Time

/-!
# The text of a time

A time is read as `HH:MM` or `HH:MM:SS`, two ASCII digits to a component; hours may pass 23. It is
written with at least two digits to a component and without the seconds when they are zero, behind
a minus sign before midnight. So every text that can be read comes back when the time is written,
except that a final `:00` is dropped.

`TimeTextError` lists the ways in which a text can fail to be a time, in the order in which they are
looked for.
-/

namespace Journeys

/-- Why a text is not a time. -/
inductive TimeTextError where
  /-- There is no colon. -/
  | tooFewComponents
  /-- There are more than two colons. -/
  | tooManyComponents
  /-- The hours do not take up two bytes. -/
  | hoursLength
  /-- The hours are not digits. -/
  | hourDigits
  /-- The minutes are not two digits below 60. -/
  | minutes
  /-- The seconds are not two digits below 60. -/
  | seconds
deriving DecidableEq, Repr

namespace TimeTextError

/-- What is wrong with the text. -/
def reason : TimeTextError → String
  | tooFewComponents => "expected HH:MM format"
  | tooManyComponents => "too many components"
  | hoursLength => "hours must be two digits"
  | hourDigits => "invalid hour digits"
  | minutes => "minutes must be two digits 00-59"
  | seconds => "seconds must be two digits 00-59"

/-- The message for the reader of the text. -/
def message (e : TimeTextError) : String := "invalid time: " ++ e.reason

end TimeTextError

namespace Time

/-! ## Reading -/

/-- The parts of a text between its colons. There is always a first part, possibly empty. -/
def components : List Char → List (List Char)
  | [] => [[]]
  | c :: rest =>
    if c = ':' then
      [] :: components rest
    else
      match components rest with
      | [] => [[c]]
      | first :: others => (c :: first) :: others

/-- The value of an ASCII digit. -/
def digitValue? (c : Char) : Option Nat :=
  if '0' ≤ c ∧ c ≤ '9' then some (c.toNat - 48) else none

/-- The value of exactly two ASCII digits. -/
def twoDigits? : List Char → Option Nat
  | [a, b] => do
    let tens ← digitValue? a
    let ones ← digitValue? b
    return tens * 10 + ones
  | _ => none

/-- The value of exactly two ASCII digits that stays below 60. -/
def sexagesimal? (cs : List Char) : Option Nat :=
  (twoDigits? cs).filter (· < 60)

/-- How many bytes a text takes up in UTF-8. -/
def byteLength (cs : List Char) : Nat := cs.foldl (fun bytes c => bytes + c.utf8Size) 0

/-- Reads the hour: two bytes, both of them digits. -/
def readHours (cs : List Char) : Except TimeTextError Nat :=
  if byteLength cs ≠ 2 then
    .error .hoursLength
  else
    match twoDigits? cs with
    | some h => .ok h
    | none => .error .hourDigits

/-- The time of an hour, a minute and, if given, a second that are still text. -/
def ofComponents (hours minutes : List Char) (seconds : Option (List Char)) :
    Except TimeTextError Time := do
  let h ← readHours hours
  match sexagesimal? minutes with
  | none => .error .minutes
  | some m =>
    match seconds with
    | none => .ok (ofHms h m 0)
    | some text =>
      match sexagesimal? text with
      | none => .error .seconds
      | some s => .ok (ofHms h m s)

/-- Reads `HH:MM` or `HH:MM:SS`. -/
def parse (text : String) : Except TimeTextError Time :=
  match components text.toList with
  | [hours, minutes] => ofComponents hours minutes none
  | [hours, minutes, seconds] => ofComponents hours minutes (some seconds)
  | _ :: _ :: _ :: _ :: _ => .error .tooManyComponents
  | _ => .error .tooFewComponents

/-! ## Writing -/

/-- A number with at least two digits. -/
def padded (n : Nat) : String := if n < 10 then "0" ++ n.repr else n.repr

/-- The text of a time: `09:05`, `25:10:05`, `-00:01`. -/
def text (t : Time) : String :=
  let total := t.seconds.natAbs
  let sign := if t.seconds < 0 then "-" else ""
  let shown := sign ++ padded (total / 3600) ++ ":" ++ padded (total / 60 % 60)
  if total % 60 = 0 then shown else shown ++ ":" ++ padded (total % 60)

/-- The text of a time with its kind in front, as diagnostics show it. -/
def tagged (t : Time) : String := "TransitTime(" ++ t.text ++ ")"

end Time

end Journeys
