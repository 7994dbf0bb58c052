/-!
# Stops and places

Stops are numbered densely by the transit data and mean nothing beyond their identity. A leg starts
and ends at a `Place`: a stop, or one of the two street locations that a search runs between.
-/

namespace Journeys

/-- The number of a stop in the transit data. -/
structure Stop where
  /-- The number. -/
  number : UInt32
deriving DecidableEq, Repr, Inhabited, Hashable

namespace Stop

/-- The text of a stop: its number. -/
def text (s : Stop) : String := s.number.toNat.repr

/-- The text of a stop with its kind in front, as diagnostics show it: `Stop(5)`. -/
def tagged (s : Stop) : String := "Stop(" ++ s.text ++ ")"

end Stop

/-- Turns a stop into a name that a person can read. Names only appear in texts; no result depends
on them. -/
abbrev StopNames := Stop → String

/-- Names every stop by its number. -/
def StopNames.byNumber : StopNames := Stop.text

/-- Where a leg starts or ends. -/
inductive Place where
  /-- The street location that the journey starts from. -/
  | origin
  /-- A stop. -/
  | stop (s : Stop)
  /-- The street location that the journey goes to. -/
  | destination
deriving DecidableEq, Repr

namespace Place

/-- The stop at a place, if there is one. -/
def stop? : Place → Option Stop
  | stop s => some s
  | origin => none
  | destination => none

/-- The text of a place, as messages show it: `Origin`, `Stop(Stop(5))`, `Destination`. -/
def tagged : Place → String
  | origin => "Origin"
  | stop s => "Stop(" ++ s.tagged ++ ")"
  | destination => "Destination"

/-- A place has a stop exactly when it is one. -/
theorem stop?_eq_some_iff {p : Place} {s : Stop} : p.stop? = some s ↔ p = stop s := by
  cases p <;> simp [stop?]

end Place

end Journeys
