import Journeys.Place
import Journeys.Timetable.Trip

/-!
# Patterns

A `Pattern` is a sequence of at least two stops with the trips that call at exactly these stops, in
departure order. Trips of a pattern are not supposed to overtake one another, which is what makes
scanning the list a search by time; nothing here depends on it.
-/

namespace Journeys

/-- The number of a pattern in the transit data. -/
structure PatternId where
  /-- The number. -/
  number : UInt32
deriving DecidableEq, Repr, Inhabited, Hashable

/-- The text of a pattern number with its kind in front, as messages show it: `PatternIndex(9)`. -/
def PatternId.tagged (p : PatternId) : String := "PatternIndex(" ++ p.number.toNat.repr ++ ")"

/-- Where a trip stands in the timetable. -/
structure TripSlot where
  /-- The pattern of the trip. -/
  pattern : PatternId
  /-- The position of the trip in the departure-ordered list of its pattern. -/
  trip : Nat
deriving DecidableEq, Repr, Inhabited, Hashable

/-- A sequence of stops with the trips that serve it. -/
structure Pattern where
  /-- The stops, in the order of travel; a stop may come up more than once. -/
  stops : List Stop
  /-- The trips, in departure order. -/
  trips : List Trip
  /-- A pattern leads from somewhere to somewhere. -/
  two_le_stops : 2 ≤ stops.length
  /-- Every trip makes one call to each stop. -/
  length_eq : ∀ t ∈ trips, t.length = stops.length
deriving DecidableEq

namespace Pattern

/-- The pattern of these stops and trips. -/
def ofTrips (stops : List Stop) (trips : List Trip) : Except TimetableError Pattern :=
  if two_le_stops : 2 ≤ stops.length then
    if length_eq : ∀ t ∈ trips, t.length = stops.length then
      .ok { stops, trips, two_le_stops, length_eq }
    else
      .error .lengthMismatch
  else
    .error .tooFewStops

/-- The stop at a position. -/
def stop? (p : Pattern) (pos : Nat) : Option Stop := p.stops[pos]?

/-- The trip at a place of the departure order. -/
def trip? (p : Pattern) (index : Nat) : Option Trip := p.trips[index]?

/-- The trips with their places in the departure order. -/
def numbered (p : Pattern) : List (Trip × Nat) := p.trips.zipIdx

/-- The first trip that leaves a position no earlier than `earliest`. -/
def firstLeaving? (p : Pattern) (pos : Nat) (earliest : Time) : Option (Trip × Nat) :=
  p.numbered.find? fun (trip, _) => (trip.departure? pos).any (earliest ≤ ·)

/-- The last trip that arrives at a position no later than `latest`. -/
def lastArriving? (p : Pattern) (pos : Nat) (latest : Time) : Option (Trip × Nat) :=
  p.numbered.reverse.find? fun (trip, _) => (trip.arrival? pos).any (· ≤ latest)

end Pattern

/-- Read access to the patterns of the transit data, by number. -/
structure Network where
  /-- The pattern with a number, if there is one. -/
  pattern? : PatternId → Option Pattern

namespace Network

/-- The network whose patterns are numbered by their places in a list. -/
def ofPatterns (patterns : List Pattern) : Network :=
  ⟨fun p => patterns[p.number.toNat]?⟩

/-- The pattern and the trip that a reference points at. -/
def trip? (n : Network) (r : TripSlot) : Option (Pattern × Trip) := do
  let pattern ← n.pattern? r.pattern
  let trip ← pattern.trip? r.trip
  return (pattern, trip)

end Network

end Journeys
