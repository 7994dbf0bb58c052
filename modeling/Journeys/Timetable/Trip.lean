import Journeys.Time

/-!
# Trips

A `Trip` is one scheduled run of a vehicle: at every stop of its pattern it makes a `Call`, with an
arrival and a departure. A trip has at least one call, no call departs before it arrives, and no
call arrives before the previous one departed. `Trip.ofTimes` checks this for two lists of times
and says which of the three conditions fails first.
-/

namespace Journeys

/-- The identity of a trip, as published with the timetable. -/
structure TripId where
  /-- The published text. -/
  text : String
deriving DecidableEq, Repr, Inhabited, Hashable

namespace TripId

/-- The order of two trip identities by their text, code point by code point. -/
def order (a b : TripId) : Ordering := compare a.text b.text

/-- The text of a trip identity with its kind in front, as diagnostics show it: `TripId(A)`. -/
def tagged (id : TripId) : String := "TripId(" ++ id.text ++ ")"

end TripId

/-- Why times and stops do not make up a timetable. -/
inductive TimetableError where
  /-- A trip has no calls, or not one departure to each arrival. -/
  | unequalLists
  /-- A call departs before it arrives. -/
  | departsBeforeArrival
  /-- A call arrives before the previous one departed. -/
  | goesBackwards
  /-- A pattern has fewer than two stops. -/
  | tooFewStops
  /-- A trip does not make one call to each stop of its pattern. -/
  | lengthMismatch
deriving DecidableEq, Repr

namespace TimetableError

/-- What is wrong with the data. -/
def reason : TimetableError → String
  | unequalLists => "arrival and departure lists must be non-empty and equal length"
  | departsBeforeArrival => "departure before arrival"
  | goesBackwards => "trip times go backwards"
  | tooFewStops => "pattern needs at least two stops"
  | lengthMismatch => "trip length does not match pattern stops"

/-- The message for whoever supplied the timetable. -/
def message (e : TimetableError) : String := "invalid trip data: " ++ e.reason

end TimetableError

/-- A scheduled stay of a trip at one stop. -/
structure Call where
  /-- When the vehicle arrives. -/
  arrival : Time
  /-- When it leaves again. -/
  departure : Time
deriving DecidableEq, Repr

namespace Call

/-- No call departs before it arrives. -/
def Dwelling (calls : List Call) : Prop := ∀ c ∈ calls, c.arrival ≤ c.departure

instance (calls : List Call) : Decidable (Dwelling calls) :=
  inferInstanceAs (Decidable (∀ c ∈ calls, c.arrival ≤ c.departure))

/-- No call arrives before the previous one departed. -/
def Advancing : List Call → Prop
  | [] => True
  | [_] => True
  | a :: b :: rest => a.departure ≤ b.arrival ∧ Advancing (b :: rest)

instance decidableAdvancing : (calls : List Call) → Decidable (Advancing calls)
  | [] => isTrue trivial
  | [_] => isTrue trivial
  | a :: b :: rest =>
    have := decidableAdvancing (b :: rest)
    inferInstanceAs (Decidable (a.departure ≤ b.arrival ∧ Advancing (b :: rest)))

end Call

/-- One scheduled run along the stops of a pattern. -/
structure Trip where
  /-- The identity of the trip. -/
  id : TripId
  /-- The calls, one to each stop of the pattern. -/
  calls : List Call
  /-- A trip calls somewhere. -/
  calls_ne_nil : calls ≠ []
  /-- No call departs before it arrives. -/
  dwelling : Call.Dwelling calls
  /-- No call arrives before the previous one departed. -/
  advancing : Call.Advancing calls
deriving DecidableEq

namespace Trip

/-- The trip with these arrivals and departures, stop by stop. -/
def ofTimes (id : TripId) (arrivals departures : List Time) : Except TimetableError Trip :=
  if h : arrivals ≠ [] ∧ arrivals.length = departures.length then
    let calls := List.zipWith Call.mk arrivals departures
    if dwelling : Call.Dwelling calls then
      if advancing : Call.Advancing calls then
        have calls_ne_nil : calls ≠ [] := by
          obtain ⟨hne, hlen⟩ := h
          cases arrivals with
          | nil => exact absurd rfl hne
          | cons a as =>
            cases departures with
            | nil => simp at hlen
            | cons d ds => simp [calls]
        .ok { id, calls, calls_ne_nil, dwelling, advancing }
      else
        .error .goesBackwards
    else
      .error .departsBeforeArrival
  else
    .error .unequalLists

/-- The trip that passes every stop without a stay, leaving as it arrives. -/
def passing (id : TripId) (times : List Time) : Except TimetableError Trip :=
  ofTimes id times times

/-- The number of calls. -/
def length (t : Trip) : Nat := t.calls.length

/-- When the trip arrives at a position of its pattern. -/
def arrival? (t : Trip) (pos : Nat) : Option Time := t.calls[pos]?.map Call.arrival

/-- When the trip leaves a position of its pattern. -/
def departure? (t : Trip) (pos : Nat) : Option Time := t.calls[pos]?.map Call.departure

end Trip

end Journeys
