import Journeys.Reconstruction.RecordedJourney

/-!
# Rides with their trips

The search by rounds only records that some trip of a pattern was ridden. Which one it is on the
journey is found here. A forward reconstruction goes from the origin on: each ride takes the first
trip that can be boarded after the ride before it, and must reach its alight stop no later than
recorded. A reverse reconstruction goes from the destination back: each ride takes the last trip
that arrives in time for the ride after it, and must leave its board stop no earlier than recorded.

Both are one scan over the trips of a pattern. A candidate is held against the transfer rule to the
trip of the neighbouring ride, so the time that it must keep can differ from trip to trip. Trips
behind a forbidden transfer are passed over. The scan ends at the first candidate that is beyond the
recorded time, because trips are not supposed to overtake.

An approximate reconstruction trusts the recorded trip and does not scan.
-/

namespace Journeys

/-- A ride on a definite trip. -/
structure Ridden where
  /-- The ride as recorded. -/
  ride : RecordedRide
  /-- Where the trip stands in the timetable. -/
  trip : TripSlot
  /-- The identity of the trip. -/
  tripId : TripId
  /-- When it is boarded. -/
  boardTime : Time
  /-- When it is left. -/
  alightTime : Time
deriving DecidableEq

namespace Ridden

/-- A ride on a trip of its pattern. -/
def ofTrip (ride : RecordedRide) (slot : TripSlot) (trip : Trip) :
    Except ReconstructionError Ridden :=
  match trip.departure? ride.hop.boardPos, trip.arrival? ride.hop.alightPos with
  | none, _ => .error (.stopMismatch ride.board ride.hop.boardPos)
  | some _, none => .error (.stopMismatch ride.alight ride.hop.alightPos)
  | some boardTime, some alightTime =>
    .ok { ride, trip := slot, tripId := trip.id, boardTime, alightTime }

/-- Where a trip is left on a ride. -/
def alightEnd (ride : RecordedRide) (trip : TripId) : TransferEnd :=
  ⟨trip, ride.alight, ride.hop.alightPos⟩

/-- Where a trip is boarded on a ride. -/
def boardEnd (ride : RecordedRide) (trip : TripId) : TransferEnd :=
  ⟨trip, ride.board, ride.hop.boardPos⟩

end Ridden

/-- The ride next to the one whose trip is sought, towards the start of the search. -/
structure Neighbour where
  /-- The ride with its trip. -/
  ridden : Ridden
  /-- The walk between the two rides, if there is one. -/
  walk : Option Span

/-- The time needed from leaving one ride to boarding the next under a rule. A rule about time takes
the place of slack and walk; a minimum still leaves time for the walk. -/
def neededGap (before : RecordedRide) (walk : Option Span) (after : RecordedRide)
    (rule : Option TransferRule) : Except ReconstructionError Span :=
  let walk := walk.getD Span.zero
  match rule with
  | some (.minimumTime least) => .ok (max least walk)
  | some (.exactTime exact) => .ok exact
  | _ =>
    match Span.sum? [before.alightSlack, walk, after.boardSlack] with
    | some gap => .ok gap
    | none => .error .timeOverflow

/-- What the search for the trip of one ride is about. -/
structure TripSearch where
  /-- Which way the rides are gone through. -/
  direction : Direction
  /-- The transfer rules of the network. -/
  rules : TransferRules
  /-- The time of the access record. -/
  anchor : Time
  /-- The ride whose trip is sought. -/
  ride : RecordedRide
  /-- The ride next to it, unless it is the first that is gone through. -/
  neighbour : Option Neighbour

namespace TripSearch

/-- The rule between a candidate trip and the trip of the neighbouring ride, and the time that the
candidate must keep: the earliest to be boarded (forward), the latest to be left (reverse). -/
def requirement (s : TripSearch) (trip : Trip) :
    Except ReconstructionError (Option TransferRule × Time) :=
  match s.direction, s.neighbour with
  | .forward, none => do
    let earliest ← s.anchor.later s.ride.boardSlack
    return (none, earliest)
  | .reverse, none => do
    let latest ← s.anchor.earlier s.ride.alightSlack
    return (none, latest)
  | .forward, some ⟨previous, walk⟩ => do
    let rule := s.rules.find? (Ridden.alightEnd previous.ride previous.tripId)
      (Ridden.boardEnd s.ride trip.id)
    let gap ← neededGap previous.ride walk s.ride rule
    let earliest ← previous.alightTime.later gap
    return (rule, earliest)
  | .reverse, some ⟨next, walk⟩ => do
    let rule := s.rules.find? (Ridden.alightEnd s.ride trip.id)
      (Ridden.boardEnd next.ride next.tripId)
    let gap ← neededGap s.ride walk next.ride rule
    let latest ← next.boardTime.earlier gap
    return (rule, latest)

/-- Whether a candidate keeps the required time. An exact rule must be met to the second. -/
def keeps (s : TripSearch) (rule : Option TransferRule) (bound : Time) (r : Ridden) : Bool :=
  match s.direction, rule with
  | .forward, some (.exactTime _) => r.boardTime = bound
  | .forward, _ => bound ≤ r.boardTime
  | .reverse, some (.exactTime _) => r.alightTime = bound
  | .reverse, _ => r.alightTime ≤ bound

/-- Whether a candidate is beyond the recorded time. -/
def isBeyondRecord (s : TripSearch) (r : Ridden) : Bool :=
  match s.direction with
  | .forward => s.ride.time < r.alightTime
  | .reverse => r.boardTime < s.ride.time

/-- The failure that the transfer between a candidate and the neighbouring ride is forbidden. -/
def forbidden (s : TripSearch) (r : Ridden) : Option ReconstructionError :=
  s.neighbour.map fun neighbour =>
    match s.direction with
    | .forward => .forbiddenTransfer neighbour.ridden.tripId r.tripId s.ride.board
    | .reverse => .forbiddenTransfer r.tripId neighbour.ridden.tripId neighbour.ridden.ride.board

/-- The failure of a search: the first forbidden transfer that was passed over, else that there is
no trip. -/
def failure (s : TripSearch) (skipped : Option ReconstructionError) : ReconstructionError :=
  skipped.getD (.tripNotFound s.ride.hop.trip.pattern s.ride.time)

/-- Goes through candidate trips until one can be ridden; `skipped` is the first forbidden transfer
so far. -/
def scan (s : TripSearch) :
    List (Trip × Nat) → Option ReconstructionError → Except ReconstructionError Ridden
  | [], skipped => .error (s.failure skipped)
  | (trip, index) :: candidates, skipped => do
    let (rule, bound) ← s.requirement trip
    let r ← Ridden.ofTrip s.ride ⟨s.ride.hop.trip.pattern, index⟩ trip
    if !s.keeps rule bound r then
      s.scan candidates skipped
    else if rule = some .forbidden then
      s.scan candidates (skipped.or (s.forbidden r))
    else if s.isBeyondRecord r then
      .error (s.failure skipped)
    else
      return r

/-- The trips of the pattern, from the one that is best for the search on. -/
def candidates (s : TripSearch) : List (Trip × Nat) :=
  match s.direction with
  | .forward => s.ride.pattern.numbered
  | .reverse => s.ride.pattern.numbered.reverse

/-- The trip of the ride. -/
def run (s : TripSearch) : Except ReconstructionError Ridden := s.scan s.candidates none

end TripSearch

/-- How rides get their trips. -/
structure TripChoice where
  /-- Which way the rides are gone through. -/
  direction : Direction
  /-- The transfer rules of the network. -/
  rules : TransferRules
  /-- Whether the recorded trips are trusted. -/
  approximate : Bool
  /-- The time of the access record. -/
  anchor : Time

namespace TripChoice

/-- The trip of one ride beside its neighbour. -/
def choose (c : TripChoice) (ride : RecordedRide) (neighbour : Option Neighbour) :
    Except ReconstructionError Ridden :=
  if c.approximate then
    Ridden.ofTrip ride ride.hop.trip ride.recorded
  else
    TripSearch.run
      { direction := c.direction, rules := c.rules, anchor := c.anchor, ride, neighbour }

/-- The trips of the rides behind one whose trip is known, from the origin on. -/
def chooseRest (c : TripChoice) :
    Ridden → List (Option Span × RecordedRide) →
      Except ReconstructionError (List (Option Span × Ridden))
  | _, [] => .ok []
  | previous, (walk, ride) :: rides => do
    let r ← c.choose ride (some ⟨previous, walk⟩)
    let rest ← c.chooseRest r rides
    return (walk, r) :: rest

/-- The trips of all rides, from the origin on. -/
def chooseForward (c : TripChoice) (rides : Linked (Option Span) RecordedRide) :
    Except ReconstructionError (Linked (Option Span) Ridden) := do
  let first ← c.choose rides.first none
  let rest ← c.chooseRest first rides.rest
  return { first, rest }

/-- The trips of a ride and those behind it, from the destination back. -/
def chooseReverse (c : TripChoice) :
    RecordedRide → List (Option Span × RecordedRide) →
      Except ReconstructionError (Linked (Option Span) Ridden)
  | ride, [] => do
    let r ← c.choose ride none
    return { first := r, rest := [] }
  | ride, (walk, next) :: rides => do
    let behind ← c.chooseReverse next rides
    let r ← c.choose ride (some ⟨behind.first, walk⟩)
    return behind.cons r walk

/-- The trips of all rides, in order of travel. -/
def chooseAll (c : TripChoice) (rides : Linked (Option Span) RecordedRide) :
    Except ReconstructionError (Linked (Option Span) Ridden) :=
  match c.direction with
  | .forward => c.chooseForward rides
  | .reverse => c.chooseReverse rides.first rides.rest

end TripChoice

end Journeys
