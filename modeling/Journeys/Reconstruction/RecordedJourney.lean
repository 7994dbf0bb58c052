import Journeys.Linked
import Journeys.Reconstruction.Error

/-!
# Recorded journeys

A `RecordedJourney` is the journey behind an arrival at the destination as the search recorded it:
rides in order of travel, joined by walks or changes at a stop, between an access and an egress
walk.

`RecordedJourney.ofArrival` follows the back-pointers of the table and then reads the steps as
`Ride (Walk? Ride)*`, looking every ride up in the timetable. Tables may hold any records, so each
step is checked: its record must exist, its round must be the one that the step implies, and a
chain that is longer than the table is a loop.
-/

namespace Journeys

/-- One step of a chain, as recorded. -/
inductive RecordedStep where
  /-- A ride; `time` is when the alight stop is reached (forward) or the board stop has to be left
  (reverse). -/
  | ride (hop : Hop) (board alight : Stop) (time : Time)
  /-- A walk between stops. -/
  | walk (duration : Span)
deriving DecidableEq, Repr

/-- The steps behind an arrival in the order in which back-pointers lead to them, and where these
end. -/
structure Trail where
  /-- The steps, the last one recorded first. -/
  steps : List RecordedStep
  /-- The walk that the search started with. -/
  start : StreetWalk
  /-- The time of the record of that walk. -/
  anchor : Time
deriving DecidableEq, Repr

namespace Trail

/-- The record with a number, or the failure that it does not exist. -/
def lookup (table : Arrivals) (id : RecordId) : Except ReconstructionError ArrivalRecord :=
  match table.get? id with
  | some record => .ok record
  | none => .error (.dangling id)

/-- Checks the round of a record. -/
def expectRound (record : ArrivalRecord) (round : Nat) : Except ReconstructionError Unit :=
  if record.round = round then .ok () else .error (.roundMismatch round record.round)

/-- A ride between two records that follow each other in search direction. A forward search records
where a ride leads to, a reverse search where it comes from. -/
def recordedRide (direction : Direction) (hop : Hop) (before record : ArrivalRecord) :
    RecordedStep :=
  match direction with
  | .forward => .ride hop before.stop record.stop record.time
  | .reverse => .ride hop record.stop before.stop record.time

/-- Follows the back-pointers from a record to the access walk of its chain, at most `fuel - 1` of
them. -/
def follow (table : Arrivals) (direction : Direction) :
    Nat → ArrivalRecord → Except ReconstructionError Trail
  | 0, _ => .error .cyclic
  | fuel + 1, record =>
    match record.approach with
    | .access walk =>
      if walk.stop ≠ record.stop then
        .error (.walkMismatch walk.stop record.stop)
      else do
        expectRound record 0
        return { steps := [], start := walk, anchor := record.time }
    | .ride previous hop => do
      let before ← lookup table previous
      if record.round = 0 then
        .error (.legOrder .rideInRoundZero)
      else
        expectRound before (record.round - 1)
        let trail ← follow table direction fuel before
        return { trail with steps := recordedRide direction hop before record :: trail.steps }
    | .walk previous duration => do
      let before ← lookup table previous
      expectRound before record.round
      let trail ← follow table direction fuel before
      return { trail with steps := .walk duration :: trail.steps }

/-- The trail behind an arrival at the destination. A chain without a loop has at most as many steps
as the table has records, so one more back-pointer than that is never needed. -/
def ofArrival (table : Arrivals) (direction : Direction) (arrival : FinalArrival) :
    Except ReconstructionError Trail := do
  let record ← lookup table arrival.previous
  if record.stop ≠ arrival.egress.stop then
    .error (.walkMismatch arrival.egress.stop record.stop)
  else
    expectRound record arrival.round
    follow table direction (table.size + 1) record

end Trail

/-- One ride of a chain, with what the timetable and the network say about it. -/
structure RecordedRide where
  /-- The trip and positions that the search recorded. -/
  hop : Hop
  /-- Where the ride is boarded. -/
  board : Stop
  /-- Where the ride is left. -/
  alight : Stop
  /-- The pattern of the recorded trip. -/
  pattern : Pattern
  /-- The recorded trip. -/
  recorded : Trip
  /-- The arrival at the alight stop (forward) or the departure from the board stop (reverse), as
  recorded. -/
  time : Time
  /-- The slack before boarding, never negative; none beside a transfer rule. -/
  boardSlack : Span
  /-- The slack after alighting, never negative; none beside a transfer rule. -/
  alightSlack : Span
deriving DecidableEq

/-- A recorded journey in order of travel. A link between two rides is the walk between them, if
there is one. -/
structure RecordedJourney where
  /-- The walk from the origin. -/
  access : StreetWalk
  /-- The walk to the destination. -/
  egress : StreetWalk
  /-- The time of the access record: the arrival at the first stop in a forward search, the latest
  departure from the last stop in a reverse one. -/
  anchor : Time
  /-- The rides. -/
  rides : Linked (Option Span) RecordedRide

namespace RecordedRide

/-- Checks that a pattern has a stop at a position. -/
def expectStop (pattern : Pattern) (stop : Stop) (position : Nat) :
    Except ReconstructionError Unit :=
  if pattern.stop? position = some stop then .ok () else .error (.stopMismatch stop position)

/-- Looks a recorded ride up in the timetable. The recorded trip must exist even where another one
will be ridden. -/
def resolve (network : Network) (slack : SlackPolicy) (hop : Hop) (board alight : Stop)
    (time : Time) : Except ReconstructionError RecordedRide :=
  if hop.alightPos ≤ hop.boardPos then
    .error (.legOrder .alightNotAfterBoard)
  else
    match network.pattern? hop.trip.pattern with
    | none => .error (.unknownTrip hop.trip)
    | some pattern => do
      expectStop pattern board hop.boardPos
      expectStop pattern alight hop.alightPos
      match pattern.trip? hop.trip.trip with
      | none => .error (.unknownTrip hop.trip)
      | some recorded =>
        return {
          hop, board, alight, pattern, recorded, time
          boardSlack := (slack.board board hop.trip).clampNonneg
          alightSlack := (slack.alight alight hop.trip).clampNonneg }

end RecordedRide

namespace RecordedJourney

/-- Reads the steps behind a ride as `(Walk? Ride)*`; `walk` is the walk just read, if there is
one. -/
def readRest (resolve : Hop → Stop → Stop → Time → Except ReconstructionError RecordedRide) :
    Option Span → List RecordedStep → Except ReconstructionError (List (Option Span × RecordedRide))
  | none, [] => .ok []
  | some _, [] => .error (.legOrder .walkAfterLastRide)
  | none, .walk duration :: steps => readRest resolve (some duration) steps
  | some _, .walk _ :: _ => .error (.legOrder .twoWalks)
  | walk, .ride hop board alight time :: steps => do
    let ride ← resolve hop board alight time
    let rest ← readRest resolve none steps
    return (walk, ride) :: rest

/-- Reads steps in order of travel as `Ride (Walk? Ride)*`. -/
def readRides (resolve : Hop → Stop → Stop → Time → Except ReconstructionError RecordedRide) :
    List RecordedStep → Except ReconstructionError (Linked (Option Span) RecordedRide)
  | [] => .error (.legOrder .noRide)
  | .walk _ :: _ => .error (.legOrder .walkBeforeFirstRide)
  | .ride hop board alight time :: steps => do
    let first ← resolve hop board alight time
    let rest ← readRest resolve none steps
    return { first, rest }

/-- The journey of a trail, with its steps turned into order of travel. The walks at its two ends
are the one that the search started with and the one of the arrival. -/
def ofTrail (network : Network) (slack : SlackPolicy) (direction : Direction) (egress : StreetWalk)
    (trail : Trail) : Except ReconstructionError RecordedJourney := do
  match direction with
  | .forward =>
    let rides ← readRides (RecordedRide.resolve network slack) trail.steps.reverse
    return { access := trail.start, egress, anchor := trail.anchor, rides }
  | .reverse =>
    let rides ← readRides (RecordedRide.resolve network slack) trail.steps
    return { access := egress, egress := trail.start, anchor := trail.anchor, rides }

/-- The journey behind an arrival at the destination. It has as many rides as the arrival has
rounds. -/
def ofArrival (network : Network) (slack : SlackPolicy) (direction : Direction)
    (table : Arrivals) (arrival : FinalArrival) : Except ReconstructionError RecordedJourney := do
  let trail ← Trail.ofArrival table direction arrival
  let journey ← ofTrail network slack direction arrival.egress trail
  if journey.rides.length = arrival.round then
    return journey
  else
    .error (.roundMismatch arrival.round journey.rides.length)

end RecordedJourney

end Journeys
