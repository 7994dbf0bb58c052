import Journeys.Arrivals
import Journeys.Leg

/-!
# Failures of a reconstruction

An arrival at the destination can fail to become a journey in two ways. Usually the arrival is
unusable: its chain is broken, no trips fit it, or a transfer rule forbids it. Then the candidate is
dropped and the search goes on. The other way is that legs were placed and do not make up a
journey, which points at data that contradicts itself.
-/

namespace Journeys

/-- What is wrong with the order of rides and walks in a chain, or with a ride in it. -/
inductive OrderFault where
  /-- A ride leads to round 0. -/
  | rideInRoundZero
  /-- A walk comes before the first ride. -/
  | walkBeforeFirstRide
  /-- Two walks follow each other. -/
  | twoWalks
  /-- There is no ride. -/
  | noRide
  /-- A walk comes after the last ride. -/
  | walkAfterLastRide
  /-- A ride is left where it is boarded, or earlier in the pattern. -/
  | alightNotAfterBoard
deriving DecidableEq, Repr

/-- The message for a fault in the order. -/
def OrderFault.reason : OrderFault → String
  | rideInRoundZero => "ride recorded in round 0"
  | walkBeforeFirstRide => "walk before the first ride"
  | twoWalks => "two walks in a row"
  | noRide => "no ride in chain"
  | walkAfterLastRide => "walk after the last ride"
  | alightNotAfterBoard => "alight position before board position"

/-- Why an arrival is unusable. -/
inductive ReconstructionError where
  /-- A back-pointer leads to a record that does not exist. -/
  | dangling (id : RecordId)
  /-- The chain is longer than the table, so it loops. -/
  | cyclic
  /-- Rides and walks are in an order that no journey has. -/
  | legOrder (fault : OrderFault)
  /-- The rounds along the chain do not add up. -/
  | roundMismatch (expected actual : Nat)
  /-- A trip does not serve the stop that the chain says it does. -/
  | stopMismatch (stop : Stop) (position : Nat)
  /-- A walk does not start or end where the chain says it does. -/
  | walkMismatch (expected actual : Stop)
  /-- The chain refers to a trip that the timetable does not have. -/
  | unknownTrip (trip : TripSlot)
  /-- No trip fits the recorded times. -/
  | tripNotFound (pattern : PatternId) (time : Time)
  /-- A transfer rule forbids a change. -/
  | forbiddenTransfer (fromTrip toTrip : TripId) (stop : Stop)
  /-- A change is shorter than its rule asks for, or not equal to an exact rule. -/
  | transferTimeViolated (fromTrip toTrip : TripId)
  /-- A walk or a slack leads to a time out of range. -/
  | timeOverflow
deriving DecidableEq, Repr

namespace ReconstructionError

/-- The message for the record of dropped arrivals. -/
def message : ReconstructionError → String
  | dangling id => "arrival " ++ id.tagged ++ " is not in the arrival table"
  | cyclic => "arrival chain does not terminate"
  | legOrder fault => "arrival chain has invalid leg order: " ++ fault.reason
  | roundMismatch expected actual =>
    "round mismatch: expected round " ++ expected.repr ++ ", record says " ++ actual.repr
  | stopMismatch stop position =>
    "trip does not serve stop " ++ stop.text ++ " at position " ++ position.repr
  | walkMismatch expected actual =>
    "walk connects stop " ++ expected.text ++ ", chain has stop " ++ actual.text
  | unknownTrip trip => "unknown trip " ++ trip.trip.repr ++ " in pattern " ++ trip.pattern.tagged
  | tripNotFound pattern time =>
    "no trip in pattern " ++ pattern.tagged ++ " matches board/alight times near " ++ time.text
  | forbiddenTransfer fromTrip toTrip stop =>
    "transfer from " ++ fromTrip.text ++ " to " ++ toTrip.text ++ " at stop " ++ stop.text
      ++ " is forbidden"
  | transferTimeViolated fromTrip toTrip =>
    "transfer from " ++ fromTrip.text ++ " to " ++ toTrip.text ++ " violates its time constraint"
  | timeOverflow => "time out of range while placing legs"

end ReconstructionError

/-- Why there is no journey for an arrival at the destination. -/
inductive RebuildError where
  /-- The arrival is unusable. -/
  | unusable (error : ReconstructionError)
  /-- The legs that were placed are no journey. -/
  | inconsistent (error : JourneyError)
deriving DecidableEq, Repr

/-- The message for whoever asked for the journey. -/
def RebuildError.message : RebuildError → String
  | unusable error => error.message
  | inconsistent error => "internal consistency error: " ++ error.message

/-- The time a span later; a time out of range makes the arrival unusable. -/
def Time.later (t : Time) (d : Span) : Except ReconstructionError Time :=
  match t.add? d with
  | some t' => .ok t'
  | none => .error .timeOverflow

/-- The time a span earlier; a time out of range makes the arrival unusable. -/
def Time.earlier (t : Time) (d : Span) : Except ReconstructionError Time :=
  match t.sub? d with
  | some t' => .ok t'
  | none => .error .timeOverflow

end Journeys
