import Journeys.Cost
import Journeys.Time.Text
import Journeys.Transfer

/-!
# Legs

A `Leg` is one traversed segment of a journey: the access walk from the origin to the first stop, a
ride on one trip, a walk between stops, or the egress walk from the last stop to the destination.

Legs are built by `Leg.access`, `Leg.ride`, `Leg.transfer` and `Leg.egress`, which refuse what
makes no sense. A leg that was read from a text has not passed through them, so `Leg.check` looks at
any leg again: at its times, and at whether its places suit its kind.
-/

namespace Journeys

/-- What is wrong with a leg, times apart. -/
inductive LegFault where
  /-- A ride is left where it is boarded, or earlier in the pattern. -/
  | alightNotAfterBoard
  /-- The places of a leg do not suit its kind. -/
  | placesDoNotMatch
  /-- The legs do not run from the origin to the destination. -/
  | wrongEnds
deriving DecidableEq, Repr

/-- The message for a fault. -/
def LegFault.reason : LegFault → String
  | alightNotAfterBoard => "alight position must be after board position"
  | placesDoNotMatch => "leg kind does not match its places"
  | wrongEnds => "path must run from origin to destination"

/-- Why legs do not make up a journey. -/
inductive JourneyError where
  /-- There are no legs. -/
  | empty
  /-- A leg ends before it starts. -/
  | negativeDuration (start finish : Time)
  /-- A leg does not start where the previous one ended. -/
  | notConnected (previous next : Place)
  /-- A leg starts before the previous one ended. -/
  | overlapping (previousFinish nextStart : Time)
  /-- A leg makes no sense where it stands. -/
  | invalidLeg (fault : LegFault)
deriving DecidableEq, Repr

namespace JourneyError

/-- The message for whoever supplied the legs. -/
def message : JourneyError → String
  | empty => "path must have at least one leg"
  | negativeDuration start finish =>
    "leg ends at " ++ finish.text ++ " before it starts at " ++ start.text
  | notConnected previous next =>
    "legs are not connected: " ++ previous.tagged ++ " does not match " ++ next.tagged
  | overlapping previousFinish nextStart =>
    "leg starting at " ++ nextStart.text ++ " overlaps previous leg ending at "
      ++ previousFinish.text
  | invalidLeg fault => "invalid leg: " ++ fault.reason

end JourneyError

/-- The particulars of a ride on one trip. -/
structure RideDetails where
  /-- The published identity of the trip. -/
  tripId : TripId
  /-- Where the trip stands in the timetable. -/
  trip : TripSlot
  /-- The position of the boarding in the pattern. -/
  boardPos : Nat
  /-- The position of the alighting in the pattern. -/
  alightPos : Nat
  /-- The slack asked for before boarding. -/
  boardSlack : Span
  /-- The slack asked for after alighting. -/
  alightSlack : Span
  /-- The transfer rule under which the trip was boarded, if there is one. -/
  rule : Option TransferRule
deriving DecidableEq, Repr

/-- What kind of segment a leg is. -/
inductive LegKind where
  /-- The walk from the origin. -/
  | access
  /-- A ride. -/
  | ride (ride : RideDetails)
  /-- A walk between stops. -/
  | transfer
  /-- The walk to the destination. -/
  | egress
deriving DecidableEq, Repr

/-- Whether a leg of this kind may lead from the first place to the second. -/
def LegKind.joins : LegKind → Place → Place → Bool
  | access, .origin, .stop _ => true
  | ride _, .stop _, .stop _ => true
  | transfer, .stop _, .stop _ => true
  | egress, .stop _, .destination => true
  | _, _, _ => false

/-- One traversed segment of a journey. -/
structure Leg where
  /-- What kind of segment it is. -/
  kind : LegKind
  /-- Where it starts. -/
  fromPlace : Place
  /-- Where it ends. -/
  toPlace : Place
  /-- When it starts. -/
  start : Time
  /-- When it ends. -/
  finish : Time
  /-- Its generalized cost, if it was priced. -/
  cost : Option Cost
deriving DecidableEq, Repr

namespace Leg

/-- Checks that a leg does not end before it starts and that its places suit its kind. -/
def check (leg : Leg) : Except JourneyError Unit :=
  if leg.finish < leg.start then
    .error (.negativeDuration leg.start leg.finish)
  else if leg.kind.joins leg.fromPlace leg.toPlace then
    .ok ()
  else
    .error (.invalidLeg .placesDoNotMatch)

/-- The leg with these parts, not priced yet, if it passes the check. -/
def build (kind : LegKind) (fromPlace toPlace : Place) (start finish : Time) :
    Except JourneyError Leg := do
  let leg : Leg := { kind, fromPlace, toPlace, start, finish, cost := none }
  leg.check
  return leg

/-- The walk from the origin to a stop. -/
def access (stop : Stop) (start finish : Time) : Except JourneyError Leg :=
  build .access .origin (.stop stop) start finish

/-- The ride on a trip from one stop to another, further on in its pattern. -/
def ride (ride : RideDetails) (board alight : Stop) (start finish : Time) :
    Except JourneyError Leg :=
  if ride.alightPos ≤ ride.boardPos then
    .error (.invalidLeg .alightNotAfterBoard)
  else
    build (.ride ride) (.stop board) (.stop alight) start finish

/-- The walk from one stop to another. -/
def transfer (fromStop toStop : Stop) (start finish : Time) : Except JourneyError Leg :=
  build .transfer (.stop fromStop) (.stop toStop) start finish

/-- The walk from a stop to the destination. -/
def egress (stop : Stop) (start finish : Time) : Except JourneyError Leg :=
  build .egress (.stop stop) .destination start finish

/-- The same leg with this cost. -/
def priced (leg : Leg) (cost : Cost) : Leg := { leg with cost := some cost }

/-- The time from the start of a leg to its end. -/
def duration (leg : Leg) : Span := leg.finish.since leg.start

/-- The particulars of the ride, if the leg is one. -/
def ride? (leg : Leg) : Option RideDetails :=
  match leg.kind with
  | .ride ride => some ride
  | _ => none

/-- Whether a leg is a ride. -/
def isRide (leg : Leg) : Bool := leg.ride?.isSome

/-- Whether a leg is a walk between stops. -/
def isTransfer (leg : Leg) : Bool :=
  match leg.kind with
  | .transfer => true
  | _ => false

/-- A leg passes the check exactly when its times do not go backwards and its places suit its
kind. -/
theorem check_eq_ok_iff {leg : Leg} :
    leg.check = .ok () ↔
      leg.start ≤ leg.finish ∧ leg.kind.joins leg.fromPlace leg.toPlace = true := by
  unfold check
  split
  · rename_i h
    simp [← Time.not_lt, h]
  · rename_i h
    split
    · rename_i hj
      simp [← Time.not_lt, h, hj]
    · rename_i hj
      simp [hj]

/-- A leg that was built passes the check. -/
theorem check_of_build {kind : LegKind} {fromPlace toPlace : Place} {start finish : Time}
    {leg : Leg} (h : build kind fromPlace toPlace start finish = .ok leg) :
    leg.check = .ok () ∧ leg = ⟨kind, fromPlace, toPlace, start, finish, none⟩ := by
  simp only [build, bind, Except.bind] at h
  split at h
  · cases h
  · rename_i hc
    cases h
    exact ⟨hc, rfl⟩

end Leg

end Journeys
