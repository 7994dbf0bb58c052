import Journeys.Reconstruction.Change

/-!
# Placing legs

The rides have their times from the timetable; the walks are placed around them. The access walk
arrives just in time for the first boarding and its slack. Every other walk sets out as soon as the
slack after alighting allows. Both directions of search share this, so the same rides become the
same legs whichever way they were found.
-/

namespace Journeys

namespace Placement

/-- A reconstruction step in the setting where legs may fail too. -/
def unusable {α : Type} (x : Except ReconstructionError α) : Except RebuildError α :=
  x.mapError .unusable

/-- A leg in the setting where the arrival may be unusable. -/
def inconsistent {α : Type} (x : Except JourneyError α) : Except RebuildError α :=
  x.mapError .inconsistent

/-- The walk from the origin to the first ride. -/
def accessLeg (access : StreetWalk) (r : Ridden) : Except RebuildError Leg := do
  let finish ← unusable (r.boardTime.earlier r.ride.boardSlack)
  let start ← unusable (finish.earlier access.duration)
  inconsistent (Leg.access access.stop start finish)

/-- A ride as a leg; `rule` is the rule under which it is boarded. -/
def rideLeg (rule : Option TransferRule) (r : Ridden) : Except RebuildError Leg :=
  let details : RideDetails := {
    tripId := r.tripId
    trip := r.trip
    boardPos := r.ride.hop.boardPos
    alightPos := r.ride.hop.alightPos
    boardSlack := r.ride.boardSlack
    alightSlack := r.ride.alightSlack
    rule }
  inconsistent (Leg.ride details r.ride.board r.ride.alight r.boardTime r.alightTime)

/-- The walk of a change as a leg, if there is one. -/
def transferLegs (a : Ridden) (change : Change) (b : Ridden) :
    Except RebuildError (List Leg) :=
  match change.walk with
  | none => .ok []
  | some walk => do
    let start ← unusable (a.alightTime.later a.ride.alightSlack)
    let finish ← unusable (start.later walk)
    let leg ← inconsistent (Leg.transfer a.ride.alight b.ride.board start finish)
    return [leg]

/-- The walk from the last ride to the destination. -/
def egressLeg (egress : StreetWalk) (r : Ridden) : Except RebuildError Leg := do
  let start ← unusable (r.alightTime.later r.ride.alightSlack)
  let finish ← unusable (start.later egress.duration)
  inconsistent (Leg.egress egress.stop start finish)

/-- The legs from a ride on, given the rule under which it is boarded. -/
def legsFrom (egress : StreetWalk) :
    Option TransferRule → Ridden → List (Change × Ridden) → Except RebuildError (List Leg)
  | rule, r, [] => do
    let leg ← rideLeg rule r
    let last ← egressLeg egress r
    return [leg, last]
  | rule, r, (change, next) :: rest => do
    let leg ← rideLeg rule r
    let walk ← transferLegs r change next
    let behind ← legsFrom egress change.rule next rest
    return leg :: (walk ++ behind)

/-- All legs of a journey, in order of travel. -/
def legs (access egress : StreetWalk) (rides : Linked Change Ridden) :
    Except RebuildError (List Leg) := do
  let first ← accessLeg access rides.first
  let behind ← legsFrom egress none rides.first rides.rest
  return first :: behind

end Placement

end Journeys
