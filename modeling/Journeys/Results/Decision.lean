import Journeys.Reconstruction

/-!
# Limits, outcomes and decisions

The vocabulary of a result set: the bound that it may put on the times of arrivals, what can become
of an arrival that is offered, and what those are told who listen to its decisions or to the
progress of the search.
-/

namespace Journeys

/-- A bound on the times of arrivals at the destination. -/
inductive TimeBound where
  /-- Forward searches: arrive no later than this. -/
  | latestArrival (time : Time)
  /-- Reverse searches: leave no earlier than this. -/
  | earliestDeparture (time : Time)
deriving DecidableEq, Repr

namespace TimeBound

/-- Whether an arrival at this time is within the limit. -/
def admits : TimeBound → Time → Bool
  | latestArrival limit, time => time ≤ limit
  | earliestDeparture limit, time => limit ≤ time

/-- The limit that a time sets to a search in a direction. -/
def forDirection (direction : Direction) (time : Time) : TimeBound :=
  match direction with
  | .forward => latestArrival time
  | .reverse => earliestDeparture time

/-- The text of a limit with its kind in front, as diagnostics show it. -/
def tagged : TimeBound → String
  | latestArrival time => "LatestArrival(" ++ time.tagged ++ ")"
  | earliestDeparture time => "EarliestDeparture(" ++ time.tagged ++ ")"

end TimeBound

/-- What became of an arrival that was offered. -/
inductive Outcome where
  /-- Its journey was stored, and this many others left. -/
  | accepted (evicted : Nat)
  /-- A stored journey dominates it. -/
  | dominated
  /-- A stored journey is equal on every criterion. -/
  | duplicate
  /-- It is outside the time limit. -/
  | outsideTimeLimit
  /-- There is no journey for it. -/
  | dropped (error : ReconstructionError)
deriving DecidableEq, Repr

/-- Whether the journey of the arrival was stored. -/
def Outcome.isAccepted : Outcome → Bool
  | accepted _ => true
  | _ => false

/-- Why an arrival did not make it into the result set. -/
inductive Rejection where
  /-- A stored journey dominates it. -/
  | dominated
  /-- A stored journey is equal on every criterion. -/
  | duplicate
  /-- It is outside the time limit. -/
  | outsideTimeLimit
deriving DecidableEq, Repr

/-- A decision of a result set. -/
inductive Decision where
  /-- A journey was stored. -/
  | accepted (journey : Journey)
  /-- An arrival was rejected; its journey is known unless the time limit kept it out. -/
  | rejected (journey : Option Journey) (reason : Rejection)
  /-- A stored journey left because another one dominates it. -/
  | evicted (journey newcomer : Journey)
  /-- There is no journey for an arrival. -/
  | dropped (arrival : FinalArrival) (error : ReconstructionError)
deriving DecidableEq

/-- A boundary that a search passes. -/
inductive Progress where
  /-- An iteration of a range search starts. -/
  | iterationStart (departure : Time)
  /-- A round starts. -/
  | roundStart (round : Nat)
  /-- A round is complete. -/
  | roundEnd (round : Nat)
  /-- All rounds and iterations are done. -/
  | searchComplete
deriving DecidableEq, Repr

/-- What is made known to those who listen. -/
inductive Event where
  /-- A decision, told to the one who listens to decisions. -/
  | decision (decision : Decision)
  /-- Progress, told to the observer with this number. -/
  | progress (observer : Nat) (progress : Progress)
deriving DecidableEq

end Journeys
