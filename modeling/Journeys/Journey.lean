import Journeys.Leg

/-!
# Journeys

A `Journey` is one complete candidate for a search: an access walk, rides that may be joined by
walks between stops, and an egress walk. Its legs passed `Journey.check`: there is at least one,
they run from the origin to the destination, each is sound by itself, and each starts where and not
before the previous one ended.

Start, end, boardings and the waiting time are read off the legs. Two journeys with the same times
and different trips are different candidates.
-/

namespace Journeys

/-- A trip boarded, and the stop where that happened. -/
structure Boarding where
  /-- The trip. -/
  trip : TripId
  /-- The stop. -/
  stop : Stop
deriving DecidableEq, Repr

namespace Journey

/-- Checks that each leg starts where, and not before, the previous one ended. -/
def checkLinks : List Leg → Except JourneyError Unit
  | a :: b :: rest =>
    if a.toPlace ≠ b.fromPlace then
      .error (.notConnected a.toPlace b.fromPlace)
    else if b.start < a.finish then
      .error (.overlapping a.finish b.start)
    else
      checkLinks (b :: rest)
  | _ => .ok ()

/-- Checks that legs make up a journey: first the two ends, then every leg by itself, then the links
between them. -/
def check (legs : List Leg) : Except JourneyError Unit :=
  match h : legs with
  | [] => .error .empty
  | first :: _ =>
    if first.fromPlace ≠ .origin ∨ (legs.getLast (by simp [h])).toPlace ≠ .destination then
      .error (.invalidLeg .wrongEnds)
    else do
      legs.forM Leg.check
      checkLinks legs

/-- Legs that pass the check are not nothing. -/
theorem ne_nil_of_check {legs : List Leg} (h : check legs = .ok ()) : legs ≠ [] := by
  rintro rfl
  cases h

end Journey

/-- A complete candidate from the origin of a search to its destination. -/
structure Journey where
  /-- The legs in order of travel. -/
  legs : List Leg
  /-- The generalized cost of the whole, if the search prices its journeys. -/
  cost : Option Cost
  /-- The departure time of the search iteration that found it, if there was one. -/
  iteration : Option Time
  /-- The legs make up a journey. -/
  checked : Journey.check legs = .ok ()
deriving DecidableEq

namespace Journey

/-- The journey of these legs, in order of travel. -/
def ofLegs (legs : List Leg) (cost : Option Cost) : Except JourneyError Journey :=
  match checked : check legs with
  | .ok () => .ok { legs, cost, iteration := none, checked }
  | .error e => .error e

/-- The same journey, found by the search iteration that departs at `time`. -/
def atIteration (j : Journey) (time : Time) : Journey := { j with iteration := some time }

variable (j : Journey)

/-- A journey has legs. -/
theorem legs_ne_nil : j.legs ≠ [] := ne_nil_of_check j.checked

/-- The first leg. -/
def first : Leg := j.legs.head j.legs_ne_nil

/-- The last leg. -/
def last : Leg := j.legs.getLast j.legs_ne_nil

/-- When the journey leaves the origin. -/
def startTime : Time := j.first.start

/-- When the journey reaches the destination. -/
def endTime : Time := j.last.finish

/-- The time from the start of the journey to its end. -/
def duration : Span := j.endTime.since j.startTime

/-- The time spent between legs: the duration of the journey less that of its legs. There is none
only if adding up the legs leaves the range of spans. -/
def waiting? : Option Span := do
  let moving ← Span.sum? (j.legs.map Leg.duration)
  j.duration.sub? moving

/-- The rides, in order of travel. -/
def rideLegs : List Leg := j.legs.filter Leg.isRide

/-- The trip and the stop of a boarding, if the leg is a ride. -/
def boardingOf? (leg : Leg) : Option Boarding := do
  let ride ← leg.ride?
  let stop ← leg.fromPlace.stop?
  return ⟨ride.tripId, stop⟩

/-- The trips boarded, in order of travel, with the stops where they are boarded. -/
def boardings : List Boarding := j.legs.filterMap boardingOf?

/-- The number of rides, which is the search round that found the journey. -/
def rideCount : Nat := j.boardings.length

/-- The number of changes between rides. -/
def transfers : Nat := j.rideCount - 1

/-- The stop that the access walk leads to. -/
def firstStop? : Option Stop := j.first.toPlace.stop?

/-- The stop that the egress walk leaves from. -/
def lastStop? : Option Stop := j.last.fromPlace.stop?

/-! ## Building -/

/-- A list of legs makes up a journey exactly when it passes the check, and the journey then has
these legs and this cost. -/
theorem ofLegs_eq_ok_iff {legs : List Leg} {cost : Option Cost} {j : Journey} :
    ofLegs legs cost = .ok j ↔ j.legs = legs ∧ j.cost = cost ∧ j.iteration = none := by
  unfold ofLegs
  split
  · rename_i hc
    constructor
    · intro h; cases h; exact ⟨rfl, rfl, rfl⟩
    · rintro ⟨rfl, rfl, hi⟩
      cases j
      simp_all
  · rename_i e hc
    constructor
    · intro h; cases h
    · rintro ⟨rfl, -, -⟩
      have := j.checked
      rw [this] at hc
      cases hc

end Journey

end Journeys
