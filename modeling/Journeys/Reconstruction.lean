import Journeys.Reconstruction.Placement
import Journeys.Tariff

/-!
# Reconstruction

`Reconstruction.journey` rebuilds the journey behind an arrival at the destination, step by step
through the data between: the journey as it was recorded, its rides with their trips, the changes
between them with their rules, the legs, and the journey. Whatever stands between an arrival and a
journey is reported at the first of these steps where it shows.
-/

namespace Journeys

/-- Rebuilds journeys from the arrivals of a search; any way of doing so will serve a result set. -/
abbrev Rebuilder := Arrivals → FinalArrival → Except RebuildError Journey

/-- What rebuilding a journey needs besides the arrival table. -/
structure Reconstruction where
  /-- Which way the search ran. -/
  direction : Direction
  /-- The timetable. -/
  network : Network
  /-- The slack around boarding and alighting. -/
  slack : SlackPolicy
  /-- The transfer rules. -/
  rules : TransferRules
  /-- The formula for costs, if journeys are to have one. -/
  tariff : Option Tariff := none
  /-- Whether the recorded trips are trusted. -/
  approximate : Bool := false

namespace Reconstruction

/-- Whether journeys get a cost. -/
def isPriced (c : Reconstruction) : Bool := c.tariff.isSome

/-- The rides behind an arrival on definite trips, with the rules between them, and the recorded
journey that they come from. -/
def rides (c : Reconstruction) (table : Arrivals) (arrival : FinalArrival) :
    Except ReconstructionError (RecordedJourney × Linked Change Ridden) := do
  let recorded ← RecordedJourney.ofArrival c.network c.slack c.direction table arrival
  let choice : TripChoice :=
    { direction := c.direction, rules := c.rules, approximate := c.approximate,
      anchor := recorded.anchor }
  let ridden ← choice.chooseAll recorded.rides
  let settled ← Change.ofRides c.rules ridden
  return (recorded, settled)

/-- The journey of legs, priced if there is a tariff. -/
def journeyOfLegs (tariff : Option Tariff) (legs : List Leg) : Except JourneyError Journey :=
  match tariff with
  | none => Journey.ofLegs legs none
  | some tariff =>
    let (priced, total) := tariff.price legs
    Journey.ofLegs priced (some total)

/-- The journey behind an arrival at the destination. -/
def journey (c : Reconstruction) : Rebuilder := fun table arrival => do
  let (recorded, rides) ← Placement.unusable (c.rides table arrival)
  let legs ← Placement.legs recorded.access recorded.egress rides
  Placement.inconsistent (journeyOfLegs c.tariff legs)

end Reconstruction

end Journeys
