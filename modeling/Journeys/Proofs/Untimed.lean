import Journeys.Proofs.Reconstruction

/-!
# Proofs: recorded times, and what else no leg shows

The time that was recorded with a ride serves one purpose, to end the scan for its trip. All other
steps of a reconstruction commute with erasing it: reading the steps of a chain, settling rules and
placing legs. So two reconstructions that agree up to recorded times and ride the same trips give
the same journey, or fail alike.

Settling and placing are blind to more than the time. Of a ride on its trip they only look at what
its leg will show, so they commute with any change to the rest (`Ridden.Unseen`).
-/

namespace Journeys

/-- The step without its recorded time. -/
def RecordedStep.untimed : RecordedStep → RecordedStep
  | .ride hop board alight _ => .ride hop board alight .midnight
  | .walk duration => .walk duration

/-- The ride without its recorded time. -/
def RecordedRide.untimed (r : RecordedRide) : RecordedRide := { r with time := .midnight }

/-- The same of a ride with its trip. -/
def Ridden.untimed (r : Ridden) : Ridden := { r with ride := r.ride.untimed }

/-! ## Reading -/

namespace RecordedRide

theorem map_untimed_resolve (network : Network) (slack : SlackPolicy) (hop : Hop)
    (board alight : Stop) (time : Time) :
    untimed <$> resolve network slack hop board alight time =
      resolve network slack hop board alight .midnight := by
  unfold resolve
  split
  · rfl
  · split
    · rfl
    · rename_i pattern hpattern
      simp only [map_bind]
      split
      · rfl
      · rfl

end RecordedRide

namespace RecordedJourney

variable {network : Network} {slack : SlackPolicy}

theorem map_untimed_readRest (walk : Option Span) (steps : List RecordedStep) :
    List.map (Prod.map id RecordedRide.untimed) <$>
        readRest (RecordedRide.resolve network slack) walk steps =
      readRest (RecordedRide.resolve network slack) walk (steps.map RecordedStep.untimed) := by
  induction steps generalizing walk with
  | nil => cases walk <;> rfl
  | cons step steps ih =>
    cases step with
    | ride hop board alight time =>
      rw [List.map_cons, RecordedStep.untimed, readRest_cons_ride, readRest_cons_ride, ← ih,
        ← RecordedRide.map_untimed_resolve network slack hop board alight time]
      simp
    | walk duration =>
      cases walk with
      | none => exact ih (some duration)
      | some _ => rfl

theorem map_untimed_readRides (steps : List RecordedStep) :
    Linked.map id RecordedRide.untimed <$> readRides (RecordedRide.resolve network slack) steps =
      readRides (RecordedRide.resolve network slack) (steps.map RecordedStep.untimed) := by
  cases steps with
  | nil => rfl
  | cons step steps =>
    cases step with
    | ride hop board alight time =>
      rw [List.map_cons, RecordedStep.untimed, readRides, readRides, ← map_untimed_readRest,
        ← RecordedRide.map_untimed_resolve network slack hop board alight time]
      simp [Linked.map]
    | walk duration => rfl

end RecordedJourney

/-! ## What no leg shows -/

/-- A change to rides on their trips that no leg shows: trip and times, stops and positions stay as
they are, and so does slack, whether it is taken away before or after. -/
structure Ridden.Unseen (f : Ridden → Ridden) : Prop where
  trip : ∀ r, (f r).trip = r.trip
  tripId : ∀ r, (f r).tripId = r.tripId
  boardTime : ∀ r, (f r).boardTime = r.boardTime
  alightTime : ∀ r, (f r).alightTime = r.alightTime
  board : ∀ r, (f r).ride.board = r.ride.board
  alight : ∀ r, (f r).ride.alight = r.ride.alight
  boardPos : ∀ r, (f r).ride.hop.boardPos = r.ride.hop.boardPos
  alightPos : ∀ r, (f r).ride.hop.alightPos = r.ride.hop.alightPos
  boardSlack : ∀ r, (f r).ride.boardSlack = r.ride.boardSlack
  alightSlack : ∀ r, (f r).ride.alightSlack = r.ride.alightSlack
  withoutBoardSlack : ∀ r, (f r).withoutBoardSlack = f r.withoutBoardSlack
  withoutAlightSlack : ∀ r, (f r).withoutAlightSlack = f r.withoutAlightSlack

theorem Ridden.unseen_untimed : Unseen untimed := by
  constructor <;> exact fun _ => rfl

namespace Change

variable {rules : TransferRules} {f : Ridden → Ridden}

theorem map_settle (hf : Ridden.Unseen f) (a : Ridden) (rest : List (Option Span × Ridden)) :
    Linked.map id f <$> settle rules a rest =
      settle rules (f a) (rest.map (Prod.map id f)) := by
  induction rest generalizing a with
  | nil => rfl
  | cons p rest ih =>
    obtain ⟨walk, b⟩ := p
    -- rules are between trips at positions of stops
    have hrule : Ridden.ruleBetween? rules (f a) (f b) = Ridden.ruleBetween? rules a b := by
      simp only [Ridden.ruleBetween?, Ridden.alightEnd, Ridden.boardEnd, hf.tripId, hf.alight,
        hf.alightPos, hf.board, hf.boardPos]
    rw [List.map_cons, Prod.map_apply, settle, settle, hrule]
    split
    · rw [← ih b]
      simp [Linked.map_cons]
    · rw [hf.tripId, hf.tripId, hf.board]
      rfl
    · rw [hf.withoutBoardSlack, hf.withoutAlightSlack, ← ih b.withoutBoardSlack]
      simp [Linked.map_cons]

theorem checkRules_map (hf : Ridden.Unseen f) (a : Ridden) (rest : List (Change × Ridden)) :
    checkRules (f a) (rest.map (Prod.map id f)) = checkRules a rest := by
  induction rest generalizing a with
  | nil => rfl
  | cons p rest ih =>
    obtain ⟨change, b⟩ := p
    have hgap : (f a).gap (f b) = a.gap b := by
      rw [Ridden.gap, Ridden.gap, hf.boardTime, hf.alightTime]
    rw [List.map_cons, Prod.map_apply, id_eq, checkRules, checkRules, ih, hgap, hf.tripId,
      hf.tripId]

theorem map_ofRides (hf : Ridden.Unseen f) (rides : Linked (Option Span) Ridden) :
    Linked.map id f <$> ofRides rules rides = ofRides rules (rides.map id f) := by
  have hsettle : settle rules (f rides.first) (rides.rest.map (Prod.map id f)) =
      Linked.map id f <$> settle rules rides.first rides.rest :=
    (map_settle hf rides.first rides.rest).symm
  rw [ofRides, ofRides, Linked.map, hsettle, map_bind, bind_map_left]
  refine bind_congr fun settled => ?_
  rw [Linked.map, checkRules_map hf]
  simp [Linked.map]

end Change

namespace Placement

variable {f : Ridden → Ridden}

theorem legsFrom_map (hf : Ridden.Unseen f) (egress : StreetWalk) (rule : Option TransferRule)
    (r : Ridden) (rest : List (Change × Ridden)) :
    legsFrom egress rule (f r) (rest.map (Prod.map id f)) = legsFrom egress rule r rest := by
  have hride (rule : Option TransferRule) (r : Ridden) : rideLeg rule (f r) = rideLeg rule r := by
    simp only [rideLeg, hf.trip, hf.tripId, hf.boardTime, hf.alightTime, hf.board, hf.alight,
      hf.boardPos, hf.alightPos, hf.boardSlack, hf.alightSlack]
  induction rest generalizing rule r with
  | nil =>
    have hlast : egressLeg egress (f r) = egressLeg egress r := by
      rw [egressLeg, egressLeg, hf.alightTime, hf.alightSlack]
    rw [List.map_nil, legsFrom, legsFrom, hride, hlast]
  | cons p rest ih =>
    obtain ⟨change, next⟩ := p
    have hwalk : transferLegs (f r) change (f next) = transferLegs r change next := by
      simp only [transferLegs, hf.alightTime, hf.alightSlack, hf.alight, hf.board]
    rw [List.map_cons, Prod.map_apply, id_eq, legsFrom, legsFrom, ih, hride, hwalk]

theorem legs_map (hf : Ridden.Unseen f) (access egress : StreetWalk)
    (rides : Linked Change Ridden) :
    legs access egress (rides.map id f) = legs access egress rides := by
  have hfirst : accessLeg access (f rides.first) = accessLeg access rides.first := by
    rw [accessLeg, accessLeg, hf.boardTime, hf.boardSlack]
  rw [legs, legs, Linked.map, hfirst, legsFrom_map hf]

end Placement

/-! ## The whole -/

namespace Reconstruction

variable {c : Reconstruction} {table : Arrivals} {arrival : FinalArrival} {j : Journey}

/-- The journey of rides on their trips. -/
def assemble (c : Reconstruction) (access egress : StreetWalk)
    (ridden : Linked (Option Span) Ridden) : Except RebuildError Journey := do
  let settled ← Placement.unusable (Change.ofRides c.rules ridden)
  let legs ← Placement.legs access egress settled
  Placement.inconsistent (journeyOfLegs c.tariff legs)

theorem journey_eq (c : Reconstruction) (table : Arrivals) (arrival : FinalArrival) :
    c.journey table arrival = (do
      let recorded ← Placement.unusable
        (RecordedJourney.ofArrival c.network c.slack c.direction table arrival)
      let ridden ← Placement.unusable
        ((c.choice recorded.anchor).chooseAll recorded.rides)
      c.assemble recorded.access recorded.egress ridden) := by
  have hbind {α β : Type} (x : Except ReconstructionError α)
      (f : α → Except ReconstructionError β) : Placement.unusable (x >>= f) =
        Placement.unusable x >>= fun a => Placement.unusable (f a) := by
    cases x <;> rfl
  simp only [journey, rides, hbind, bind_assoc]
  rfl

/-- What no leg shows does not matter to a journey once its trips are known. -/
theorem assemble_map {f : Ridden → Ridden} (hf : Ridden.Unseen f) (access egress : StreetWalk)
    (ridden : Linked (Option Span) Ridden) :
    c.assemble access egress (ridden.map id f) = c.assemble access egress ridden := by
  rw [assemble, assemble, ← Change.map_ofRides hf]
  cases Change.ofRides c.rules ridden with
  | error e => rfl
  | ok settled =>
    show (do
      let legs ← Placement.legs access egress (settled.map id f)
      Placement.inconsistent (journeyOfLegs c.tariff legs)) = _
    rw [Placement.legs_map hf]
    rfl

theorem assemble_untimed (access egress : StreetWalk) (ridden : Linked (Option Span) Ridden) :
    c.assemble access egress (ridden.map id Ridden.untimed) = c.assemble access egress ridden :=
  assemble_map Ridden.unseen_untimed access egress ridden

end Reconstruction

end Journeys
