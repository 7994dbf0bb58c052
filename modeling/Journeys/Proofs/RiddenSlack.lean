import Journeys.Proofs.BestTrips
import Journeys.Proofs.RecordedSearch
import Journeys.Proofs.TransferRules
import Journeys.Proofs.TrustedTrips

/-!
# Proofs: the slack of the trips that are ridden

A network may ask for other slack around one trip of a pattern than around another. A recorded ride
is given its slack before the search looks for its trip, and keeps it on whatever trip is found. So
the slack beside a change without a rule is that of the trips that were recorded, and it is that of
the trips that are ridden exactly where the network makes no difference between the two
(`Reconstruction.keepsSlack_iff_sameSlack`).
-/

namespace Journeys

/-- A change of a journey without a rule: two ride legs that follow each other, and what was
recorded of them. -/
structure Journey.FreeChange (j : Journey) (recorded : RecordedJourney) where
  /-- The place of the first ride. -/
  index : Nat
  left : Leg
  leftRide : RideDetails
  leftRecord : RecordedRide
  walk : Option Span
  boarded : Leg
  boardedRide : RideDetails
  boardedRecord : RecordedRide
  left_eq : j.rideLegs[index]? = some left
  leftRide_eq : left.ride? = some leftRide
  leftRecord_eq : recorded.rides.toList[index]? = some leftRecord
  walk_eq : recorded.rides.links[index]? = some walk
  boarded_eq : j.rideLegs[index + 1]? = some boarded
  boardedRide_eq : boarded.ride? = some boardedRide
  boardedRecord_eq : recorded.rides.toList[index + 1]? = some boardedRecord
  free : boardedRide.rule = none

namespace Journey.FreeChange

variable {j : Journey} {recorded : RecordedJourney}

/-- The slack that a network asks for behind the trip that is left. -/
def slackBehind (change : j.FreeChange recorded) (slack : SlackPolicy) : Span :=
  (slack.alight change.leftRecord.alight change.leftRide.trip).clampNonneg

/-- The slack that a network asks for before the trip that is boarded. -/
def slackBefore (change : j.FreeChange recorded) (slack : SlackPolicy) : Span :=
  (slack.board change.boardedRecord.board change.boardedRide.trip).clampNonneg

/-- The legs report the slack around the trips that they are on, and leave time for it and for the
walk. -/
structure KeepsSlack (change : j.FreeChange recorded) (slack : SlackPolicy) : Prop where
  behind : change.leftRide.alightSlack = change.slackBehind slack
  before : change.boardedRide.boardSlack = change.slackBefore slack
  enough : change.left.finish.seconds + ((change.slackBehind slack).nanos +
    (change.walk.getD Span.zero).nanos + (change.slackBefore slack).nanos).tdiv 1000000000 ≤
      change.boarded.start.seconds

/-- A network asks for the same slack around the trips of a change as around those that were
recorded. -/
structure SameSlack (change : j.FreeChange recorded) (slack : SlackPolicy) : Prop where
  behind : change.slackBehind slack =
    (slack.alight change.leftRecord.alight change.leftRecord.hop.trip).clampNonneg
  before : change.slackBefore slack =
    (slack.board change.boardedRecord.board change.boardedRecord.hop.trip).clampNonneg

end Journey.FreeChange

namespace Reconstruction

variable {c : Reconstruction} {table : Arrivals} {arrival : FinalArrival}
  {recorded : RecordedJourney} {j : Journey}

/-- The legs beside a change without a rule, as settled rides. -/
theorem exists_settled_of_freeChange (h : c.journey table arrival = .ok j)
    (hfound : RecordedJourney.ofArrival c.network c.slack c.direction table arrival = .ok recorded)
    (change : j.FreeChange recorded) :
    ∃ ridden settled rule x y, c.Steps table arrival recorded ridden settled ∧
      settled.toList[change.index]? = some x ∧
      settled.links[change.index]? = some ⟨change.walk, none⟩ ∧
      settled.toList[change.index + 1]? = some y ∧
      change.leftRide = x.details rule ∧ change.left.finish = x.alightTime ∧
      change.boardedRide = y.details none ∧ change.boarded.start = y.boardTime := by
  obtain ⟨recorded', ridden, settled, hsteps, hlegs⟩ := exists_legsOf_of_journey h
  obtain rfl := Except.ok.inj (hsteps.found.symm.trans hfound)
  obtain ⟨rule, x, link, y, hx, hlink, hy, hax, hby⟩ :=
    hlegs.exists_change change.left_eq change.boarded_eq
  obtain ⟨hleft, -, -, -, hfinish⟩ := hax.parts
  obtain ⟨hboarded, -, -, hstart, -⟩ := hby.parts
  have hleft := Option.some.inj (change.leftRide_eq.symm.trans hleft)
  have hboarded := Option.some.inj (change.boardedRide_eq.symm.trans hboarded)
  -- the rule that the second leg shows is that of the change
  have hfree : link.rule = none := by
    rw [← change.free, hboarded]
    rfl
  have hwalk := change.walk_eq
  rw [← hsteps.links, List.getElem?_map, hlink] at hwalk
  obtain ⟨walk, rule'⟩ := link
  obtain rfl : walk = change.walk := Option.some.inj hwalk
  obtain rfl : rule' = none := hfree
  exact ⟨ridden, settled, rule, x, y, hsteps, hx, hlink, hy, hleft, hfinish, hboarded, hstart⟩

/-- Beside a change without a rule, legs report the slack around the recorded trips. -/
theorem reported_of_freeChange (h : c.journey table arrival = .ok j)
    (hfound : RecordedJourney.ofArrival c.network c.slack c.direction table arrival = .ok recorded)
    (change : j.FreeChange recorded) :
    change.leftRide.alightSlack = (c.slack.alight change.leftRecord.alight
        change.leftRecord.hop.trip).clampNonneg ∧
      change.boardedRide.boardSlack = (c.slack.board change.boardedRecord.board
        change.boardedRecord.hop.trip).clampNonneg := by
  obtain ⟨ridden, settled, rule, x, y, hsteps, hx, hlink, hy, hleft, -, hboarded, -⟩ :=
    exists_settled_of_freeChange h hfound change
  -- no rule at the change, so settling left the slack beside it as it was recorded
  have hnone : (Change.boardingRules none settled)[change.index + 1]?.join = none := by
    rw [Change.boardingRules, List.getElem?_cons_succ, List.getElem?_map, hlink]
    rfl
  have hbehind := (hsteps.slack hx change.leftRecord_eq).2
  have hbefore := (hsteps.slack hy change.boardedRecord_eq).1
  rw [hnone] at hbehind hbefore
  rw [hleft, hboarded]
  exact ⟨hbehind, hbefore⟩

/-- Beside a change without a rule, a search leaves time for the slack that the legs report. -/
theorem leavesTime_of_freeChange (hexact : c.approximate = false)
    (h : c.journey table arrival = .ok j)
    (hfound : RecordedJourney.ofArrival c.network c.slack c.direction table arrival = .ok recorded)
    (change : j.FreeChange recorded) :
    change.left.finish.seconds + (change.leftRide.alightSlack.nanos +
        (change.walk.getD Span.zero).nanos + change.boardedRide.boardSlack.nanos).tdiv 1000000000 ≤
      change.boarded.start.seconds := by
  obtain ⟨ridden, settled, rule, x, y, hsteps, hx, hlink, hy, hleft, hfinish, hboarded, hstart⟩ :=
    exists_settled_of_freeChange h hfound change
  obtain ⟨needed, hsum, henough⟩ := (hsteps.leavesSlack hexact).getElem? hx hlink hy rfl
  rw [Span.wholeSeconds, Span.nanos_of_sum?_eq_some hsum] at henough
  rw [hleft, hboarded, hfinish, hstart]
  exact henough

/-- Where all trips of a pattern have the same slack, it does not matter which of them is ridden. -/
theorem sameSlack_of_byPattern (hslack : c.slack.ByPattern) (h : c.journey table arrival = .ok j)
    (hfound : RecordedJourney.ofArrival c.network c.slack c.direction table arrival = .ok recorded)
    (change : j.FreeChange recorded) : change.SameSlack c.slack := by
  obtain ⟨ridden, settled, rule, x, y, hsteps, hx, -, hy, hleft, -, hboarded, -⟩ :=
    exists_settled_of_freeChange h hfound change
  have hpattern {i : Nat} {r : Ridden} {ride : RecordedRide}
      (hr : settled.toList[i]? = some r) (hride : recorded.rides.toList[i]? = some ride) :
      r.trip.pattern = ride.hop.trip.pattern := by
    have hhop : r.ride.hop = ride.hop := (RecordedStep.ride.inj (hsteps.step_settled hr hride)).1
    rw [← hhop]
    exact (hsteps.scheduled r (List.mem_of_getElem? hr)).onTrip.pattern
  have hsame := (hslack change.leftRecord.alight _ _ (hpattern hx change.leftRecord_eq)).2
  have hsame' := (hslack change.boardedRecord.board _ _ (hpattern hy change.boardedRecord_eq)).1
  constructor
  · rw [← hsame, Journey.FreeChange.slackBehind, hleft]
    rfl
  · rw [← hsame', Journey.FreeChange.slackBefore, hboarded]
    rfl

/-- A journey whose trips were searched for keeps the slack of the trips that are ridden beside a
change without a rule, exactly if the network asks for the same around the recorded trips. -/
theorem keepsSlack_iff_sameSlack (hexact : c.approximate = false)
    (h : c.journey table arrival = .ok j)
    (hfound : RecordedJourney.ofArrival c.network c.slack c.direction table arrival = .ok recorded)
    (change : j.FreeChange recorded) :
    change.KeepsSlack c.slack ↔ change.SameSlack c.slack := by
  obtain ⟨hbehind, hbefore⟩ := reported_of_freeChange h hfound change
  have henough := leavesTime_of_freeChange hexact h hfound change
  constructor
  · rintro ⟨hleft, hboarded, -⟩
    exact ⟨hleft.symm.trans hbehind, hboarded.symm.trans hbefore⟩
  · rintro ⟨hleft, hboarded⟩
    have hleft := hbehind.trans hleft.symm
    have hboarded := hbefore.trans hboarded.symm
    rw [hleft, hboarded] at henough
    exact ⟨hleft, hboarded, henough⟩

/-- The feeder and the late connection, with this slack around both. -/
def feederLegs (d : Span) : List Leg :=
  [{ kind := .ride ⟨⟨"feeder"⟩, ⟨⟨0⟩, 0⟩, 0, 1, d, d, none⟩
     fromPlace := .stop ⟨1⟩, toPlace := .stop ⟨2⟩
     start := .ofHms 8 0 0, finish := .ofHms 8 10 0, cost := none },
   { kind := .ride ⟨⟨"late"⟩, ⟨⟨1⟩, 1⟩, 0, 1, d, d, none⟩
     fromPlace := .stop ⟨2⟩, toPlace := .stop ⟨3⟩
     start := .ofHms 8 20 0, finish := .ofHms 8 40 0, cost := none }]

/-- The journey as recorded, with this slack around both rides. -/
def feederRecordedWith (d : Span) : RecordedJourney :=
  { feederRecorded with
    rides := ⟨{ feederRide with boardSlack := d, alightSlack := d },
      [(none, { onwardRide with boardSlack := d, alightSlack := d })]⟩ }

/-- The change from the feeder to the late connection. -/
def feederChange {j : Journey} {d : Span} (h : j.rideLegs = feederLegs d) :
    j.FreeChange (feederRecordedWith d) where
  index := 0
  left := (feederLegs d).head (List.cons_ne_nil _ _)
  leftRide := ⟨⟨"feeder"⟩, ⟨⟨0⟩, 0⟩, 0, 1, d, d, none⟩
  leftRecord := { feederRide with boardSlack := d, alightSlack := d }
  walk := none
  boarded := (feederLegs d).getLast (List.cons_ne_nil _ _)
  boardedRide := ⟨⟨"late"⟩, ⟨⟨1⟩, 1⟩, 0, 1, d, d, none⟩
  boardedRecord := { onwardRide with boardSlack := d, alightSlack := d }
  left_eq := by rw [h]; rfl
  leftRide_eq := rfl
  leftRecord_eq := rfl
  walk_eq := rfl
  boarded_eq := by rw [h]; rfl
  boardedRide_eq := rfl
  boardedRecord_eq := rfl
  free := rfl

/-- With a minute of slack everywhere, it is kept around the late connection as well. -/
theorem keepsSlack_iff_sameSlack_late :
    ∃ j, patientSearch.journey feederTable feederArrival = .ok j ∧
      ∃ change : j.FreeChange (feederRecordedWith minute),
        change.KeepsSlack patientSearch.slack := by
  have hlegs : Journey.rideLegs <$> patientSearch.journey feederTable feederArrival =
      .ok (feederLegs minute) := rfl
  obtain ⟨j, hj, hlegs⟩ := map_eq_ok_iff.1 hlegs
  have hfound : RecordedJourney.ofArrival patientSearch.network patientSearch.slack
      patientSearch.direction feederTable feederArrival = .ok (feederRecordedWith minute) := rfl
  have hslack : patientSearch.slack.ByPattern := fun _ _ _ _ => ⟨rfl, rfl⟩
  have hsame := sameSlack_of_byPattern hslack hj hfound (feederChange hlegs)
  exact ⟨j, hj, feederChange hlegs, (keepsSlack_iff_sameSlack rfl hj hfound _).2 hsame⟩

/-- A quarter of an hour. -/
def quarter : Span := { nanos := 900 * 1000000000 }

/-- The search over the feeder and its connections, where the late one asks for a quarter of an hour
before it is boarded. -/
def unevenSearch : Reconstruction :=
  { feederSearch TransferRules.unconstrained false with
    slack := SlackPolicy.ofExceptions [(⟨⟨1⟩, 1⟩, quarter, Span.zero)] [] (Span.zero, Span.zero) }

/-- The late connection is boarded ten minutes behind the feeder, and reports no slack. -/
theorem unevenSearch_slights_slack :
    unevenSearch.approximate = false ∧
      RecordedJourney.ofArrival unevenSearch.network unevenSearch.slack unevenSearch.direction
        feederTable feederArrival = .ok (feederRecordedWith Span.zero) ∧
      ∃ j, unevenSearch.journey feederTable feederArrival = .ok j ∧
        ∃ change : j.FreeChange (feederRecordedWith Span.zero),
          change.slackBefore unevenSearch.slack = quarter ∧
          change.boardedRide.boardSlack = Span.zero ∧
          change.boarded.start.seconds < change.left.finish.seconds + quarter.wholeSeconds ∧
          ¬change.KeepsSlack unevenSearch.slack := by
  have hlegs : Journey.rideLegs <$> unevenSearch.journey feederTable feederArrival =
      .ok (feederLegs Span.zero) := rfl
  obtain ⟨j, hj, hlegs⟩ := map_eq_ok_iff.1 hlegs
  have hbefore : (feederChange hlegs).slackBefore unevenSearch.slack = quarter := rfl
  have hearly : (Time.ofHms 8 20 0).seconds < (Time.ofHms 8 10 0).seconds +
      quarter.wholeSeconds := by decide
  refine ⟨rfl, rfl, j, hj, feederChange hlegs, hbefore, rfl, hearly, ?_⟩
  intro hkeeps
  have hquarter : Span.zero = quarter := hkeeps.before.trans hbefore
  exact absurd hquarter (by decide)

end Reconstruction

end Journeys
