import Journeys.Proofs.Reconstruction

/-!
# Proofs: rules on a finished journey

Rules are looked up for candidate trips while these are searched for, looked up again for the trips
that were found, checked, and used to take away slack. Whatever the direction, and whether trips
were searched for or trusted, the ride legs of a finished journey say the same about them
(`Reconstruction.KeepsRules`).
-/

namespace Journeys

/-! ## What ride legs say -/

namespace Leg

/-- The rule under which a leg is boarded, if it is a ride and there is one. -/
def rule? (leg : Leg) : Option TransferRule := leg.ride?.bind RideDetails.rule

/-- Where a trip is left, if the leg is a ride. -/
def alightEnd? (leg : Leg) : Option TransferEnd := do
  let ride ← leg.ride?
  let stop ← leg.toPlace.stop?
  return ⟨ride.tripId, stop, ride.alightPos⟩

/-- Where a trip is boarded, if the leg is a ride. -/
def boardEnd? (leg : Leg) : Option TransferEnd := do
  let ride ← leg.ride?
  let stop ← leg.fromPlace.stop?
  return ⟨ride.tripId, stop, ride.boardPos⟩

/-- The leg is a ride on the trip that it refers to: the identity, the stops and the times are those
of the timetable. -/
def OnTimetable (network : Network) (leg : Leg) : Prop :=
  ∃ ride pattern trip board alight, leg.ride? = some ride ∧
    network.trip? ride.trip = some (pattern, trip) ∧ trip.id = ride.tripId ∧
    pattern.stop? ride.boardPos = some board ∧ leg.fromPlace = .stop board ∧
    pattern.stop? ride.alightPos = some alight ∧ leg.toPlace = .stop alight ∧
    trip.departure? ride.boardPos = some leg.start ∧
    trip.arrival? ride.alightPos = some leg.finish

end Leg

/-- A rule is kept by a gap with a walk in it. -/
structure RuleKept (rule : Option TransferRule) (gap walk : Span) : Prop where
  allowed : rule ≠ some .forbidden
  minimum : ∀ least, rule = some (.minimumTime least) → least ≤ gap ∧ walk ≤ gap
  exact : ∀ time, rule = some (.exactTime time) → gap = time ∧ walk ≤ time

/-- The slack that is left beside a change: that of the network, never negative, and none if there
is a rule. -/
def slackBeside (rule : Option TransferRule) (d : Span) : Span :=
  if rule.isSome then Span.zero else d.clampNonneg

namespace Journey

/-- The rule under which a ride of the journey is boarded, if there is one. -/
def ruleAt (j : Journey) (i : Nat) : Option TransferRule := (j.rideLegs.map Leg.rule?)[i]?.join

end Journey

/-- What the rides of a finished journey keep of the timetable and the rules, given the journey as
it was recorded. -/
structure Reconstruction.KeepsRules (c : Reconstruction) (recorded : RecordedJourney)
    (j : Journey) : Prop where
  /-- There is one leg to each recorded ride. -/
  count : j.rideLegs.length = recorded.rides.length
  /-- Every ride is on a trip of the timetable. -/
  timetable : ∀ leg ∈ j.rideLegs, leg.OnTimetable c.network
  /-- Every ride but the first is boarded under the rule that the network has for this change, and
  the change keeps it. -/
  changes : ∀ i a b walk, j.rideLegs[i]? = some a → j.rideLegs[i + 1]? = some b →
    recorded.rides.links[i]? = some walk →
      ∃ alighted boarded, a.alightEnd? = some alighted ∧ b.boardEnd? = some boarded ∧
        b.rule? = c.rules.find? alighted boarded ∧
        RuleKept b.rule? (b.start.since a.finish) (walk.getD Span.zero)
  /-- The first ride is boarded under no rule. -/
  first : j.ruleAt 0 = none
  /-- Rules take the slack on both sides, and elsewhere it is that of the recorded trip. -/
  slack : ∀ i leg ride r, j.rideLegs[i]? = some leg → leg.ride? = some ride →
    recorded.rides.toList[i]? = some r →
      ride.boardSlack = slackBeside (j.ruleAt i) (c.slack.board r.board r.hop.trip) ∧
        ride.alightSlack = slackBeside (j.ruleAt (i + 1)) (c.slack.alight r.alight r.hop.trip)

/-! ## Legs and settled rides -/

theorem RuleKept.of_holds {rule : Option TransferRule} {gap walk : Span}
    (hallowed : rule ≠ some .forbidden)
    (hholds : ∀ r, rule = some r → r.holds gap walk = true) : RuleKept rule gap walk := by
  refine ⟨hallowed, fun least hrule => ?_, fun time hrule => ?_⟩
  · simpa [TransferRule.holds] using hholds _ hrule
  · simpa [TransferRule.holds] using hholds _ hrule

theorem Leg.Rides.rule? {leg : Leg} {rule : Option TransferRule} {r : Ridden}
    (h : leg.Rides rule r) : leg.rule? = rule := by
  rw [Leg.rule?, h.parts.1]
  rfl

/-- What the timetable knows of a ride that is placed. -/
structure Ridden.Scheduled (network : Network) (r : Ridden) : Prop where
  onTrip : r.OnTrip
  pattern : network.pattern? r.ride.hop.trip.pattern = some r.ride.pattern
  board : r.ride.pattern.stop? r.ride.hop.boardPos = some r.ride.board
  alight : r.ride.pattern.stop? r.ride.hop.alightPos = some r.ride.alight

theorem Ridden.Scheduled.onTimetable {network : Network} {r : Ridden} (h : r.Scheduled network)
    {leg : Leg} {rule : Option TransferRule} (hleg : leg.Rides rule r) :
    leg.OnTimetable network := by
  obtain ⟨hride, hfrom, hto, hstart, hfinish⟩ := hleg.parts
  obtain ⟨trip, htrip, hid, hboard, halight⟩ := h.onTrip.times
  refine ⟨r.details rule, r.ride.pattern, trip, r.ride.board, r.ride.alight, hride, ?_, hid.symm,
    h.board, hfrom, h.alight, hto, ?_, ?_⟩
  · rw [Network.trip?, show (r.details rule).trip.pattern = r.ride.hop.trip.pattern from
      h.onTrip.pattern, h.pattern, Option.bind_eq_bind, Option.bind_some,
      show r.ride.pattern.trip? (r.details rule).trip.trip = some trip from htrip]
    rfl
  · rw [hstart]
    exact hboard
  · rw [hfinish]
    exact halight

namespace Reconstruction

variable {c : Reconstruction} {table : Arrivals} {arrival : FinalArrival}
  {recorded : RecordedJourney} {ridden : Linked (Option Span) Ridden}
  {settled : Linked Change Ridden} {j : Journey}

namespace Steps

theorem scheduled (h : c.Steps table arrival recorded ridden settled) :
    ∀ r ∈ settled.toList, r.Scheduled c.network := by
  obtain ⟨rfl, -, -⟩ := Change.ofRides_eq_ok_iff.1 h.settles
  refine Change.forall_settled ?_ c.rules none
  intro r hr x y
  have hresolved := h.assigns.resolved h.sound hr
  exact ⟨(h.assigns.onTrip r hr).between, hresolved.pattern, hresolved.board, hresolved.alight⟩

/-- Settled rides carry the rule between their trips, and keep it. -/
theorem changes (h : c.Steps table arrival recorded ridden settled) :
    Linked.Chained (fun a change b => change.rule = Ridden.ruleBetween? c.rules a b ∧
      RuleKept change.rule (a.gap b) change.walkTime) settled.first settled.rest := by
  obtain ⟨rfl, hallowed, hholds⟩ := Change.ofRides_eq_ok_iff.1 h.settles
  refine Linked.Chained.imp ((Change.chained_settled
    (S := fun a change b => change.rule = Ridden.ruleBetween? c.rules a b ∧
      change.rule ≠ some .forbidden) ?_ hallowed none).and hholds) ?_
  · intro a walk b x y hab
    exact ⟨rfl, hab⟩
  · rintro a change b ⟨⟨hrule, hallowed⟩, hholds⟩
    exact ⟨hrule, RuleKept.of_holds hallowed hholds⟩

theorem links (h : c.Steps table arrival recorded ridden settled) :
    settled.links.map Change.walk = recorded.rides.links := by
  obtain ⟨rfl, -, -⟩ := Change.ofRides_eq_ok_iff.1 h.settles
  have hmap := Change.map_settled Ridden.trip (fun _ _ _ => rfl) c.rules none ridden.first
    ridden.rest
  have hlinks := congrArg Linked.links hmap
  rw [Linked.links_map, Linked.links_map, List.map_id] at hlinks
  exact hlinks.trans h.assigns.links

/-- Place by place, a settled ride is a recorded one, without slack beside rules. -/
theorem slack (h : c.Steps table arrival recorded ridden settled) {i : Nat} {r : Ridden}
    {ride : RecordedRide} (hr : settled.toList[i]? = some r)
    (hride : recorded.rides.toList[i]? = some ride) :
    r.ride.boardSlack = slackBeside ((Change.boardingRules none settled)[i]?.join)
        (c.slack.board ride.board ride.hop.trip) ∧
      r.ride.alightSlack = slackBeside ((Change.boardingRules none settled)[i + 1]?.join)
        (c.slack.alight ride.alight ride.hop.trip) := by
  obtain ⟨rfl, -, -⟩ := Change.ofRides_eq_ok_iff.1 h.settles
  obtain ⟨r', hr', rfl⟩ := Change.getElem?_settled hr
  -- the recorded ride is the one that was settled, before rules took slack away
  have hsame : ride = r'.ride := by
    rw [← h.assigns.rides, Linked.toList_map, List.getElem?_map] at hride
    rw [show ridden.toList[i]? = some r' from hr'] at hride
    exact (Option.some.inj hride).symm
  have hresolved := h.sound.resolved ride (List.mem_of_getElem? hride)
  rw [Ridden.boardSlack_between, Ridden.alightSlack_between, ← hsame, hresolved.boardSlack,
    hresolved.alightSlack]
  exact ⟨rfl, rfl⟩

end Steps

namespace LegsOf

/-- The rules that the legs report are those of the settled changes. -/
theorem map_rule? (h : LegsOf settled j) :
    j.rideLegs.map Leg.rule? = Change.boardingRules none settled := by
  refine List.ext_getElem ?_ ?_
  · rw [List.length_map, h.length_rideLegs, LegsOf.length_boardingRules]
  · intro i hi hi'
    rw [List.length_map] at hi
    obtain ⟨rule, r, hrule, -, hrides⟩ := h.exists_rides (List.getElem?_eq_getElem hi)
    rw [List.getElem?_eq_getElem hi', Option.some.injEq] at hrule
    rw [List.getElem_map, hrides.rule?, hrule]

theorem ruleAt_eq (h : LegsOf settled j) (i : Nat) :
    j.ruleAt i = (Change.boardingRules none settled)[i]?.join := by
  rw [Journey.ruleAt, h.map_rule?]

/-- Two ride legs that follow each other are two settled rides, with a change between them. -/
theorem exists_change (h : LegsOf settled j) {i : Nat} {a b : Leg}
    (ha : j.rideLegs[i]? = some a) (hb : j.rideLegs[i + 1]? = some b) :
    ∃ rule x change y, settled.toList[i]? = some x ∧ settled.links[i]? = some change ∧
      settled.toList[i + 1]? = some y ∧ a.Rides rule x ∧ b.Rides change.rule y := by
  obtain ⟨rule, x, -, hx, hax⟩ := h.exists_rides ha
  obtain ⟨rule', y, hrule', hy, hby⟩ := h.exists_rides hb
  rw [Change.boardingRules, List.getElem?_cons_succ, List.getElem?_map,
    Option.map_eq_some_iff] at hrule'
  obtain ⟨change, hchange, rfl⟩ := hrule'
  exact ⟨rule, x, change, y, hx, hchange, hy, hax, hby⟩

end LegsOf

/-- Every journey that is rebuilt keeps the timetable and the transfer rules, in either direction
and whether its trips were searched for or trusted. -/
theorem journey_keeps_rules (h : c.journey table arrival = .ok j) :
    ∃ recorded,
      RecordedJourney.ofArrival c.network c.slack c.direction table arrival = .ok recorded ∧
        c.KeepsRules recorded j := by
  obtain ⟨recorded, ridden, settled, hsteps, hlegs⟩ := exists_legsOf_of_journey h
  have hlinks := hsteps.links
  refine ⟨recorded, hsteps.found, ?_, ?_, ?_, ?_, ?_⟩
  · rw [hlegs.length_rideLegs, ← Linked.length_links, ← Linked.length_links, ← hlinks,
      List.length_map]
  · intro leg hleg
    obtain ⟨i, hi⟩ := List.mem_iff_getElem?.1 hleg
    obtain ⟨rule, r, -, hr, hrides⟩ := hlegs.exists_rides hi
    exact (hsteps.scheduled r (List.mem_of_getElem? hr)).onTimetable hrides
  · intro i a b walk ha hb hwalk
    obtain ⟨rule, x, change, y, hx, hchange, hy, hax, hby⟩ := hlegs.exists_change ha hb
    obtain ⟨hrule, hkept⟩ := hsteps.changes.getElem? hx hchange hy
    obtain ⟨hridea, -, htoa, -, hfinisha⟩ := hax.parts
    obtain ⟨hrideb, hfromb, -, hstartb, -⟩ := hby.parts
    refine ⟨Ridden.alightEnd x.ride x.tripId, Ridden.boardEnd y.ride y.tripId, ?_, ?_, ?_, ?_⟩
    · rw [Leg.alightEnd?, hridea, htoa]
      rfl
    · rw [Leg.boardEnd?, hrideb, hfromb]
      rfl
    · rw [hby.rule?]
      exact hrule
    · rw [← hlinks, List.getElem?_map, hchange, Option.map_some, Option.some.injEq] at hwalk
      rw [hby.rule?, hstartb, hfinisha, ← hwalk]
      exact hkept
  · rw [hlegs.ruleAt_eq]
    rfl
  · intro i leg ride r hleg hride hr
    obtain ⟨rule, x, -, hx, hrides⟩ := hlegs.exists_rides hleg
    rw [hrides.parts.1, Option.some.injEq] at hride
    rw [hlegs.ruleAt_eq, hlegs.ruleAt_eq, ← hride]
    exact hsteps.slack hx hr

/-- A minute for the change from the feeder to the late connection. -/
def feederRules : TransferRules :=
  TransferRules.atEnds
    [(⟨⟨"feeder"⟩, ⟨2⟩, 1⟩, ⟨⟨"late"⟩, ⟨2⟩, 0⟩, .minimumTime minute)]

/-- The late connection is boarded under its rule. -/
theorem journey_keeps_rules_feeder :
    ∃ j, (feederSearch feederRules false).journey feederTable feederArrival = .ok j ∧
      j.ruleAt 1 = some (.minimumTime minute) ∧
      ∃ recorded, (feederSearch feederRules false).KeepsRules recorded j := by
  have hrule : ((feederSearch feederRules false).journey feederTable feederArrival).map
      (fun j => j.ruleAt 1) = .ok (some (.minimumTime minute)) := rfl
  cases hj : (feederSearch feederRules false).journey feederTable feederArrival with
  | error e =>
    rw [hj] at hrule
    cases hrule
  | ok j =>
    rw [hj] at hrule
    obtain ⟨recorded, -, hkeeps⟩ := journey_keeps_rules hj
    exact ⟨j, rfl, Except.ok.inj hrule, recorded, hkeeps⟩

end Reconstruction

end Journeys
