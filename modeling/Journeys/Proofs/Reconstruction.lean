import Journeys.Proofs.Placement

/-!
# Proofs: from an arrival to its journey

However the trips were chosen, there is one trip of its own pattern to each recorded ride
(`RecordedJourney.Assigns`). This and what holds of every recorded journey is enough for its legs to
be placed (`RecordedJourney.Assigns.ready`): walks fit between rides that change without a rule if
their trips were searched for, and between the others because the rules were checked.
-/

namespace Journeys

variable {ordered bounded : Prop}

/-- All trips of a pattern run within 2^28 seconds of midnight. -/
def Pattern.Moderate (p : Pattern) : Prop :=
  ∀ trip ∈ p.trips, ∀ call ∈ trip.calls, call.arrival.Moderate ∧ call.departure.Moderate

instance (p : Pattern) : Decidable p.Moderate :=
  inferInstanceAs (Decidable (∀ trip ∈ p.trips, ∀ call ∈ trip.calls, _ ∧ _))

/-- All trips of a network do. -/
def Network.Moderate (network : Network) : Prop :=
  ∀ id pattern, network.pattern? id = some pattern → pattern.Moderate

/-- All slack is under 2^28 seconds either way. -/
def SlackPolicy.Moderate (slack : SlackPolicy) : Prop :=
  ∀ stop slot, (slack.board stop slot).Moderate ∧ (slack.alight stop slot).Moderate

theorem Span.passable_zero : Span.zero.Passable bounded := ⟨le_refl zero, fun _ => moderate_zero⟩

namespace RecordedRide

variable {network : Network} {slack : SlackPolicy} {r : RecordedRide}

theorem Resolved.passable_boardSlack (h : r.Resolved network slack)
    (hslack : bounded → slack.Moderate) : r.boardSlack.Passable bounded := by
  refine ⟨h.zero_le_boardSlack, fun hb => ?_⟩
  rw [h.boardSlack]
  exact ((hslack hb) _ _).1.clampNonneg

theorem Resolved.passable_alightSlack (h : r.Resolved network slack)
    (hslack : bounded → slack.Moderate) : r.alightSlack.Passable bounded := by
  refine ⟨h.zero_le_alightSlack, fun hb => ?_⟩
  rw [h.alightSlack]
  exact ((hslack hb) _ _).2.clampNonneg

end RecordedRide

/-- A rule that holds leaves time for the walk. -/
theorem TransferRule.walk_le_of_holds {rule : TransferRule} {gap walk : Span}
    (h : rule.holds gap walk = true) : walk ≤ gap := by
  cases rule with
  | minimumTime least =>
    simp only [holds, Bool.and_eq_true, decide_eq_true_eq] at h
    exact h.2
  | exactTime exact =>
    simp only [holds, Bool.and_eq_true, decide_eq_true_eq] at h
    rw [h.1]
    exact h.2
  | forbidden => cases h

namespace Ridden

theorem wholeSeconds_gap (a b : Ridden) :
    (a.gap b).wholeSeconds = b.boardTime.seconds - a.alightTime.seconds :=
  Time.wholeSeconds_since b.boardTime a.alightTime

theorem OnTrip.boardTime_le_alightTime {r : Ridden} (h : r.OnTrip)
    (honwards : r.ride.hop.boardPos < r.ride.hop.alightPos) : r.boardTime ≤ r.alightTime := by
  obtain ⟨trip, -, -, hboard, halight⟩ := h.times
  exact trip.departure_le_arrival honwards hboard halight

theorem OnTrip.moderate {r : Ridden} (h : r.OnTrip) (hpattern : r.ride.pattern.Moderate) :
    r.boardTime.Moderate ∧ r.alightTime.Moderate := by
  obtain ⟨trip, htrip, -, hboard, halight⟩ := h.times
  have hcalls := hpattern trip (List.mem_of_getElem? htrip)
  simp only [Trip.departure?, Trip.arrival?, Option.map_eq_some_iff] at hboard halight
  obtain ⟨first, hfirst, htime⟩ := hboard
  obtain ⟨last, hlast, htime'⟩ := halight
  rw [← htime, ← htime']
  exact ⟨(hcalls first (List.mem_of_getElem? hfirst)).2,
    (hcalls last (List.mem_of_getElem? hlast)).1⟩

/-- There is time between two rides for the slack after the first one and for a walk. -/
def LeavesTime (a : Ridden) (walk : Span) (b : Ridden) : Prop :=
  a.alightTime.seconds + a.ride.alightSlack.wholeSeconds + walk.wholeSeconds ≤ b.boardTime.seconds

/-- Rides that keep their gap without a rule leave time for the slack and the walk between them. -/
theorem KeepsGap.leavesTime {rules : TransferRules} {a b : Ridden} {walk : Option Span}
    (h : KeepsGap rules a walk b) (hrule : ruleBetween? rules a b = none)
    (halight : Span.zero ≤ a.ride.alightSlack) (hwalk : Span.zero ≤ walk.getD Span.zero)
    (hboard : Span.zero ≤ b.ride.boardSlack) : a.LeavesTime (walk.getD Span.zero) b := by
  obtain ⟨gap, hgap, henough⟩ := h.enough
  rw [hrule] at hgap
  have hnanos := Span.nanos_of_sum?_eq_some (neededGap_none_eq_ok_iff.1 hgap)
  -- the gap is cut to seconds as a whole, so it is no shorter than its parts cut one by one
  have hgapNonneg : Span.zero ≤ gap := by
    rw [Span.le_iff, Span.nanos_zero] at *
    omega
  rw [Span.wholeSeconds_of_nonneg hgapNonneg, hnanos] at henough
  rw [LeavesTime, Span.wholeSeconds_of_nonneg halight, Span.wholeSeconds_of_nonneg hwalk]
  rw [Span.le_iff, Span.nanos_zero] at hboard
  omega

/-- What is known of two rides that follow each other before the rule between them is settled. -/
structure Meets (ordered bounded : Prop) (rules : TransferRules) (a : Ridden) (walk : Option Span)
    (b : Ridden) : Prop where
  stops : walk = none → a.ride.alight = b.ride.board
  passable : (walk.getD Span.zero).Passable bounded
  time : ordered → ruleBetween? rules a b = none → a.LeavesTime (walk.getD Span.zero) b

/-- Rides connect over their settled change if it keeps its rule: a rule takes away the slack, and
leaves time for the walk. -/
theorem Meets.connects {rules : TransferRules} {a b : Ridden} {walk : Option Span}
    (h : Meets ordered bounded rules a walk b) {before after rule : Option TransferRule}
    (hrule : ruleBetween? rules a b = rule)
    (hholds : Change.RuleHolds (a.between before rule) ⟨walk, rule⟩ (b.between rule after)) :
    Change.Connects ordered bounded (a.between before rule) ⟨walk, rule⟩
      (b.between rule after) := by
  refine ⟨h.stops, h.passable, fun ho => ?_⟩
  cases rule with
  | none => exact h.time ho hrule
  | some rule =>
    -- beside a rule there is no slack left, and the rule sees to it that the walk fits
    have hle : walk.getD Span.zero ≤ a.gap b := TransferRule.walk_le_of_holds (hholds rule rfl)
    have hwalk := h.passable.nonneg
    have hgapNonneg : Span.zero ≤ a.gap b := Int.le_trans hwalk hle
    have hgap := wholeSeconds_gap a b
    have hzero : (a.between before (some rule)).ride.alightSlack.wholeSeconds = 0 := rfl
    rw [Span.wholeSeconds_of_nonneg hgapNonneg] at hgap
    rw [hzero, Change.walkTime, Span.wholeSeconds_of_nonneg hwalk]
    rw [Span.le_iff] at hle
    show a.alightTime.seconds + 0 + (walk.getD Span.zero).nanos / 1000000000 ≤ b.boardTime.seconds
    omega

end Ridden

namespace RecordedJourney

/-- Every ride of a recorded journey on a trip of its own pattern. -/
structure Assigns (journey : RecordedJourney) (ridden : Linked (Option Span) Ridden) : Prop where
  rides : ridden.map id Ridden.ride = journey.rides
  onTrip : ∀ r ∈ ridden.toList, r.OnTrip

/-- Whichever way trips were chosen, every ride is on a trip of its own pattern. -/
theorem Assigns.of_chooseAll {journey : RecordedJourney} {ridden : Linked (Option Span) Ridden}
    {network : Network} {slack : SlackPolicy} (hsound : journey.Sound network slack)
    {c : TripChoice} (h : c.chooseAll journey.rides = .ok ridden) : journey.Assigns ridden := by
  obtain ⟨hrides, hchosen⟩ := TripChoice.chosen_of_chooseAll h
  refine ⟨hrides, hchosen.onTrip ?_⟩
  intro r hr
  have hmem : r.ride ∈ journey.rides.toList := by
    rw [← hrides, Linked.toList_map]
    exact List.mem_map_of_mem hr
  exact (hsound.resolved _ hmem).recorded

namespace Assigns

variable {journey : RecordedJourney} {ridden : Linked (Option Span) Ridden} {network : Network}
  {slack : SlackPolicy}

theorem mem_rides (h : journey.Assigns ridden) {r : Ridden} (hr : r ∈ ridden.toList) :
    r.ride ∈ journey.rides.toList := by
  rw [← h.rides, Linked.toList_map]
  exact List.mem_map_of_mem hr

theorem resolved (h : journey.Assigns ridden) (hsound : journey.Sound network slack) {r : Ridden}
    (hr : r ∈ ridden.toList) : r.ride.Resolved network slack :=
  hsound.resolved _ (h.mem_rides hr)

theorem links (h : journey.Assigns ridden) : ridden.links = journey.rides.links := by
  rw [← h.rides, Linked.links_map, List.map_id]

theorem joined (h : journey.Assigns ridden) (hsound : journey.Sound network slack) :
    Linked.Chained (fun a walk b => walk = none → a.ride.alight = b.ride.board)
      ridden.first ridden.rest := by
  have hjoined := hsound.joined
  rw [← h.rides] at hjoined
  exact (Linked.Chained.map_iff id Ridden.ride).1 hjoined

/-- A ride of the journey can be placed, whatever slack a rule takes away. -/
theorem placeable (h : journey.Assigns ridden) (hsound : journey.Sound network slack)
    (hnetwork : bounded → network.Moderate) (hslack : bounded → slack.Moderate) {r : Ridden}
    (hr : r ∈ ridden.toList) (before after : Option TransferRule) :
    (r.between before after).Placeable bounded := by
  have hresolved := h.resolved hsound hr
  have hon := h.onTrip r hr
  refine ⟨hresolved.onwards, hon.boardTime_le_alightTime hresolved.onwards, ?_, ?_, fun hb => ?_⟩
  · rw [Ridden.boardSlack_between]
    split
    · exact Span.passable_zero
    · exact hresolved.passable_boardSlack hslack
  · rw [Ridden.alightSlack_between]
    split
    · exact Span.passable_zero
    · exact hresolved.passable_alightSlack hslack
  · exact hon.moderate (hnetwork hb _ _ hresolved.pattern)

theorem passable (h : journey.Assigns ridden)
    (hwalks : ∀ d, some d ∈ journey.rides.links → d.Passable bounded) :
    Linked.Chained (fun _ walk _ => (walk.getD Span.zero).Passable bounded)
      ridden.first ridden.rest := by
  refine Linked.Chained.of_links fun walk hwalk => ?_
  cases walk with
  | none => exact Span.passable_zero
  | some d =>
    refine hwalks d ?_
    rw [← h.links]
    exact hwalk

/-- Every two rides that follow each other meet, and where trips were searched for there is time
between them. -/
theorem meets (h : journey.Assigns ridden) (hsound : journey.Sound network slack)
    (hwalks : ∀ d, some d ∈ journey.rides.links → d.Passable bounded) {rules : TransferRules}
    (hkeeps : ordered → Linked.Chained (Ridden.KeepsGap rules) ridden.first ridden.rest) :
    Linked.Chained (Ridden.Meets ordered bounded rules) ridden.first ridden.rest := by
  have hpass := h.passable hwalks
  -- without a search nothing is known of the gaps, and nothing is said of them
  have hgaps : Linked.Chained (fun a walk b => ordered → Ridden.KeepsGap rules a walk b)
      ridden.first ridden.rest := by
    by_cases ho : ordered
    · exact (hkeeps ho).imp fun _ _ _ hgap _ => hgap
    · exact hpass.imp fun _ _ _ _ ho' => absurd ho' ho
  refine (((h.joined hsound).and hpass).and hgaps).imp_of_mem ?_
  rintro a ha walk b hb ⟨⟨hstops, hwalk⟩, hgap⟩
  refine ⟨hstops, hwalk, fun ho hrule => ?_⟩
  exact (hgap ho).leavesTime hrule (h.resolved hsound ha).zero_le_alightSlack hwalk.nonneg
    (h.resolved hsound hb).zero_le_boardSlack

/-- With the rules between them, the rides of a journey are ready to be placed. -/
theorem ready (h : journey.Assigns ridden) (hsound : journey.Sound network slack)
    (hnetwork : bounded → network.Moderate) (hslack : bounded → slack.Moderate)
    (haccess : journey.access.duration.Passable bounded)
    (hegress : journey.egress.duration.Passable bounded)
    (hwalks : ∀ d, some d ∈ journey.rides.links → d.Passable bounded) {rules : TransferRules}
    (hkeeps : ordered → Linked.Chained (Ridden.KeepsGap rules) ridden.first ridden.rest)
    {settled : Linked Change Ridden} (hsettled : Change.ofRides rules ridden = .ok settled) :
    Placement.Ready ordered bounded journey.access journey.egress settled := by
  obtain ⟨rfl, -, hholds⟩ := Change.ofRides_eq_ok_iff.1 hsettled
  obtain ⟨after, hfirst⟩ := Change.exists_first_settled rules none ridden.first ridden.rest
  obtain ⟨before, hlast⟩ := Change.exists_last_settled rules none ridden.first ridden.rest
  have hrides := h.rides
  refine ⟨haccess, hegress, ?_, ?_, ?_, ?_⟩
  · rw [hfirst, ← hsound.access, ← hrides]
    rfl
  · rw [hlast, ← hsound.egress, ← hrides, Linked.last_map]
    rfl
  · refine Change.forall_settled ?_ rules none
    intro r hr x y
    exact h.placeable hsound hnetwork hslack hr x y
  · have hmeets := h.meets hsound hwalks hkeeps
    refine Linked.Chained.imp ((Change.chained_settled
      (S := fun a change b => Change.RuleHolds a change b →
        Change.Connects ordered bounded a change b) ?_ hmeets none).and hholds) ?_
    · intro a walk b x y hab hrule
      exact hab.connects rfl hrule
    · rintro a change b ⟨hconnects, hrule⟩
      exact hconnects hrule

end Assigns

end RecordedJourney

namespace Reconstruction

variable {c : Reconstruction} {table : Arrivals} {arrival : FinalArrival}
  {recorded : RecordedJourney} {ridden : Linked (Option Span) Ridden}
  {settled : Linked Change Ridden} {j : Journey}

/-- How the rides of a recorded journey get their trips. -/
def choice (c : Reconstruction) (anchor : Time) : TripChoice :=
  { direction := c.direction, rules := c.rules, approximate := c.approximate, anchor }

/-- The steps from an arrival to its rides with the rules between them. -/
structure Steps (c : Reconstruction) (table : Arrivals) (arrival : FinalArrival)
    (recorded : RecordedJourney) (ridden : Linked (Option Span) Ridden)
    (settled : Linked Change Ridden) : Prop where
  found : RecordedJourney.ofArrival c.network c.slack c.direction table arrival = .ok recorded
  chosen : (c.choice recorded.anchor).chooseAll recorded.rides = .ok ridden
  settles : Change.ofRides c.rules ridden = .ok settled

theorem rides_eq_ok_iff :
    c.rides table arrival = .ok (recorded, settled) ↔
      ∃ ridden, c.Steps table arrival recorded ridden settled := by
  constructor
  · intro h
    obtain ⟨recorded', hrecorded, h⟩ := bind_eq_ok_iff.1 h
    obtain ⟨ridden, hridden, h⟩ := bind_eq_ok_iff.1 h
    obtain ⟨settled', hsettled, h⟩ := bind_eq_ok_iff.1 h
    cases h
    exact ⟨ridden, hrecorded, hridden, hsettled⟩
  · rintro ⟨ridden, hrecorded, hridden, hsettled⟩
    refine bind_eq_ok_iff.2 ⟨recorded, hrecorded, ?_⟩
    refine bind_eq_ok_iff.2 ⟨ridden, hridden, ?_⟩
    exact bind_eq_ok_iff.2 ⟨settled, hsettled, rfl⟩

namespace Steps

/-- The steps from an arrival lead to one result. -/
theorem eq {recorded' : RecordedJourney} {ridden' : Linked (Option Span) Ridden}
    {settled' : Linked Change Ridden} (h : c.Steps table arrival recorded ridden settled)
    (h' : c.Steps table arrival recorded' ridden' settled') :
    recorded = recorded' ∧ ridden = ridden' ∧ settled = settled' := by
  obtain rfl := Except.ok.inj (h.found.symm.trans h'.found)
  obtain rfl := Except.ok.inj (h.chosen.symm.trans h'.chosen)
  obtain rfl := Except.ok.inj (h.settles.symm.trans h'.settles)
  exact ⟨rfl, rfl, rfl⟩

theorem sound (h : c.Steps table arrival recorded ridden settled) :
    recorded.Sound c.network c.slack :=
  RecordedJourney.sound_of_ofArrival h.found

theorem assigns (h : c.Steps table arrival recorded ridden settled) :
    recorded.Assigns ridden :=
  .of_chooseAll h.sound h.chosen

/-- Trips that were searched for keep what is asked of them. -/
theorem fits (h : c.Steps table arrival recorded ridden settled)
    (hexact : c.approximate = false) : (c.choice recorded.anchor).Fits ridden :=
  (TripChoice.chosen_of_chooseAll h.chosen).2.fits hexact

/-- Once the rides are there, the journey may only fail where times or spans are not bounded, or
where trips that were not searched for overlap. -/
theorem gives_journey (h : c.Steps table arrival recorded ridden settled)
    (hnetwork : bounded → c.network.Moderate) (hslack : bounded → c.slack.Moderate)
    (htable : table.WalksLast (Span.Passable bounded))
    (hegress : arrival.egress.duration.Passable bounded) :
    Gives (MayFail (c.approximate = false) bounded) (fun _ => True) (c.journey table arrival) := by
  obtain ⟨haccess, hegress, hwalks⟩ :=
    RecordedJourney.walks_of_ofArrival h.found htable hegress
  have hready : Placement.Ready (c.approximate = false) bounded recorded.access recorded.egress
      settled :=
    h.assigns.ready h.sound hnetwork hslack haccess hegress hwalks
      (fun hexact => (h.fits hexact).gaps) h.settles
  have hrides : Placement.unusable (c.rides table arrival) = .ok (recorded, settled) :=
    unusable_eq_ok_iff.2 (rides_eq_ok_iff.2 ⟨ridden, h⟩)
  rw [journey, hrides, ok_bind]
  refine (Placement.gives_legs hready).bind ?_
  rintro legs ⟨start, hlegs⟩
  exact hlegs.gives_journeyOfLegs c.tariff

end Steps

/-- The journey is made of the legs that were placed, which a tariff prices if there is one. -/
structure MadeOf (tariff : Option Tariff) (placed : List Leg) (j : Journey) : Prop where
  legs : j.legs = match tariff with
    | none => placed
    | some tariff => (tariff.price placed).1
  cost : j.cost = tariff.map fun tariff => (tariff.price placed).2
  iteration : j.iteration = none

theorem MadeOf.of_journeyOfLegs {tariff : Option Tariff} {placed : List Leg}
    (h : journeyOfLegs tariff placed = .ok j) : MadeOf tariff placed j := by
  cases tariff with
  | none =>
    obtain ⟨hlegs, hcost, hiteration⟩ := Journey.ofLegs_eq_ok_iff.1 h
    exact ⟨hlegs, hcost, hiteration⟩
  | some tariff =>
    obtain ⟨hlegs, hcost, hiteration⟩ := Journey.ofLegs_eq_ok_iff.1 h
    exact ⟨hlegs, hcost, hiteration⟩

/-- Behind a journey are its rides, and the legs that were placed for them. -/
theorem exists_madeOf_of_journey (h : c.journey table arrival = .ok j) :
    ∃ recorded settled legs, c.rides table arrival = .ok (recorded, settled) ∧
      Placement.legs recorded.access recorded.egress settled = .ok legs ∧
      MadeOf c.tariff legs j := by
  obtain ⟨⟨recorded, settled⟩, hrides, h⟩ := bind_eq_ok_iff.1 h
  obtain ⟨legs, hlegs, h⟩ := bind_eq_ok_iff.1 h
  exact ⟨recorded, settled, legs, unusable_eq_ok_iff.1 hrides, hlegs,
    .of_journeyOfLegs (inconsistent_eq_ok_iff.1 h)⟩

/-- The legs of a journey, prices apart, are those that were placed. -/
theorem exists_steps_of_journey (h : c.journey table arrival = .ok j) :
    ∃ recorded ridden settled legs, c.Steps table arrival recorded ridden settled ∧
      Placement.legs recorded.access recorded.egress settled = .ok legs ∧
      j.legs.map Leg.unpriced = legs.map Leg.unpriced := by
  obtain ⟨recorded, settled, legs, hrides, hlegs, hmade⟩ := exists_madeOf_of_journey h
  obtain ⟨ridden, hsteps⟩ := rides_eq_ok_iff.1 hrides
  refine ⟨recorded, ridden, settled, legs, hsteps, hlegs, ?_⟩
  rw [hmade.legs]
  cases c.tariff with
  | none => rfl
  | some tariff =>
    show (tariff.price legs).1.map Leg.unpriced = _
    rw [Tariff.fst_price, Tariff.map_unpriced_priceLegs]

/-- The ride legs of a journey, prices apart, are the settled rides, each under the rule of the
change before it. -/
def LegsOf (settled : Linked Change Ridden) (j : Journey) : Prop :=
  j.rideLegs.map Leg.unpriced =
    List.zipWith Ridden.asLeg (Change.boardingRules none settled) settled.toList

theorem exists_legsOf_of_journey (h : c.journey table arrival = .ok j) :
    ∃ recorded ridden settled, c.Steps table arrival recorded ridden settled ∧
      LegsOf settled j := by
  obtain ⟨recorded, ridden, settled, legs, hsteps, hlegs, hj⟩ := exists_steps_of_journey h
  refine ⟨recorded, ridden, settled, hsteps, ?_⟩
  rw [LegsOf, Journey.rideLegs, ← filter_isRide_map_unpriced, hj, filter_isRide_map_unpriced,
    Placement.filter_isRide_legs hlegs, List.map_zipWith]
  rfl

namespace LegsOf

theorem length_boardingRules (settled : Linked Change Ridden) :
    (Change.boardingRules none settled).length = settled.length := by
  simp [Change.boardingRules, ← settled.length_links]

theorem length_rideLegs (h : LegsOf settled j) : j.rideLegs.length = settled.length := by
  have hlength := congrArg List.length h
  simpa [length_boardingRules] using hlength

theorem exists_rides (h : LegsOf settled j) {i : Nat} {leg : Leg}
    (hleg : j.rideLegs[i]? = some leg) :
    ∃ rule r, (Change.boardingRules none settled)[i]? = some rule ∧ settled.toList[i]? = some r ∧
      leg.Rides rule r := by
  have hplace := congrArg (fun legs => legs[i]?) h
  simp only [List.getElem?_map, hleg, Option.map_some] at hplace
  obtain ⟨rule, r, hrule, hr, hsame⟩ := List.getElem?_zipWith_eq_some.1 hplace.symm
  exact ⟨rule, r, hrule, hr, hsame.symm⟩

end LegsOf

end Reconstruction

/-! ## A missed connection

A search that recorded a feeder and a connection which leaves before the feeder arrives. Later
modules show on it what becomes of an arrival.
-/

/-- How long the walk from the origin takes, and a change under a rule. -/
def minute : Span := { nanos := 60 * 1000000000 }

/-- A trip between two stops. -/
def shuttle (id : String) (leaves arrives : Time) (h : leaves ≤ arrives := by decide) : Trip :=
  { id := ⟨id⟩
    calls := [⟨leaves, leaves⟩, ⟨arrives, arrives⟩]
    calls_ne_nil := List.cons_ne_nil _ _
    dwelling := by simp [Call.Dwelling, Time.le_refl]
    advancing := ⟨h, trivial⟩ }

/-- The feeder. -/
def feeder : Trip := shuttle "feeder" (.ofHms 8 0 0) (.ofHms 8 10 0)

/-- The connection that the feeder misses. -/
def early : Trip := shuttle "early" (.ofHms 8 5 0) (.ofHms 8 25 0)

/-- A feeder from the first stop to the second. -/
def feederPattern : Pattern :=
  { stops := [⟨1⟩, ⟨2⟩]
    trips := [feeder]
    two_le_stops := by decide
    length_eq := by simp [feeder, shuttle, Trip.length] }

/-- Connections from the second stop to the third, the first of them too early for the feeder. -/
def onwardPattern : Pattern :=
  { stops := [⟨2⟩, ⟨3⟩]
    trips := [early, shuttle "late" (.ofHms 8 20 0) (.ofHms 8 40 0),
      shuttle "later" (.ofHms 8 30 0) (.ofHms 8 50 0)]
    two_le_stops := by decide
    length_eq := by simp [early, shuttle, Trip.length] }

/-- The records: the feeder, and the early connection. -/
def feederTable : Arrivals :=
  ⟨#[{ stop := ⟨1⟩, round := 0, time := .ofHms 7 58 0, approach := .access ⟨⟨1⟩, minute⟩ },
     { stop := ⟨2⟩, round := 1, time := .ofHms 8 10 0, approach := .ride ⟨0⟩ ⟨⟨⟨0⟩, 0⟩, 0, 1⟩ },
     { stop := ⟨3⟩, round := 2, time := .ofHms 9 0 0, approach := .ride ⟨1⟩ ⟨⟨⟨1⟩, 0⟩, 0, 1⟩ }]⟩

/-- The arrival behind the connection. -/
def feederArrival : FinalArrival :=
  { previous := ⟨2⟩, egress := ⟨⟨3⟩, minute⟩, time := .ofHms 9 1 0, round := 2 }

/-- A forward search over the two patterns. -/
def feederSearch (rules : TransferRules) (approximate : Bool) : Reconstruction :=
  { direction := .forward
    network := Network.ofPatterns [feederPattern, onwardPattern]
    slack := UniformSlack.zero.policy
    rules
    approximate }

end Journeys
