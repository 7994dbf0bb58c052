import Journeys.Proofs.BackPointers

/-!
# Proofs: a journey beside the search that recorded it

The trips of a journey need not be those that the search recorded. If they were searched for, they
serve as well: the walk that the search started with keeps the time of its record, every ride keeps
the time of its own, and between two rides without a rule there is time for the walk and for the
slack on both sides (`Journey.KeepsSearch`).

Trips are found first and rules settled afterwards, which takes slack away. A change without a rule
keeps its slack whatever happens at the changes next to it, and so do the two outer sides of the
rides. So what was asked of the trips is still true of the slack that the legs report.
-/

namespace Journeys

/-! ## The chain of a recorded journey -/

namespace BackPointer

/-- The step that a back-pointer stands for, with the time of its record; an access walk is none. -/
def step? (direction : Direction) (p : BackPointer) : Option RecordedStep :=
  match p.record.approach with
  | .access _ => none
  | .ride _ hop => some (Trail.recordedRide direction hop p.before p.record)
  | .walk _ duration => some (.walk duration)

theorem step?_of_ride {record before : ArrivalRecord} {previous : RecordId} {hop : Hop}
    (h : record.approach = .ride previous hop) (direction : Direction) :
    step? direction ⟨record, before⟩ = some (Trail.recordedRide direction hop before record) := by
  simp only [step?, h]

theorem step?_of_walk {record before : ArrivalRecord} {previous : RecordId} {duration : Span}
    (h : record.approach = .walk previous duration) (direction : Direction) :
    step? direction ⟨record, before⟩ = some (.walk duration) := by
  simp only [step?, h]

end BackPointer

/-- A recorded journey recounts a chain of records: its steps are those of the back-pointers in
order of travel, and its search starts at the time of the record that they lead to. -/
structure RecordedJourney.Recounts (journey : RecordedJourney) (direction : Direction)
    (pointers : List BackPointer) (start : ArrivalRecord) : Prop where
  anchor : journey.anchor = start.time
  steps : (direction.travelOrder pointers).map (BackPointer.step? direction) =
    (steps journey.rides).map some

/-- The steps of a trail that was followed are those of its back-pointers, times included. -/
theorem Trail.Followed.exists_map_step? {table : Arrivals} {direction : Direction}
    {record : ArrivalRecord} {trail : Trail} (h : Followed table direction record trail) :
    ∃ pointers start, table.LeadsBack record pointers start ∧
      start.approach = .access trail.start ∧ start.time = trail.anchor ∧
      pointers.map (BackPointer.step? direction) = trail.steps.map some := by
  induction h with
  | access happroach _ _ => exact ⟨[], _, .here _, happroach, rfl, rfl⟩
  | ride happroach hbefore _ _ ih =>
    obtain ⟨pointers, start, hback, hstart, htime, hsteps⟩ := ih
    refine ⟨_, start, .back ?_ hbefore hback, hstart, htime, ?_⟩
    · rw [happroach]
      rfl
    · rw [List.map_cons, List.map_cons, BackPointer.step?_of_ride happroach, hsteps]
  | walk happroach hbefore _ _ ih =>
    obtain ⟨pointers, start, hback, hstart, htime, hsteps⟩ := ih
    refine ⟨_, start, .back ?_ hbefore hback, hstart, htime, ?_⟩
    · rw [happroach]
      rfl
    · rw [List.map_cons, List.map_cons, BackPointer.step?_of_walk happroach, hsteps]

theorem RecordedJourney.exists_recounts {network : Network} {slack : SlackPolicy}
    {direction : Direction} {table : Arrivals} {arrival : FinalArrival}
    {journey : RecordedJourney}
    (h : ofArrival network slack direction table arrival = .ok journey) :
    ∃ record pointers start walk, table.get? arrival.previous = some record ∧
      table.LeadsBack record pointers start ∧ start.approach = .access walk ∧
      journey.Recounts direction pointers start := by
  obtain ⟨record, trail, hrecord, -, hfollowed, hreads, -⟩ := exists_followed_of_ofArrival h
  obtain ⟨pointers, start, hback, hstart, htime, hsteps⟩ := hfollowed.exists_map_step?
  refine ⟨record, pointers, start, trail.start, hrecord, hback, hstart, ?_, ?_⟩
  · rw [htime, hreads.anchor]
  · rw [hreads.steps]
    cases direction with
    | forward =>
      show pointers.reverse.map _ = trail.steps.reverse.map some
      rw [List.map_reverse, List.map_reverse, hsteps]
    | reverse => exact hsteps

/-! ## The walks at the street -/

namespace Placement

theorem getLast?_legsFrom {egress : StreetWalk} {rule : Option TransferRule} {r : Ridden}
    {rest : List (Change × Ridden)} {legs : List Leg} (h : legsFrom egress rule r rest = .ok legs) :
    ∃ last, egressLeg egress (Linked.lastFrom r rest) = .ok last ∧ legs.getLast? = some last := by
  induction rest generalizing rule r legs with
  | nil =>
    obtain ⟨last, hlast, rfl⟩ := exists_of_legsFrom_nil h
    exact ⟨last, hlast, rfl⟩
  | cons p rest ih =>
    obtain ⟨walk, behind, -, hbehind, rfl⟩ := exists_of_legsFrom_cons h
    obtain ⟨last, hlast, hend⟩ := ih hbehind
    refine ⟨last, hlast, ?_⟩
    rw [List.getLast?_cons, List.getLast?_append, hend]
    rfl

end Placement

/-- The walks at the street are placed around the rides of a journey: one ends when the slack before
the first boarding begins, the other starts when the slack after the last alighting is over. -/
structure Journey.StreetLegs (j : Journey) (access egress : StreetWalk)
    (rides : Linked Change Ridden) : Prop where
  first : j.first.kind = .access
  firstFinish : j.first.finish.seconds =
    rides.first.boardTime.seconds - rides.first.ride.boardSlack.wholeSeconds
  firstStart : j.first.start.seconds = j.first.finish.seconds - access.duration.wholeSeconds
  last : j.last.kind = .egress
  lastStart : j.last.start.seconds =
    rides.last.alightTime.seconds + rides.last.ride.alightSlack.wholeSeconds
  lastFinish : j.last.finish.seconds = j.last.start.seconds + egress.duration.wholeSeconds

theorem Journey.StreetLegs.of_legs {j : Journey} {access egress : StreetWalk}
    {rides : Linked Change Ridden} {legs : List Leg}
    (hlegs : Placement.legs access egress rides = .ok legs)
    (hj : j.legs.map Leg.unpriced = legs.map Leg.unpriced) :
    j.StreetLegs access egress rides := by
  obtain ⟨first, hfirst, h⟩ := bind_eq_ok_iff.1 hlegs
  obtain ⟨behind, hbehind, h⟩ := bind_eq_ok_iff.1 h
  obtain rfl := pure_eq_ok_iff.1 h
  obtain ⟨last, hlast, hend⟩ := Placement.getLast?_legsFrom hbehind
  have hjfirst : j.first.unpriced = first.unpriced := by
    have hhead := congrArg List.head? hj
    rw [List.head?_map, List.head?_eq_some_head j.legs_ne_nil] at hhead
    exact Option.some.inj hhead
  have hjlast : j.last.unpriced = last.unpriced := by
    have htail := congrArg List.getLast? hj
    rw [List.getLast?_map, List.getLast?_eq_some_getLast j.legs_ne_nil, List.getLast?_map,
      List.getLast?_cons, hend] at htail
    exact Option.some.inj htail
  obtain ⟨start, finish, rfl, hfinish, hstart⟩ := Placement.exists_of_accessLeg hfirst
  obtain ⟨start', finish', rfl, hstart', hfinish'⟩ := Placement.exists_of_egressLeg hlast
  obtain ⟨hkind, -, -, hs, hf, -⟩ := Leg.mk.inj hjfirst
  obtain ⟨hkind', -, -, hs', hf', -⟩ := Leg.mk.inj hjlast
  refine ⟨hkind, ?_, ?_, hkind', ?_, ?_⟩
  · rw [hf]
    exact hfinish
  · rw [hs, hf]
    exact hstart
  · rw [hs']
    exact hstart'
  · rw [hs', hf']
    exact hfinish'

/-! ## What settled rides keep of an exact choice -/

/-- If no rule applies, there is time between two rides for the walk and the slack beside it. -/
def Change.LeavesSlack (a : Ridden) (change : Change) (b : Ridden) : Prop :=
  change.rule = none →
    ∃ needed, Span.sum? [a.ride.alightSlack, change.walkTime, b.ride.boardSlack] = some needed ∧
      a.alightTime.seconds + needed.wholeSeconds ≤ b.boardTime.seconds

/-- A change without a rule keeps the slack that its trips were chosen with, whatever the rules at
the changes before and behind it. -/
theorem Ridden.KeepsGap.leavesSlack {rules : TransferRules} {a b : Ridden} {walk : Option Span}
    (h : KeepsGap rules a walk b) (before after : Option TransferRule) :
    Change.LeavesSlack (a.between before (ruleBetween? rules a b)) ⟨walk, ruleBetween? rules a b⟩
      (b.between (ruleBetween? rules a b) after) := by
  intro hnone
  have hrule : ruleBetween? rules a b = none := hnone
  obtain ⟨gap, hgap, henough⟩ := h.enough
  rw [hrule] at hgap ⊢
  exact ⟨gap, neededGap_none_eq_ok_iff.1 hgap, henough⟩

namespace Reconstruction

variable {c : Reconstruction} {table : Arrivals} {arrival : FinalArrival}
  {recorded : RecordedJourney} {ridden : Linked (Option Span) Ridden}
  {settled : Linked Change Ridden} {j : Journey}

namespace Steps

theorem leavesSlack (h : c.Steps table arrival recorded ridden settled)
    (hexact : c.approximate = false) :
    Linked.Chained Change.LeavesSlack settled.first settled.rest := by
  obtain ⟨rfl, -, -⟩ := Change.ofRides_eq_ok_iff.1 h.settles
  refine Change.chained_settled ?_ (h.fits hexact).gaps none
  intro a walk b x y hgap
  exact hgap.leavesSlack x y

theorem onTime (h : c.Steps table arrival recorded ridden settled)
    (hexact : c.approximate = false) : ∀ r ∈ settled.toList, r.OnTime c.direction := by
  obtain ⟨rfl, -, -⟩ := Change.ofRides_eq_ok_iff.1 h.settles
  refine Change.forall_settled ?_ c.rules none
  intro r hr x y
  exact (h.fits hexact).onTime r hr

/-- The first ride keeps the slack before its boarding, and the last one that after its alighting,
so the one that is gone through first keeps it from the start of the search. -/
theorem anchored (h : c.Steps table arrival recorded ridden settled)
    (hexact : c.approximate = false) :
    match c.direction with
    | .forward => recorded.anchor.seconds + settled.first.ride.boardSlack.wholeSeconds ≤
        settled.first.boardTime.seconds
    | .reverse => settled.last.alightTime.seconds + settled.last.ride.alightSlack.wholeSeconds ≤
        recorded.anchor.seconds := by
  have hanchored := (h.fits hexact).anchored
  obtain ⟨rfl, -, -⟩ := Change.ofRides_eq_ok_iff.1 h.settles
  obtain ⟨after, hfirst⟩ := Change.exists_first_settled c.rules none ridden.first ridden.rest
  obtain ⟨before, hlast⟩ := Change.exists_last_settled c.rules none ridden.first ridden.rest
  rw [hfirst, hlast]
  exact hanchored

theorem step_settled (h : c.Steps table arrival recorded ridden settled) {i : Nat} {r : Ridden}
    {ride : RecordedRide} (hr : settled.toList[i]? = some r)
    (hride : recorded.rides.toList[i]? = some ride) : r.ride.step = ride.step := by
  obtain ⟨rfl, -, -⟩ := Change.ofRides_eq_ok_iff.1 h.settles
  obtain ⟨r', hr', rfl⟩ := Change.getElem?_settled hr
  rw [← h.assigns.rides, Linked.toList_map, List.getElem?_map] at hride
  rw [show ridden.toList[i]? = some r' from hr'] at hride
  rw [← Option.some.inj hride]
  rfl

end Steps

theorem exists_streetLegs_of_journey (h : c.journey table arrival = .ok j) :
    ∃ recorded ridden settled, c.Steps table arrival recorded ridden settled ∧
      LegsOf settled j ∧ j.StreetLegs recorded.access recorded.egress settled := by
  obtain ⟨recorded, ridden, settled, legs, hsteps, hlegs, hj⟩ := exists_steps_of_journey h
  obtain ⟨recorded', ridden', settled', hsteps', hlegsOf⟩ := exists_legsOf_of_journey h
  obtain ⟨rfl, rfl, rfl⟩ := hsteps.eq hsteps'
  exact ⟨recorded, ridden, settled, hsteps, hlegsOf, .of_legs hlegs hj⟩

end Reconstruction

/-! ## Journeys -/

/-- A leg keeps a recorded time: it ends by then (forward) or starts no earlier (reverse). -/
def Leg.KeepsTime (direction : Direction) (leg : Leg) (time : Time) : Prop :=
  match direction with
  | .forward => leg.finish ≤ time
  | .reverse => time ≤ leg.start

/-- What a journey keeps of the search that recorded it. -/
structure Journey.KeepsSearch (j : Journey) (direction : Direction) (recorded : RecordedJourney) :
    Prop where
  /-- The walk that the search started with reaches its stop no earlier, or leaves it no later, than
  recorded. -/
  street :
    match direction with
    | .forward => j.first.kind = .access ∧ recorded.anchor ≤ j.first.finish
    | .reverse => j.last.kind = .egress ∧ j.last.start ≤ recorded.anchor
  /-- There is one leg to each recorded ride. -/
  count : j.rideLegs.length = recorded.rides.length
  /-- Every ride keeps its recorded time. -/
  rides : ∀ (i : Nat) (leg : Leg) (r : RecordedRide), j.rideLegs[i]? = some leg →
    recorded.rides.toList[i]? = some r → leg.KeepsTime direction r.time
  /-- Two rides without a rule between them leave time for the slack that they report and for the
  recorded walk. The three are added up before they are cut to whole seconds. -/
  changes : ∀ i a b before after walk, j.rideLegs[i]? = some a → j.rideLegs[i + 1]? = some b →
    a.ride? = some before → b.ride? = some after → recorded.rides.links[i]? = some walk →
      after.rule = none →
        ∃ needed, Span.sum? [before.alightSlack, walk.getD Span.zero, after.boardSlack] =
            some needed ∧
          a.finish.seconds + needed.wholeSeconds ≤ b.start.seconds

namespace Reconstruction

variable {c : Reconstruction} {table : Arrivals} {arrival : FinalArrival} {j : Journey}

/-- Whatever the table holds, a journey whose trips were searched for keeps the chain of records
behind its arrival, and the slack around its changes. -/
theorem journey_keeps_search (hexact : c.approximate = false)
    (h : c.journey table arrival = .ok j) :
    ∃ record pointers start walk recorded, table.get? arrival.previous = some record ∧
      table.LeadsBack record pointers start ∧ start.approach = .access walk ∧
      RecordedJourney.ofArrival c.network c.slack c.direction table arrival = .ok recorded ∧
      recorded.Recounts c.direction pointers start ∧ j.KeepsSearch c.direction recorded := by
  obtain ⟨recorded, ridden, settled, hsteps, hlegs, hstreet⟩ := exists_streetLegs_of_journey h
  obtain ⟨record, pointers, start, walk, hrecord, hback, hstart, hrecounts⟩ :=
    RecordedJourney.exists_recounts hsteps.found
  refine ⟨record, pointers, start, walk, recorded, hrecord, hback, hstart, hsteps.found,
    hrecounts, ?_, ?_, ?_, ?_⟩
  · have hanchored := hsteps.anchored hexact
    have hfirst := hstreet.firstFinish
    have hlast := hstreet.lastStart
    split at hanchored
    · refine ⟨hstreet.first, ?_⟩
      rw [Time.le_iff]
      omega
    · refine ⟨hstreet.last, ?_⟩
      rw [Time.le_iff]
      omega
  · rw [hlegs.length_rideLegs, hsteps.length_settled]
  · -- a rule takes slack away, but leaves the record of a ride as it is
    intro i leg r hleg hr
    obtain ⟨rule, x, -, hx, hrides⟩ := hlegs.exists_rides hleg
    obtain ⟨-, -, -, hs, hf⟩ := hrides.parts
    have htime : x.ride.time = r.time :=
      (RecordedStep.ride.inj (hsteps.step_settled hx hr)).2.2.2
    have hontime := hsteps.onTime hexact x (List.mem_of_getElem? hx)
    unfold Ridden.OnTime at hontime
    unfold Leg.KeepsTime
    rw [hs, hf, ← htime]
    exact hontime
  · intro i a b before after walk ha hb hbefore hafter hwalk hnone
    obtain ⟨rule, x, change, y, hx, hchange, hy, hax, hby⟩ := hlegs.exists_change ha hb
    obtain ⟨hridea, -, -, -, hfinish⟩ := hax.parts
    obtain ⟨hrideb, -, -, hstart, -⟩ := hby.parts
    obtain rfl := Option.some.inj (hbefore.symm.trans hridea)
    obtain rfl := Option.some.inj (hafter.symm.trans hrideb)
    rw [← hsteps.links, List.getElem?_map, hchange] at hwalk
    obtain rfl : change.walk = walk := Option.some.inj hwalk
    rw [hfinish, hstart]
    exact (hsteps.leavesSlack hexact).getElem? hx hchange hy hnone

/-- The search over the feeder and its connections, with a minute of slack on both sides. -/
def patientSearch : Reconstruction :=
  { feederSearch TransferRules.unconstrained false with
    slack := UniformSlack.policy ⟨minute, minute⟩ }

/-- The access walk ends a minute after the time of its record, and the late connection leaves the
slack of two minutes and more. -/
theorem journey_keeps_search_feeder :
    patientSearch.approximate = false ∧
      ∃ j, patientSearch.journey feederTable feederArrival = .ok j ∧
        j.first.finish = .ofHms 7 59 0 ∧
        (j.rideLegs.map fun leg => (leg.start, leg.finish)) =
          [(.ofHms 8 0 0, .ofHms 8 10 0), (.ofHms 8 20 0, .ofHms 8 40 0)] ∧
        ∃ recorded, j.KeepsSearch .forward recorded := by
  have hlegs : (fun j : Journey => (j.first.finish,
      j.rideLegs.map fun leg => (leg.start, leg.finish))) <$>
      patientSearch.journey feederTable feederArrival =
        .ok (.ofHms 7 59 0,
          [(.ofHms 8 0 0, .ofHms 8 10 0), (.ofHms 8 20 0, .ofHms 8 40 0)]) := rfl
  obtain ⟨j, hj, hsame⟩ := map_eq_ok_iff.1 hlegs
  obtain ⟨hfinish, hrides⟩ := Prod.mk.inj hsame
  obtain ⟨-, -, -, -, recorded, -, -, -, -, -, hkeeps⟩ := journey_keeps_search rfl hj
  exact ⟨rfl, j, hj, hfinish, hrides, recorded, hkeeps⟩

end Reconstruction

end Journeys
