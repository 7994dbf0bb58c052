import Journeys.Proofs.Mirror

/-!
# Proofs: rides in the mirror

The rides of a forward search in the mirror are the mirrors of those of a reverse search, at every
step of the way: looked up in the timetable, read from the steps of a chain, and joined with the
trips that are found for them. The two searches go through the trips of a pattern in opposite order,
ask for opposite times, and take the neighbour's rule with its ends exchanged; held against each
other trip by trip, they do the same.
-/

namespace Journeys

/-! ## Rides -/

/-- The ride in the mirror of its pattern. -/
def RecordedRide.mirror (r : RecordedRide) : RecordedRide :=
  { hop := r.hop.mirrorIn r.pattern
    board := r.alight
    alight := r.board
    pattern := r.pattern.mirror
    recorded := r.recorded.mirror
    time := r.time.mirror
    boardSlack := r.alightSlack
    alightSlack := r.boardSlack }

/-- The same of a ride with its trip. -/
def Ridden.mirror (r : Ridden) : Ridden :=
  { ride := r.ride.mirror
    trip := r.trip.mirrorIn r.ride.pattern
    tripId := r.tripId
    boardTime := r.alightTime.mirror
    alightTime := r.boardTime.mirror }

/-- The rides in the mirror, in its order of travel. -/
def mirrorRides (rides : Linked (Option Span) RecordedRide) : Linked (Option Span) RecordedRide :=
  (rides.map id RecordedRide.mirror).reverse

/-! ## Looking rides up -/

namespace RecordedRide

variable {network : Network} {hop : Hop} {board alight : Stop} {time : Time}

/-- A hop that points at a trip and at positions of its pattern is looked up by comparing stops. -/
theorem exists_resolve_iff {slack : SlackPolicy} {p : Pattern}
    (hp : network.pattern? hop.trip.pattern = some p) (hwithin : hop.Within p) :
    (∃ r, resolve network slack hop board alight time = .ok r) ↔
      hop.boardPos < hop.alightPos ∧ p.stop? hop.boardPos = some board ∧
        p.stop? hop.alightPos = some alight := by
  constructor
  · rintro ⟨r, hr⟩
    obtain ⟨hstep, hresolved⟩ := resolved_of_resolve hr
    obtain ⟨rfl, rfl, rfl, rfl⟩ := RecordedStep.ride.inj hstep
    obtain rfl : r.pattern = p := Option.some.inj (hresolved.pattern.symm.trans hp)
    exact ⟨hresolved.onwards, hresolved.board, hresolved.alight⟩
  · rintro ⟨honwards, hboard, halight⟩
    obtain ⟨trip, htrip⟩ : ∃ trip, p.trip? hop.trip.trip = some trip :=
      ⟨_, List.getElem?_eq_getElem hwithin.trip⟩
    have hresolved : Resolved network slack
        { hop, board, alight, pattern := p, recorded := trip, time
          boardSlack := (slack.board board hop.trip).clampNonneg
          alightSlack := (slack.alight alight hop.trip).clampNonneg } :=
      ⟨honwards, hp, hboard, halight, htrip, rfl, rfl⟩
    exact ⟨_, hresolved.resolve_eq⟩

theorem Resolved.within {slack : SlackPolicy} {r : RecordedRide} (h : r.Resolved network slack) :
    r.hop.Within r.pattern :=
  ⟨(List.getElem?_eq_some_iff.1 h.recorded).1, h.boardPos_lt, h.alightPos_lt⟩

theorem Resolved.mirror {slack : UniformSlack} {r : RecordedRide}
    (h : r.Resolved network slack.policy) :
    r.mirror.Resolved network.mirror slack.mirror.policy := by
  obtain ⟨htrip, hboard, halight⟩ := h.within
  have honwards := h.onwards
  refine ⟨?_, ?_, ?_, ?_, ?_, h.alightSlack, h.boardSlack⟩
  · show r.pattern.stops.length - 1 - r.hop.alightPos < r.pattern.stops.length - 1 - r.hop.boardPos
    omega
  · show (network.pattern? r.hop.trip.pattern).map Pattern.mirror = _
    rw [h.pattern]
    rfl
  · exact (Pattern.stop?_mirror halight).trans h.alight
  · exact (Pattern.stop?_mirror hboard).trans h.board
  · show r.pattern.mirror.trip? (r.pattern.mirrorIndex r.hop.trip.trip) = _
    rw [Pattern.trip?_mirror htrip, h.recorded]
    rfl

/-- A hop is found in the mirror exactly when it is found, and there it is the mirrored ride. -/
theorem resolve_mirror (slack : UniformSlack) (hhop : hop.Exists network) (board alight : Stop)
    (time : Time) :
    Agrees (fun r r' => r' = r.mirror) (resolve network slack.policy hop board alight time)
      (resolve network.mirror slack.mirror.policy (hop.mirror network) alight board
        time.mirror) := by
  obtain ⟨p, hp, hwithin⟩ := hhop
  have hmirror : hop.mirror network = hop.mirrorIn p := Hop.mirror_eq hp
  have hp' : network.mirror.pattern? (hop.mirrorIn p).trip.pattern = some p.mirror := by
    show (network.pattern? hop.trip.pattern).map Pattern.mirror = _
    rw [hp]
    rfl
  have hwithin' : (hop.mirrorIn p).Within p.mirror := by
    obtain ⟨htrip, hboard, halight⟩ := hwithin
    have hstops : p.mirror.stops.length = p.stops.length := List.length_reverse
    have htrips : p.mirror.trips.length = p.trips.length := by simp [Pattern.mirror]
    refine ⟨?_, ?_, ?_⟩
    · rw [htrips]
      show p.trips.length - 1 - hop.trip.trip < p.trips.length
      omega
    · rw [hstops]
      show p.stops.length - 1 - hop.alightPos < p.stops.length
      omega
    · rw [hstops]
      show p.stops.length - 1 - hop.boardPos < p.stops.length
      omega
  -- of a hop that is there, only the stops at its positions are held against the chain
  refine .of_exists_iff ?_ ?_
  · rw [hmirror, exists_resolve_iff hp hwithin, exists_resolve_iff hp' hwithin']
    show _ ↔ p.mirrorPos hop.alightPos < p.mirrorPos hop.boardPos ∧
      p.mirror.stop? (p.mirrorPos hop.alightPos) = some alight ∧
        p.mirror.stop? (p.mirrorPos hop.boardPos) = some board
    rw [Pattern.stop?_mirror hwithin.alightPos, Pattern.stop?_mirror hwithin.boardPos]
    have hpos : p.mirrorPos hop.alightPos < p.mirrorPos hop.boardPos ↔
        hop.boardPos < hop.alightPos := by
      obtain ⟨-, hboard, halight⟩ := hwithin
      show p.stops.length - 1 - hop.alightPos < p.stops.length - 1 - hop.boardPos ↔ _
      omega
    rw [hpos, and_comm (a := p.stop? hop.alightPos = some alight)]
  · intro r r' hr hr'
    obtain ⟨hstep, hresolved⟩ := resolved_of_resolve hr
    obtain ⟨rfl, rfl, rfl, rfl⟩ := RecordedStep.ride.inj hstep
    have hresolve := hresolved.mirror.resolve_eq
    obtain rfl : r.pattern = p := Option.some.inj (hresolved.pattern.symm.trans hp)
    rw [hmirror] at hr'
    exact Except.ok.inj (hr'.symm.trans hresolve)

end RecordedRide

/-! ## Reading rides -/

namespace RecordedJourney

theorem steps_snoc (rides : Linked (Option Span) RecordedRide) (walk : Option Span)
    (r : RecordedRide) :
    steps (rides.snoc walk r) = steps rides ++ (walk.toList.map .walk ++ [r.step]) := by
  simp [steps, restSteps, Linked.snoc]

theorem steps_reverse (rides : Linked (Option Span) RecordedRide) :
    steps rides.reverse = (steps rides).reverse := by
  induction rides using Linked.induction with
  | single a => rfl
  | cons a walk rides ih =>
    have hwalk : (walk.toList.map RecordedStep.walk).reverse = walk.toList.map .walk := by
      cases walk <;> rfl
    rw [Linked.reverse_cons, steps_snoc, ih, steps_cons, List.reverse_cons, List.reverse_append,
      hwalk, List.append_assoc]

theorem steps_map_mirror {network : Network} {slack : SlackPolicy}
    {rides : Linked (Option Span) RecordedRide}
    (h : ∀ r ∈ rides.toList, r.Resolved network slack) :
    steps (rides.map id RecordedRide.mirror) =
      (steps rides).map (RecordedStep.mirror network) := by
  have hstep (r : RecordedRide) (hr : r.Resolved network slack) :
      r.mirror.step = r.step.mirror network := by
    show RecordedStep.ride (r.hop.mirrorIn r.pattern) _ _ _ = .ride (r.hop.mirror network) _ _ _
    rw [Hop.mirror_eq hr.pattern]
    rfl
  induction rides using Linked.induction with
  | single a => exact congrArg (fun step => [step]) (hstep a (h a (Linked.first_mem_toList _)))
  | cons a walk rides ih =>
    obtain ⟨ha, hmore⟩ := List.forall_mem_cons.1 h
    have hwalk : (walk.toList.map RecordedStep.walk).map (RecordedStep.mirror network) =
        walk.toList.map .walk := by
      cases walk <;> rfl
    rw [Linked.map_cons, steps_cons, steps_cons, ih hmore, hstep a ha, List.map_cons,
      List.map_append, hwalk]
    rfl

end RecordedJourney

/-- The hop of a step, if it is a ride, points at a trip and at positions of its pattern. -/
def RecordedStep.Exists (network : Network) : RecordedStep → Prop
  | .ride hop _ _ _ => hop.Exists network
  | .walk _ => True

namespace RecordedJourney

variable {network : Network} {all : List RecordedStep}

theorem isRide_mirror (step : RecordedStep) : (step.mirror network).isRide = step.isRide := by
  cases step <;> rfl

theorem resolves_mirror (slack : UniformSlack) {step : RecordedStep} (h : step.Exists network) :
    Resolves (RecordedRide.resolve network slack.policy) step ↔
      Resolves (RecordedRide.resolve network.mirror slack.mirror.policy)
        (step.mirror network) := by
  cases step with
  | ride hop board alight time =>
    exact (RecordedRide.resolve_mirror slack h board alight time).exists_iff
  | walk duration => exact Iff.rfl

/-- The rides of the mirrored steps are the mirrored rides. -/
theorem readRides_mirror (slack : UniformSlack) (hall : ∀ step ∈ all, step.Exists network) :
    Agrees (fun rides rides' => rides' = mirrorRides rides)
      (readRides (RecordedRide.resolve network slack.policy) all)
      (readRides (RecordedRide.resolve network.mirror slack.mirror.policy)
        (all.map (RecordedStep.mirror network)).reverse) := by
  refine .of_exists_iff ?_ ?_
  · have hrides : (all.map (RecordedStep.mirror network)).reverse.map RecordedStep.isRide =
        (all.map RecordedStep.isRide).reverse := by
      rw [List.map_reverse, List.map_map]
      exact congrArg List.reverse (List.map_congr_left fun step _ => isRide_mirror step)
    have hresolves : (∀ step ∈ (all.map (RecordedStep.mirror network)).reverse,
        Resolves (RecordedRide.resolve network.mirror slack.mirror.policy) step) ↔
        ∀ step ∈ all, Resolves (RecordedRide.resolve network slack.policy) step := by
      constructor
      · intro h step hstep
        refine (resolves_mirror slack (hall step hstep)).2 (h _ ?_)
        exact List.mem_reverse.2 (List.mem_map_of_mem hstep)
      · intro h step' hstep'
        obtain ⟨step, hstep, rfl⟩ := List.mem_map.1 (List.mem_reverse.1 hstep')
        exact (resolves_mirror slack (hall step hstep)).1 (h step hstep)
    have hchain : (all.map RecordedStep.isRide).IsChain (fun a b => b = true ∨ a = true) ↔
        (all.map RecordedStep.isRide).IsChain (fun a b => a = true ∨ b = true) :=
      ⟨fun h => h.imp fun _ _ => Or.symm, fun h => h.imp fun _ _ => Or.symm⟩
    rw [exists_readRides_iff, exists_readRides_iff, hrides, hresolves, List.head?_reverse,
      List.getLast?_reverse, List.isChain_reverse, hchain]
    tauto
  · intro rides rides' hread hread'
    -- the mirrored rides are what is read from their own steps, and these are the mirrored ones
    obtain ⟨hsteps, hresolved⟩ := steps_of_readRides RecordedRide.resolved_of_resolve hread
    have hsteps' : steps (mirrorRides rides) =
        (all.map (RecordedStep.mirror network)).reverse := by
      rw [mirrorRides, steps_reverse, steps_map_mirror hresolved, hsteps]
    have hmirrored : ∀ r ∈ (mirrorRides rides).toList,
        RecordedRide.resolve network.mirror slack.mirror.policy r.hop r.board r.alight r.time =
          .ok r := by
      intro r' hr'
      rw [mirrorRides, Linked.toList_reverse, Linked.toList_map, List.mem_reverse] at hr'
      obtain ⟨r, hr, rfl⟩ := List.mem_map.1 hr'
      exact (hresolved r hr).mirror.resolve_eq
    have hread := readRides_steps hmirrored
    rw [hsteps', hread'] at hread
    exact Except.ok.inj hread

end RecordedJourney

/-- The hop of an approach, if it is a ride. -/
def Approach.hop? : Approach → Option Hop
  | .access _ => none
  | .ride _ hop => some hop
  | .walk _ _ => none

/-- All hops of a table point at trips and positions of their patterns. -/
def Arrivals.HopsExist (network : Network) (table : Arrivals) : Prop :=
  ∀ record ∈ table.records, ∀ hop, record.approach.hop? = some hop → hop.Exists network

instance (network : Network) (table : Arrivals) : Decidable (table.HopsExist network) :=
  inferInstanceAs (Decidable
    (∀ record ∈ table.records, ∀ hop, record.approach.hop? = some hop → hop.Exists network))

theorem Trail.Followed.steps_exist {network : Network} {table : Arrivals} {direction : Direction}
    {record : ArrivalRecord} {trail : Trail} (h : Followed table direction record trail)
    (htable : table.HopsExist network) (hrecord : record ∈ table.records) :
    ∀ step ∈ trail.steps, step.Exists network := by
  induction h with
  | access _ _ _ => simp
  | ride happroach hbefore _ _ ih =>
    have hhop := htable _ hrecord _ (by rw [happroach]; rfl)
    refine List.forall_mem_cons.2 ⟨?_, ih (mem_records_of_get? hbefore)⟩
    cases direction <;> exact hhop
  | walk _ hbefore _ _ ih =>
    exact List.forall_mem_cons.2 ⟨trivial, ih (mem_records_of_get? hbefore)⟩

namespace RecordedJourney

/-- The journey of a reverse search as one of a forward search in the mirror. -/
def mirror (journey : RecordedJourney) : RecordedJourney :=
  { access := journey.egress
    egress := journey.access
    anchor := journey.anchor.mirror
    rides := mirrorRides journey.rides }

/-- A journey is read from the mirrored table exactly when one is read from the table, and it is its
mirror. -/
theorem ofArrival_mirror {network : Network} (slack : UniformSlack) {table : Arrivals}
    (htable : table.HopsExist network) (arrival : FinalArrival) :
    Agrees (fun journey journey' => journey' = mirror journey)
      (ofArrival network slack.policy .reverse table arrival)
      (ofArrival network.mirror slack.mirror.policy .forward (table.mirror network)
        arrival.mirror) := by
  have hmirror := Trail.ofArrival_mirror network table arrival
  cases htrail : Trail.ofArrival table .reverse arrival with
  | error e =>
    rw [htrail] at hmirror
    rw [ofArrival, ofArrival, htrail, hmirror]
    trivial
  | ok trail =>
    rw [htrail] at hmirror
    rw [ofArrival_eq_ofTrail htrail, ofArrival_eq_ofTrail hmirror]
    obtain ⟨record, hrecord, -, -, hfollowed, -⟩ := Trail.ofArrival_eq_ok_iff.1 htrail
    have hexist := hfollowed.steps_exist htable (Trail.mem_records_of_get? hrecord)
    refine (readRides_mirror slack hexist).bind ?_
    rintro rides rides' - rfl
    rfl

end RecordedJourney

end Journeys
