import Journeys.Proofs.BestTrips
import Journeys.Proofs.Itinerary
import Journeys.Proofs.MirroredSearch

/-!
# Proofs: the two directions of search are mirror images

What a reverse search makes of a problem, a forward search makes of its mirror: there is a journey
of one if and only if there is one of the other, and apart from the walks between stops, which set
out as early as they can in either direction of time, one journey is the other run backwards
(`Problem.journey_mirror`).
-/

namespace Journeys

/-! ## Changes -/

namespace Ridden

/-- The rule for boarding one ride after another is, in the mirror, the one for boarding the other
after the one. -/
theorem ruleBetween?_mirror (book : RuleBook) (a b : Ridden) :
    ruleBetween? book.mirror.rules b.mirror a.mirror = ruleBetween? book.rules a b :=
  book.find?_mirror a.ride b.ride a.tripId b.tripId

theorem gap_mirror {a b : Ridden} (ha : a.alightTime.Moderate) (hb : b.boardTime.Moderate) :
    b.mirror.gap a.mirror = a.gap b := by
  have halight : a.alightTime.mirror.seconds = -a.alightTime.seconds := ha.seconds_mirror
  have hboard : b.boardTime.mirror.seconds = -b.boardTime.seconds := hb.seconds_mirror
  refine Span.ext ?_
  show (a.alightTime.mirror.since b.boardTime.mirror).nanos =
    (b.boardTime.since a.alightTime).nanos
  rw [Time.nanos_since, Time.nanos_since, halight, hboard]
  omega

end Ridden

namespace Change

/-- The rides with the changes between them, given also the rule under which the last is left. -/
def settledBetween (rules : TransferRules) (after : Option TransferRule) :
    Option TransferRule → Ridden → List (Option Span × Ridden) → Linked Change Ridden
  | before, a, [] => { first := a.between before after, rest := [] }
  | before, a, (walk, b) :: rest =>
    let rule := Ridden.ruleBetween? rules a b
    (settledBetween rules after rule b rest).cons (a.between before rule) ⟨walk, rule⟩

theorem settledBetween_none (rules : TransferRules) (before : Option TransferRule) (a : Ridden)
    (rest : List (Option Span × Ridden)) :
    settledBetween rules none before a rest = settled rules before a rest := by
  induction rest generalizing before a with
  | nil => rfl
  | cons p rest ih => rw [settledBetween, settled, ih]

/-- A ride that is put behind takes part in one change, the last. -/
theorem settledBetween_snoc (rules : TransferRules) (before after : Option TransferRule)
    (rides : Linked (Option Span) Ridden) (walk : Option Span) (b : Ridden) :
    settledBetween rules after before (rides.snoc walk b).first (rides.snoc walk b).rest =
      (settledBetween rules (Ridden.ruleBetween? rules rides.last b) before rides.first
        rides.rest).snoc ⟨walk, Ridden.ruleBetween? rules rides.last b⟩
        (b.between (Ridden.ruleBetween? rules rides.last b) after) := by
  induction rides using Linked.induction generalizing before with
  | single a => rfl
  | cons a walk' rides ih =>
    let rule := Ridden.ruleBetween? rules a rides.first
    exact congrArg (Linked.cons (a.between before rule) ⟨walk', rule⟩) (ih rule)

/-- In the mirror the same rules apply, and slack is taken away on the same sides. -/
theorem settledBetween_mirror (book : RuleBook) (before after : Option TransferRule)
    (rides : Linked (Option Span) Ridden) :
    settledBetween book.mirror.rules after before (rides.map id Ridden.mirror).reverse.first
        (rides.map id Ridden.mirror).reverse.rest =
      ((settledBetween book.rules before after rides.first rides.rest).map id
        Ridden.mirror).reverse := by
  induction rides using Linked.induction generalizing after with
  | single a => rfl
  | cons a walk rides ih =>
    -- the rule behind the first ride is, in the mirror, the one before the last
    have hlast : (rides.map id Ridden.mirror).reverse.last = rides.first.mirror :=
      Linked.last_reverse _
    rw [Linked.map_cons, Linked.reverse_cons, settledBetween_snoc, hlast,
      Ridden.ruleBetween?_mirror, ih]
    rfl

/-- The rides that are settled in the mirror are the mirrors of those that are settled, and rules
are broken in both or in neither. -/
theorem ofRides_mirror (book : RuleBook) {rides : Linked (Option Span) Ridden}
    (hmoderate : ∀ r ∈ rides.toList, r.boardTime.Moderate ∧ r.alightTime.Moderate) :
    Agrees (fun s s' => s' = (s.map id Ridden.mirror).reverse) (ofRides book.rules rides)
      (ofRides book.mirror.rules (rides.map id Ridden.mirror).reverse) := by
  have hsettled := settledBetween_mirror book none none rides
  rw [settledBetween_none, settledBetween_none] at hsettled
  have hallowed : Linked.Chained (fun x _ y => Allowed book.mirror.rules x y)
      (rides.map id Ridden.mirror).reverse.first (rides.map id Ridden.mirror).reverse.rest ↔
      Linked.Chained (fun x _ y => Allowed book.rules x y) rides.first rides.rest := by
    rw [Linked.Chained.reverse_iff]
    refine (Linked.Chained.map_iff id Ridden.mirror).trans (Linked.Chained.congr_of_mem ?_)
    intro a _ walk b _
    rw [Allowed, Allowed, Ridden.ruleBetween?_mirror]
  have hsettledModerate : ∀ r ∈ (settled book.rules none rides.first rides.rest).toList,
      r.boardTime.Moderate ∧ r.alightTime.Moderate :=
    forall_settled (fun r hr _ _ => hmoderate r hr) book.rules none
  have hholds (s : Linked Change Ridden)
      (hs : ∀ r ∈ s.toList, r.boardTime.Moderate ∧ r.alightTime.Moderate) :
      Linked.Chained RuleHolds (s.map id Ridden.mirror).reverse.first
        (s.map id Ridden.mirror).reverse.rest ↔ Linked.Chained RuleHolds s.first s.rest := by
    rw [Linked.Chained.reverse_iff]
    refine (Linked.Chained.map_iff id Ridden.mirror).trans (Linked.Chained.congr_of_mem ?_)
    intro a ha change b hb
    rw [RuleHolds, RuleHolds, Ridden.gap_mirror (hs a ha).2 (hs b hb).1]
    rfl
  refine .of_exists_iff ?_ ?_
  · rw [exists_ofRides_iff, exists_ofRides_iff, hallowed, hsettled, hholds _ hsettledModerate]
  · intro s s' hs hs'
    rw [(ofRides_eq_ok_iff.1 hs').1, (ofRides_eq_ok_iff.1 hs).1, hsettled]

end Change

/-! ## Legs -/

/-- The particulars of a ride in the mirror of its pattern. -/
def RideDetails.mirrorIn (p : Pattern) (details : RideDetails) : RideDetails :=
  { details with
    trip := details.trip.mirrorIn p
    boardPos := p.mirrorPos details.alightPos
    alightPos := p.mirrorPos details.boardPos
    boardSlack := details.alightSlack
    alightSlack := details.boardSlack }

/-- The kind of a leg in the mirror of a timetable. -/
def LegKind.mirror (network : Network) : LegKind → LegKind
  | .access => .egress
  | .ride details =>
    match network.pattern? details.trip.pattern with
    | some p => .ride (details.mirrorIn p)
    | none => .ride details
  | .transfer => .transfer
  | .egress => .access

/-- The place in the mirror, where journeys run from the destination to the origin. -/
def Place.mirror : Place → Place
  | .origin => .destination
  | .stop s => .stop s
  | .destination => .origin

namespace Leg

/-- The leg travelled backwards in the mirror of a timetable. -/
def mirror (network : Network) (leg : Leg) : Leg :=
  { kind := leg.kind.mirror network
    fromPlace := leg.toPlace.mirror
    toPlace := leg.fromPlace.mirror
    start := leg.finish.mirror
    finish := leg.start.mirror
    cost := leg.cost }

/-- The leg without its price, and without the rule under which it was boarded. -/
def bare (leg : Leg) : Leg :=
  { leg with
    kind :=
      match leg.kind with
      | .ride details => .ride { details with rule := none }
      | kind => kind
    cost := none }

/-- The rides and the walks at the street, rules and prices apart. -/
def outline (legs : List Leg) : List Leg := (legs.filter fun leg => !leg.isTransfer).map bare

theorem outline_map_unpriced (legs : List Leg) : outline (legs.map unpriced) = outline legs := by
  rw [outline, List.filter_map, List.map_map]
  rfl

end Leg

theorem Ridden.asLeg_mirror {network : Network} {r : Ridden} (h : r.Scheduled network) :
    r.mirror.asLeg none = (r.asLeg none).mirror network := by
  have hpattern : network.pattern? (r.details none).trip.pattern = some r.ride.pattern := by
    rw [← h.pattern, ← h.onTrip.pattern]
    rfl
  have hkind : (r.asLeg none).kind.mirror network =
      .ride ((r.details none).mirrorIn r.ride.pattern) := by
    show LegKind.mirror network (.ride (r.details none)) = _
    rw [LegKind.mirror, hpattern]
  rw [Leg.mirror, hkind]
  rfl

namespace Placement

theorem outline_legsFrom {egress : StreetWalk} {rule : Option TransferRule} {r : Ridden}
    {rest : List (Change × Ridden)} {legs : List Leg} (h : legsFrom egress rule r rest = .ok legs) :
    ∃ last, egressLeg egress (Linked.lastFrom r rest) = .ok last ∧
      Leg.outline legs =
        (⟨r, rest⟩ : Linked Change Ridden).toList.map (Ridden.asLeg none) ++ [last] := by
  induction rest generalizing rule r legs with
  | nil =>
    obtain ⟨last, hlast, rfl⟩ := exists_of_legsFrom_nil h
    refine ⟨last, hlast, ?_⟩
    obtain ⟨start, finish, rfl, -, -⟩ := exists_of_egressLeg hlast
    rfl
  | cons p rest ih =>
    obtain ⟨walk, behind, hwalk, hbehind, rfl⟩ := exists_of_legsFrom_cons h
    obtain ⟨last, hlast, houtline⟩ := ih hbehind
    have hnone : walk.filter (fun leg => !leg.isTransfer) = [] := by
      refine List.filter_eq_nil_iff.2 fun leg hleg => ?_
      simp [Leg.isTransfer, kind_of_transferLegs hwalk leg hleg]
    refine ⟨last, hlast, ?_⟩
    rw [Leg.outline, List.filter_cons_of_pos rfl, List.filter_append, hnone, List.nil_append,
      List.map_cons, ← Leg.outline, houtline]
    rfl

theorem outline_legs {access egress : StreetWalk} {rides : Linked Change Ridden} {all : List Leg}
    (h : legs access egress rides = .ok all) :
    ∃ first last, accessLeg access rides.first = .ok first ∧
      egressLeg egress rides.last = .ok last ∧
      Leg.outline all = first :: (rides.toList.map (Ridden.asLeg none) ++ [last]) := by
  obtain ⟨first, hfirst, h⟩ := bind_eq_ok_iff.1 h
  obtain ⟨behind, hbehind, h⟩ := bind_eq_ok_iff.1 h
  obtain ⟨last, hlast, houtline⟩ := outline_legsFrom hbehind
  refine ⟨first, last, hfirst, hlast, ?_⟩
  obtain ⟨start, finish, rfl, -, -⟩ := exists_of_accessLeg hfirst
  rw [← pure_eq_ok_iff.1 h, Leg.outline, List.filter_cons_of_pos rfl, List.map_cons, ← Leg.outline,
    houtline]
  rfl

/-- The walk to the first ride is the walk from the last one in the mirror. -/
theorem egressLeg_mirror (network : Network) {walk : StreetWalk} {r : Ridden} {leg leg' : Leg}
    (hr : r.boardTime.Moderate) (h : accessLeg walk r = .ok leg)
    (h' : egressLeg walk r.mirror = .ok leg') : leg' = leg.mirror network := by
  obtain ⟨start, finish, rfl, hfinish, hstart⟩ := exists_of_accessLeg h
  obtain ⟨start', finish', rfl, hstart', hfinish'⟩ := exists_of_egressLeg h'
  have hboard : r.mirror.alightTime.seconds = -r.boardTime.seconds := hr.seconds_mirror
  have hslack : r.mirror.ride.alightSlack = r.ride.boardSlack := rfl
  rw [hboard, hslack] at hstart'
  obtain rfl : start' = finish.mirror := Time.eq_mirror (by omega)
  obtain rfl : finish' = start.mirror := Time.eq_mirror (by omega)
  rfl

/-- The walk from the last ride is the walk to the first one in the mirror. -/
theorem accessLeg_mirror (network : Network) {walk : StreetWalk} {r : Ridden} {leg leg' : Leg}
    (hr : r.alightTime.Moderate) (h : egressLeg walk r = .ok leg)
    (h' : accessLeg walk r.mirror = .ok leg') : leg' = leg.mirror network := by
  obtain ⟨start, finish, rfl, hstart, hfinish⟩ := exists_of_egressLeg h
  obtain ⟨start', finish', rfl, hfinish', hstart'⟩ := exists_of_accessLeg h'
  have halight : r.mirror.boardTime.seconds = -r.alightTime.seconds := hr.seconds_mirror
  have hslack : r.mirror.ride.boardSlack = r.ride.alightSlack := rfl
  rw [halight, hslack] at hfinish'
  obtain rfl : finish' = start.mirror := Time.eq_mirror (by omega)
  obtain rfl : start' = finish.mirror := Time.eq_mirror (by omega)
  rfl

/-- Legs that are placed for the mirrored rides are, walks between stops apart, those of the rides
run backwards. -/
theorem outline_legs_mirror {network : Network} {access egress : StreetWalk}
    {rides : Linked Change Ridden} {all all' : List Leg}
    (hscheduled : ∀ r ∈ rides.toList, r.Scheduled network)
    (hmoderate : ∀ r ∈ rides.toList, r.boardTime.Moderate ∧ r.alightTime.Moderate)
    (h : legs access egress rides = .ok all)
    (h' : legs egress access (rides.map id Ridden.mirror).reverse = .ok all') :
    Leg.outline all' = ((Leg.outline all).map (Leg.mirror network)).reverse := by
  obtain ⟨first, last, hfirst, hlast, houtline⟩ := outline_legs h
  obtain ⟨first', last', hfirst', hlast', houtline'⟩ := outline_legs h'
  rw [Linked.first_reverse, Linked.last_map] at hfirst'
  rw [Linked.last_reverse] at hlast'
  have hstart : first' = last.mirror network :=
    accessLeg_mirror network (hmoderate _ rides.last_mem_toList).2 hlast hfirst'
  have hend : last' = first.mirror network :=
    egressLeg_mirror network (hmoderate _ (Linked.first_mem_toList rides)).1 hfirst hlast'
  have hrides : rides.toList.map (Ridden.asLeg none ∘ Ridden.mirror) =
      rides.toList.map (Leg.mirror network ∘ Ridden.asLeg none) :=
    List.map_congr_left fun r hr => Ridden.asLeg_mirror (hscheduled r hr)
  rw [houtline, houtline', hstart, hend, Linked.toList_reverse, Linked.toList_map, List.map_reverse,
    List.map_map, hrides]
  simp

end Placement

/-! ## Problems -/

/-- What a search leaves to rebuild a journey from; slack is uniform and rules are in a book. -/
structure Problem where
  network : Network
  slack : UniformSlack
  book : RuleBook
  table : Arrivals
  arrival : FinalArrival

namespace Problem

/-- The problem run backwards. -/
def mirror (p : Problem) : Problem :=
  { network := p.network.mirror
    slack := p.slack.mirror
    book := p.book.mirror
    table := p.table.mirror p.network
    arrival := p.arrival.mirror }

/-- The reconstruction that searches for the trips of a problem. -/
def reconstruction (p : Problem) (direction : Direction) (tariff : Option Tariff) :
    Reconstruction :=
  { direction
    network := p.network
    slack := p.slack.policy
    rules := p.book.rules
    tariff
    approximate := false }

/-- The journey that the problem asks for. -/
def journey (p : Problem) (direction : Direction) (tariff : Option Tariff) :
    Except RebuildError Journey :=
  (p.reconstruction direction tariff).journey p.table p.arrival

/-- All times and spans are under 2^28 seconds either way, and no walk takes less than no time. -/
structure Bounded (p : Problem) : Prop where
  network : p.network.Moderate
  slack : p.slack.policy.Moderate
  rules : p.book.Moderate
  times : ∀ record ∈ p.table.records, record.time.Moderate
  walks : p.table.WalksLast (Span.Passable True)
  egress : p.arrival.egress.duration.Passable True

variable {p : Problem}

theorem Bounded.mirror (h : p.Bounded) : p.mirror.Bounded := by
  refine ⟨h.network.mirror, ?_, ?_, ?_, h.walks.mirror p.network, h.egress⟩
  · intro stop slot
    exact ⟨(h.slack stop slot).2, (h.slack stop slot).1⟩
  · intro entry' hentry'
    obtain ⟨entry, hentry, rfl⟩ := List.mem_map.1 hentry'
    exact h.rules entry hentry
  · intro record' hrecord'
    obtain ⟨record, hrecord, rfl⟩ := Array.mem_map.1 hrecord'
    exact (h.times record hrecord).mirror

variable {direction : Direction} {tariff : Option Tariff} {recorded : RecordedJourney}
  {ridden : Linked (Option Span) Ridden}

/-- Of a bounded problem there is a journey if there are its rides: legs can then be placed. -/
theorem Bounded.exists_journey_iff (h : p.Bounded) :
    (∃ j, p.journey direction tariff = .ok j) ↔
      ∃ x, (p.reconstruction direction tariff).rides p.table p.arrival = .ok x := by
  constructor
  · rintro ⟨j, hj⟩
    obtain ⟨x, hx, -⟩ := bind_eq_ok_iff.1 hj
    exact ⟨x, unusable_eq_ok_iff.1 hx⟩
  · rintro ⟨⟨recorded, settled⟩, hrides⟩
    obtain ⟨ridden, hsteps⟩ := Reconstruction.rides_eq_ok_iff.1 hrides
    have hgives : Gives (MayFail (false = false) True) (fun _ => True)
        (p.journey direction tariff) :=
      hsteps.gives_journey (fun _ => h.network) (fun _ => h.slack) h.walks h.egress
    obtain ⟨j, hj, -⟩ := hgives.exists_ok fun e he => by
      cases e with
      | unusable error => exact he trivial
      | inconsistent error => exact he.1 rfl
    exact ⟨j, hj⟩

/-- What is read from the table of a bounded problem is bounded. -/
theorem Bounded.of_ofArrival (h : p.Bounded)
    (hfound : RecordedJourney.ofArrival p.network p.slack.policy .reverse p.table p.arrival =
      .ok recorded) :
    recorded.anchor.Moderate ∧ TripChoice.Bounded recorded.rides := by
  have hsound := RecordedJourney.sound_of_ofArrival hfound
  obtain ⟨-, -, hwalks⟩ := RecordedJourney.walks_of_ofArrival hfound h.walks h.egress
  obtain ⟨start, hstart, hanchor⟩ := RecordedJourney.exists_anchor_of_ofArrival hfound
  refine ⟨?_, ?_, ?_⟩
  · rw [← hanchor]
    exact h.times start hstart
  · intro r hr
    have hresolved := hsound.resolved r hr
    obtain ⟨record, hrecord, htime⟩ := RecordedJourney.exists_time_of_ofArrival hfound hr
    refine ⟨hresolved.within, h.network _ _ hresolved.pattern, ?_,
      hresolved.passable_boardSlack fun _ => h.slack,
      hresolved.passable_alightSlack fun _ => h.slack⟩
    rw [← htime]
    exact h.times record hrecord
  · intro walk hwalk
    cases walk with
    | none => exact Span.passable_zero
    | some d => exact hwalks d hwalk

theorem Bounded.moderate_of_assigns (h : p.Bounded)
    (hsound : recorded.Sound p.network p.slack.policy) (hassigns : recorded.Assigns ridden) :
    ∀ r ∈ ridden.toList, r.boardTime.Moderate ∧ r.alightTime.Moderate := by
  intro r hr
  exact (hassigns.onTrip r hr).moderate (h.network _ _ (hassigns.resolved hsound hr).pattern)

/-- The rides of the mirror are those of the problem run backwards. -/
theorem Bounded.rides_mirror (h : p.Bounded) (hhops : p.table.HopsExist p.network)
    (tariff tariff' : Option Tariff) :
    Agrees (fun x x' => x' = (x.1.mirror, (x.2.map id Ridden.mirror).reverse))
      ((p.reconstruction .reverse tariff).rides p.table p.arrival)
      ((p.mirror.reconstruction .forward tariff').rides p.mirror.table p.mirror.arrival) := by
  refine (RecordedJourney.ofArrival_mirror p.slack hhops p.arrival).bind ?_
  rintro recorded recorded' hfound rfl
  obtain ⟨hanchor, hbounded⟩ := h.of_ofArrival hfound
  have hsound := RecordedJourney.sound_of_ofArrival hfound
  have hmirrorable :
      TripChoice.Mirrorable p.book ⟨.reverse, p.book.rules, false, recorded.anchor⟩ :=
    ⟨rfl, rfl, rfl, h.rules, hanchor⟩
  refine (TripChoice.chooseAll_mirror hmirrorable hbounded).bind ?_
  rintro ridden ridden' hchosen rfl
  have hmoderate := h.moderate_of_assigns hsound (.of_chooseAll hsound hchosen)
  refine (Change.ofRides_mirror p.book hmoderate).bind ?_
  rintro settled settled' - rfl
  rfl

/-- Where times and spans are bounded and hops point at trips that there are, a reverse search has a
journey if and only if a forward search has one in the mirror, and then the rides and the walks at
the street of one journey are those of the other run backwards: the trips, the stops, the times and
the slack. -/
theorem journey_mirror (p : Problem) (h : p.Bounded) (hhops : p.table.HopsExist p.network)
    (tariff tariff' : Option Tariff) :
    ((∃ j, p.journey .reverse tariff = .ok j) ↔
        ∃ j', p.mirror.journey .forward tariff' = .ok j') ∧
      ∀ j j', p.journey .reverse tariff = .ok j → p.mirror.journey .forward tariff' = .ok j' →
        Leg.outline j'.legs = ((Leg.outline j.legs).map (Leg.mirror p.network)).reverse := by
  have hrides := h.rides_mirror hhops tariff tariff'
  refine ⟨?_, fun j j' hj hj' => ?_⟩
  · rw [h.exists_journey_iff, h.mirror.exists_journey_iff]
    exact hrides.exists_iff
  · obtain ⟨recorded, ridden, settled, legs, hsteps, hlegs, hsame⟩ :=
      Reconstruction.exists_steps_of_journey hj
    obtain ⟨recorded', ridden', settled', legs', hsteps', hlegs', hsame'⟩ :=
      Reconstruction.exists_steps_of_journey hj'
    obtain ⟨rfl, rfl⟩ : recorded' = recorded.mirror ∧
        settled' = (settled.map id Ridden.mirror).reverse := by
      have hpair := hrides.related (Reconstruction.rides_eq_ok_iff.2 ⟨ridden, hsteps⟩)
        (Reconstruction.rides_eq_ok_iff.2 ⟨ridden', hsteps'⟩)
      exact Prod.mk.inj hpair
    have hscheduled := hsteps.scheduled
    rw [← Leg.outline_map_unpriced j'.legs, hsame', Leg.outline_map_unpriced,
      ← Leg.outline_map_unpriced j.legs, hsame, Leg.outline_map_unpriced]
    refine Placement.outline_legs_mirror hscheduled ?_ hlegs hlegs'
    intro r hr
    exact (hscheduled r hr).onTrip.moderate (h.network _ _ (hscheduled r hr).pattern)

/-- The late connection with time to board, and a rule for the change to it. -/
def late : Problem :=
  { network := Network.ofPatterns [feederPattern, onwardPattern]
    slack := ⟨minute, Span.zero⟩
    book := RuleBook.ofList [(⟨⟨"feeder"⟩, ⟨2⟩, ⟨"late"⟩, ⟨2⟩⟩, .minimumTime minute)]
    table := lateReverse
    arrival := lateReverseArrival }

/-- Both journeys are by the feeder and the late connection. -/
theorem journey_mirror_late :
    ∃ j j', late.journey .reverse none = .ok j ∧ late.mirror.journey .forward none = .ok j' ∧
      j.trips = [⟨⟨0⟩, 0⟩, ⟨⟨1⟩, 1⟩] ∧
      Leg.outline j'.legs = ((Leg.outline j.legs).map (Leg.mirror late.network)).reverse := by
  have hbounded : late.Bounded := by
    refine ⟨Reconstruction.forall_ofPatterns (by decide), fun stop slot => ?_, by decide, by decide,
      by decide, by decide⟩
    exact (by decide : minute.Moderate ∧ Span.zero.Moderate)
  obtain ⟨hexists, hlegs⟩ := journey_mirror late hbounded (by decide) none none
  have htrips : Journey.trips <$> late.journey .reverse none = .ok [⟨⟨0⟩, 0⟩, ⟨⟨1⟩, 1⟩] := rfl
  obtain ⟨j, hj, hsame⟩ := map_eq_ok_iff.1 htrips
  obtain ⟨j', hj'⟩ := hexists.1 ⟨j, hj⟩
  exact ⟨j, j', hj, hj', hsame, hlegs j j' hj hj'⟩

end Problem

end Journeys
