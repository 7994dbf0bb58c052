import Journeys.Proofs.BuiltLegs
import Journeys.Proofs.Reconstruction

/-!
# Proofs: accepted trips can be ridden

A trip is accepted by comparing each of its times with the next one: the departure of a call with
its arrival, and the arrival of a call with the departure of the one before. So what is accepted are
the times that never decrease when they are taken in turn (`Trip.exists_ofTimes_iff`), and with the
neighbours any two of them are in order.

Placing legs counts on this. A ride that was looked up leads from one position of its pattern to a
later one, and every trip of the pattern calls at both. Whichever of them is ridden, it is boarded
no later than it is left, and there is a leg for it. So a leg that runs back in time is never a
ride, but a walk that takes less than no time (`Reconstruction.legs_fail_only_by_walks`).
-/

namespace Journeys

/-! ## Times in turn -/

namespace Trip

/-- The times of a trip as they pass: every arrival with its departure behind it. -/
def timesInTurn : List Time → List Time → List Time
  | arrival :: arrivals, departure :: departures =>
    arrival :: departure :: timesInTurn arrivals departures
  | _, _ => []

theorem isChain_timesInTurn_iff (calls : List Call) :
    (timesInTurn (calls.map Call.arrival) (calls.map Call.departure)).IsChain (· ≤ ·) ↔
      Call.Dwelling calls ∧ Call.Advancing calls := by
  induction calls with
  | nil => simp [timesInTurn, Call.Dwelling, Call.Advancing]
  | cons a calls ih =>
    cases calls with
    | nil => simp [timesInTurn, Call.Dwelling, Call.Advancing]
    | cons b rest =>
      -- the first call adds one comparison within itself and one with the call behind it
      have hdwelling : Call.Dwelling (a :: b :: rest) ↔
          a.arrival ≤ a.departure ∧ Call.Dwelling (b :: rest) := List.forall_mem_cons
      rw [hdwelling, Call.Advancing, and_and_and_comm, ← ih]
      simp only [List.map_cons, timesInTurn, List.isChain_cons_cons, and_assoc]

/-- What is in order from each time to the next is in order altogether. -/
theorem pairwise_timesInTurn_iff (calls : List Call) :
    (timesInTurn (calls.map Call.arrival) (calls.map Call.departure)).Pairwise (· ≤ ·) ↔
      Call.Dwelling calls ∧ Call.Advancing calls := by
  let NoLater (a b : Time) : Prop := a ≤ b
  have : Trans NoLater NoLater NoLater := ⟨Time.le_trans⟩
  rw [← isChain_timesInTurn_iff]
  exact (List.isChain_iff_pairwise (R := NoLater)).symm

variable {id : TripId} {arrivals departures : List Time} {t : Trip}

theorem zipWith_calls (calls : List Call) :
    List.zipWith Call.mk (calls.map Call.arrival) (calls.map Call.departure) = calls := by
  simp [List.zipWith_map]

theorem exists_calls (h : arrivals.length = departures.length) :
    ∃ calls : List Call, calls.map Call.arrival = arrivals ∧
      calls.map Call.departure = departures := by
  induction arrivals generalizing departures with
  | nil => exact ⟨[], rfl, (List.length_eq_zero_iff.1 h.symm).symm⟩
  | cons arrival arrivals ih =>
    cases departures with
    | nil => cases h
    | cons departure departures =>
      obtain ⟨calls, rfl, rfl⟩ := ih (Nat.succ.inj h)
      exact ⟨⟨arrival, departure⟩ :: calls, rfl, rfl⟩

/-- The trip that is accepted has the given times, and every trip is accepted from its own. -/
theorem ofTimes_eq_ok_iff :
    ofTimes id arrivals departures = .ok t ↔
      t.id = id ∧ t.calls.map Call.arrival = arrivals ∧
        t.calls.map Call.departure = departures := by
  constructor
  · intro h
    unfold ofTimes at h
    split at h
    · rename_i hlists
      obtain ⟨calls, rfl, rfl⟩ := exists_calls hlists.2
      simp only [zipWith_calls] at h
      split at h
      · split at h
        · cases h
          exact ⟨rfl, rfl, rfl⟩
        · cases h
      · cases h
    · cases h
  · -- the times of a trip pass the three tests, since the trip carries their proofs
    rintro ⟨rfl, rfl, rfl⟩
    have hlists : t.calls.map Call.arrival ≠ [] ∧
        (t.calls.map Call.arrival).length = (t.calls.map Call.departure).length := by
      simp [t.calls_ne_nil]
    rw [ofTimes, dif_pos hlists]
    simp only [zipWith_calls, dif_pos t.dwelling, dif_pos t.advancing]

/-- Two lists of times make a trip exactly if there are times, one departure to each arrival, and
they never decrease when they are taken in turn. -/
theorem exists_ofTimes_iff :
    (∃ t, ofTimes id arrivals departures = .ok t) ↔
      arrivals ≠ [] ∧ arrivals.length = departures.length ∧
        (timesInTurn arrivals departures).Pairwise (· ≤ ·) := by
  constructor
  · rintro ⟨t, h⟩
    obtain ⟨-, rfl, rfl⟩ := ofTimes_eq_ok_iff.1 h
    refine ⟨by simp [t.calls_ne_nil], by simp, ?_⟩
    exact (pairwise_timesInTurn_iff t.calls).2 ⟨t.dwelling, t.advancing⟩
  · rintro ⟨hne, hlength, horder⟩
    obtain ⟨calls, rfl, rfl⟩ := exists_calls hlength
    obtain ⟨hdwelling, hadvancing⟩ := (pairwise_timesInTurn_iff calls).1 horder
    have hcalls : calls ≠ [] := by simpa using hne
    exact ⟨⟨id, calls, hcalls, hdwelling, hadvancing⟩, ofTimes_eq_ok_iff.2 ⟨rfl, rfl, rfl⟩⟩

theorem times_of_ofTimes (h : ofTimes id arrivals departures = .ok t) (i : Nat) :
    t.arrival? i = arrivals[i]? ∧ t.departure? i = departures[i]? := by
  obtain ⟨-, rfl, rfl⟩ := ofTimes_eq_ok_iff.1 h
  simp [arrival?, departure?]

theorem exists_departure_le_arrival (t : Trip) {i j : Nat} (hij : i < j) (hj : j < t.length) :
    ∃ d a, t.departure? i = some d ∧ t.arrival? j = some a ∧ d ≤ a := by
  obtain ⟨d, hd⟩ := t.exists_departure? (Nat.lt_trans hij hj)
  obtain ⟨a, ha⟩ := t.exists_arrival? hj
  exact ⟨d, a, hd, ha, t.departure_le_arrival hij hd ha⟩

end Trip

/-! ## Rides on accepted trips -/

namespace Ridden

/-- A ride leads on: to a later position of its pattern, and not back in time. -/
structure LeadsOn (r : Ridden) : Prop where
  position : r.ride.hop.boardPos < r.ride.hop.alightPos
  time : r.boardTime ≤ r.alightTime

/-- There is a leg for a ride, whatever the rule, exactly if the ride leads on. -/
theorem rideLeg_eq_ok_iff {rule : Option TransferRule} {r : Ridden} {leg : Leg} :
    Placement.rideLeg rule r = .ok leg ↔ leg = r.asLeg rule ∧ r.LeadsOn := by
  have hleg : Placement.rideLeg rule r = .ok leg ↔
      Leg.ride (r.details rule) r.ride.board r.ride.alight r.boardTime r.alightTime = .ok leg :=
    inconsistent_eq_ok_iff
  rw [hleg, Leg.ride_eq_ok_iff, Leg.build_eq_ok_iff]
  constructor
  · rintro ⟨hposition, rfl, hcheck⟩
    exact ⟨rfl, hposition, (Leg.check_eq_ok_iff.1 hcheck).1⟩
  · rintro ⟨rfl, hposition, htime⟩
    exact ⟨hposition, rfl, Leg.check_eq_ok_iff.2 ⟨htime, rfl⟩⟩

theorem LeadsOn.rideLeg_eq {r : Ridden} (h : r.LeadsOn) (rule : Option TransferRule) :
    Placement.rideLeg rule r = .ok (r.asLeg rule) :=
  rideLeg_eq_ok_iff.2 ⟨rfl, h⟩

theorem LeadsOn.between {r : Ridden} (h : r.LeadsOn) (before after : Option TransferRule) :
    (r.between before after).LeadsOn :=
  ⟨h.position, h.time⟩

end Ridden

/-- A ride that was looked up leads on, whichever trip of its pattern is ridden. -/
theorem RecordedRide.Resolved.exists_ofTrip {network : Network} {slack : SlackPolicy}
    {ride : RecordedRide} (h : ride.Resolved network slack) {trip : Trip}
    (htrip : trip ∈ ride.pattern.trips) (slot : TripSlot) :
    ∃ r, Ridden.ofTrip ride slot trip = .ok r ∧ r.LeadsOn := by
  obtain ⟨r, hr⟩ := Ridden.exists_ofTrip_of_mem htrip h.boardPos_lt h.alightPos_lt slot
  obtain ⟨rfl, -, -, hboard, halight⟩ := Ridden.ofTrip_eq_ok_iff.1 hr
  exact ⟨r, hr, h.onwards, trip.departure_le_arrival h.onwards hboard halight⟩

/-- Times are accepted as a trip exactly if there are some, one departure to each arrival, and they
never decrease when they are taken in turn. So from any position of an accepted trip to any later
one, it departs no later than it arrives. A ride that was looked up can therefore be on any trip of
its pattern, at the times of that trip; it is boarded no later than it is left, and has a leg under
any rules around it. -/
theorem accepted_trips_can_be_ridden :
    (∀ (id : TripId) (arrivals departures : List Time),
      (∃ t, Trip.ofTimes id arrivals departures = .ok t) ↔
        arrivals ≠ [] ∧ arrivals.length = departures.length ∧
          (Trip.timesInTurn arrivals departures).Pairwise (· ≤ ·)) ∧
    (∀ (id : TripId) (arrivals departures : List Time) (t : Trip),
      Trip.ofTimes id arrivals departures = .ok t →
        (∀ i, t.arrival? i = arrivals[i]? ∧ t.departure? i = departures[i]?) ∧
        ∀ i j, i < j → j < arrivals.length →
          ∃ d a, t.departure? i = some d ∧ t.arrival? j = some a ∧ d ≤ a) ∧
    ∀ (network : Network) (slack : SlackPolicy) (hop : Hop) (board alight : Stop) (time : Time)
      (ride : RecordedRide),
      RecordedRide.resolve network slack hop board alight time = .ok ride →
        ∀ pattern, network.pattern? hop.trip.pattern = some pattern →
          ∀ trip ∈ pattern.trips, ∀ slot,
            ∃ r, Ridden.ofTrip ride slot trip = .ok r ∧
              (r.ride = ride ∧ r.trip = slot ∧ r.tripId = trip.id) ∧
              trip.departure? hop.boardPos = some r.boardTime ∧
              trip.arrival? hop.alightPos = some r.alightTime ∧ r.boardTime ≤ r.alightTime ∧
              ∀ before after rule, Placement.rideLeg rule (r.between before after) =
                .ok ((r.between before after).asLeg rule) := by
  refine ⟨fun _ _ _ => Trip.exists_ofTimes_iff, ?_, ?_⟩
  · intro id arrivals departures t h
    refine ⟨Trip.times_of_ofTimes h, fun i j hij hj => ?_⟩
    obtain ⟨-, rfl, -⟩ := Trip.ofTimes_eq_ok_iff.1 h
    rw [List.length_map] at hj
    exact t.exists_departure_le_arrival hij hj
  · intro network slack hop board alight time ride h pattern hpattern trip htrip slot
    obtain ⟨hstep, hresolved⟩ := RecordedRide.resolved_of_resolve h
    obtain ⟨rfl, -, -, -⟩ := RecordedStep.ride.inj hstep
    obtain rfl := Option.some.inj (hresolved.pattern.symm.trans hpattern)
    obtain ⟨r, hr, hleads⟩ := hresolved.exists_ofTrip htrip slot
    obtain ⟨hride, hslot, hid, hboard, halight⟩ := Ridden.ofTrip_eq_ok_iff.1 hr
    refine ⟨r, hr, ⟨hride, hslot, hid⟩, hboard, halight, hleads.time, fun before after rule => ?_⟩
    exact (hleads.between before after).rideLeg_eq rule

/-- When the local train arrives at its three stops. -/
def localArrivals : List Time := [.ofHms 8 0 0, .ofHms 8 10 0, .ofHms 8 25 0]

/-- When it departs. It stays at the first two stops. -/
def localDepartures : List Time := [.ofHms 8 1 0, .ofHms 8 15 0, .ofHms 8 25 0]

/-- The local train. -/
def localTrain : Trip :=
  { id := ⟨"local"⟩
    calls := List.zipWith Call.mk localArrivals localDepartures
    calls_ne_nil := by decide
    dwelling := by decide
    advancing := by decide }

/-- The stops of the local train. -/
def localPattern : Pattern :=
  { stops := [⟨1⟩, ⟨2⟩, ⟨3⟩]
    trips := [localTrain]
    two_le_stops := by decide
    length_eq := by decide }

/-- The local train is accepted, and can be ridden from its first stop to its last. -/
theorem accepted_trips_can_be_ridden_local :
    Trip.ofTimes ⟨"local"⟩ localArrivals localDepartures = .ok localTrain ∧
      (∃ d a, localTrain.departure? 0 = some d ∧ localTrain.arrival? 2 = some a ∧ d ≤ a) ∧
      ∃ ride, RecordedRide.resolve (Network.ofPatterns [localPattern]) UniformSlack.zero.policy
          ⟨⟨⟨0⟩, 0⟩, 0, 2⟩ ⟨1⟩ ⟨3⟩ (.ofHms 8 30 0) = .ok ride ∧
        ∃ r, Ridden.ofTrip ride ⟨⟨0⟩, 0⟩ localTrain = .ok r ∧ r.tripId = ⟨"local"⟩ ∧
          r.boardTime = .ofHms 8 1 0 ∧ r.alightTime = .ofHms 8 25 0 ∧
          r.boardTime ≤ r.alightTime ∧ Placement.rideLeg none r = .ok (r.asLeg none) := by
  obtain ⟨-, hordered, hridden⟩ := accepted_trips_can_be_ridden
  have haccepted : Trip.ofTimes ⟨"local"⟩ localArrivals localDepartures = .ok localTrain := rfl
  obtain ⟨-, horder⟩ := hordered _ _ _ _ haccepted
  obtain ⟨ride, hride⟩ : ∃ ride, RecordedRide.resolve (Network.ofPatterns [localPattern])
      UniformSlack.zero.policy ⟨⟨⟨0⟩, 0⟩, 0, 2⟩ ⟨1⟩ ⟨3⟩ (.ofHms 8 30 0) = .ok ride := ⟨_, rfl⟩
  have hmem : localTrain ∈ localPattern.trips := List.mem_singleton.2 rfl
  obtain ⟨r, hr, ⟨-, -, hid⟩, hboard, halight, htimes, hleg⟩ :=
    hridden _ _ _ _ _ _ _ hride localPattern rfl _ hmem ⟨⟨0⟩, 0⟩
  exact ⟨haccepted, horder 0 2 (by decide) (by decide), ride, hride, r, hr, hid,
    (Option.some.inj hboard).symm, (Option.some.inj halight).symm, htimes, hleg none none none⟩

/-! ## Legs of a whole run -/

/-- A failure that is no fault of a ride: the arrival is unusable, or one of these walks ends before
it starts. -/
def RebuildError.SparesRides (walks : List Span) : RebuildError → Prop
  | .unusable _ => True
  | .inconsistent e => ∃ walk ∈ walks, ∃ start finish, e = .negativeDuration start finish ∧
      finish.seconds = start.seconds + walk.wholeSeconds ∧ finish < start

namespace Placement

variable {walks : List Span}

theorem gives_time {x : Except ReconstructionError Time} {seconds : Int}
    (h : ∀ t, x = .ok t → t.seconds = seconds) :
    Gives (RebuildError.SparesRides walks) (fun t => t.seconds = seconds) (unusable x) := by
  cases x with
  | ok t => exact h t rfl
  | error e => trivial

/-- The leg of a walk only fails because the walk takes less than no time. -/
theorem gives_walk {kind : LegKind} {fromPlace toPlace : Place} {start finish : Time} {walk : Span}
    (hwalk : walk ∈ walks) (hjoins : kind.joins fromPlace toPlace = true)
    (htime : finish.seconds = start.seconds + walk.wholeSeconds) :
    Gives (RebuildError.SparesRides walks) (fun _ => True)
      (inconsistent (Leg.build kind fromPlace toPlace start finish)) := by
  by_cases hback : finish < start
  · have hbuild : Leg.build kind fromPlace toPlace start finish =
        .error (.negativeDuration start finish) := by
      rw [Leg.build, Leg.check, if_pos hback]
      rfl
    rw [hbuild]
    exact ⟨walk, hwalk, start, finish, rfl, htime, hback⟩
  · exact (Leg.gives_build (Time.not_lt.1 hback) hjoins).imp fun _ _ => trivial

theorem accessLeg_sparesRides {access : StreetWalk} (haccess : access.duration ∈ walks)
    (r : Ridden) :
    Gives (RebuildError.SparesRides walks) (fun _ => True) (accessLeg access r) := by
  refine (gives_time fun _ => Time.seconds_of_earlier).bind fun finish _ => ?_
  refine (gives_time fun _ => Time.seconds_of_earlier).bind fun start hstart => ?_
  refine gives_walk haccess rfl ?_
  omega

theorem egressLeg_sparesRides {egress : StreetWalk} (hegress : egress.duration ∈ walks)
    (r : Ridden) :
    Gives (RebuildError.SparesRides walks) (fun _ => True) (egressLeg egress r) := by
  refine (gives_time fun _ => Time.seconds_of_later).bind fun start _ => ?_
  refine (gives_time fun _ => Time.seconds_of_later).bind fun finish hfinish => ?_
  exact gives_walk hegress rfl hfinish

theorem transferLegs_sparesRides {change : Change} (hwalk : ∀ d ∈ change.walk, d ∈ walks)
    (a b : Ridden) :
    Gives (RebuildError.SparesRides walks) (fun _ => True) (transferLegs a change b) := by
  unfold transferLegs
  split
  · trivial
  · rename_i d hd
    refine (gives_time fun _ => Time.seconds_of_later).bind fun start _ => ?_
    refine (gives_time fun _ => Time.seconds_of_later).bind fun finish hfinish => ?_
    exact (gives_walk (hwalk d hd) rfl hfinish).bind fun _ _ => trivial

theorem legsFrom_sparesRides {egress : StreetWalk} (hegress : egress.duration ∈ walks)
    {r : Ridden} {rest : List (Change × Ridden)}
    (hrides : ∀ x ∈ (⟨r, rest⟩ : Linked Change Ridden).toList, x.LeadsOn)
    (hwalks : ∀ p ∈ rest, ∀ d ∈ p.1.walk, d ∈ walks) (rule : Option TransferRule) :
    Gives (RebuildError.SparesRides walks) (fun _ => True) (legsFrom egress rule r rest) := by
  induction rest generalizing r rule with
  | nil =>
    rw [legsFrom, (hrides r (Linked.first_mem_toList _)).rideLeg_eq, ok_bind]
    exact (egressLeg_sparesRides hegress r).bind fun _ _ => trivial
  | cons p rest ih =>
    obtain ⟨change, next⟩ := p
    obtain ⟨hr, hrest⟩ := List.forall_mem_cons.1 hrides
    obtain ⟨hchange, hbehind⟩ := List.forall_mem_cons.1 hwalks
    rw [legsFrom, hr.rideLeg_eq, ok_bind]
    refine (transferLegs_sparesRides hchange r next).bind fun walk _ => ?_
    exact (ih hrest hbehind change.rule).bind fun _ _ => trivial

/-- If all rides lead on, no leg of a ride fails. -/
theorem legs_sparesRides {access egress : StreetWalk} {rides : Linked Change Ridden}
    (hrides : ∀ r ∈ rides.toList, r.LeadsOn) :
    Gives (RebuildError.SparesRides
        (access.duration :: egress.duration :: rides.links.filterMap Change.walk))
      (fun _ => True) (legs access egress rides) := by
  refine (accessLeg_sparesRides (by simp) rides.first).bind fun _ _ => ?_
  refine (legsFrom_sparesRides (by simp) hrides ?_ none).bind fun _ _ => trivial
  intro p hp d hd
  have hlink : p.1 ∈ rides.links := List.mem_map_of_mem hp
  have hmem : d ∈ rides.links.filterMap Change.walk := List.mem_filterMap.2 ⟨p.1, hlink, hd⟩
  exact List.mem_cons_of_mem _ (List.mem_cons_of_mem _ hmem)

end Placement

namespace Reconstruction

variable {c : Reconstruction} {table : Arrivals} {arrival : FinalArrival}
  {recorded : RecordedJourney} {ridden : Linked (Option Span) Ridden}
  {settled : Linked Change Ridden}

/-- However trips are chosen and rules settled, all rides lead on. -/
theorem Steps.leadsOn (h : c.Steps table arrival recorded ridden settled) :
    ∀ r ∈ settled.toList, r.LeadsOn := by
  obtain ⟨rfl, -, -⟩ := Change.ofRides_eq_ok_iff.1 h.settles
  refine Change.forall_settled (fun r hr before after => ?_) c.rules none
  have hresolved := h.assigns.resolved h.sound hr
  have htimes := (h.assigns.onTrip r hr).boardTime_le_alightTime hresolved.onwards
  have hleads : r.LeadsOn := ⟨hresolved.onwards, htimes⟩
  exact hleads.between before after

/-- Whatever the table holds and whether trips are searched for or trusted, once the rides are there
each of them has its leg. If the legs still contradict themselves, a walk of the recorded journey
takes less than no time and its leg runs back. -/
theorem legs_fail_only_by_walks (h : c.rides table arrival = .ok (recorded, settled)) :
    (∀ r ∈ settled.toList, ∀ rule, Placement.rideLeg rule r = .ok (r.asLeg rule)) ∧
      ∀ e, Placement.legs recorded.access recorded.egress settled = .error (.inconsistent e) →
        ∃ start finish, e = .negativeDuration start finish ∧
          ∃ walk : Span, (walk = recorded.access.duration ∨ walk = recorded.egress.duration ∨
            some walk ∈ recorded.rides.links) ∧ walk.wholeSeconds < 0 ∧
            finish.seconds = start.seconds + walk.wholeSeconds := by
  obtain ⟨ridden, hsteps⟩ := rides_eq_ok_iff.1 h
  have hleads := hsteps.leadsOn
  refine ⟨fun r hr rule => (hleads r hr).rideLeg_eq rule, fun e he => ?_⟩
  -- settling keeps the walks that were recorded between the rides
  have hlinks : settled.links.map Change.walk = recorded.rides.links := by
    obtain ⟨rfl, -, -⟩ := Change.ofRides_eq_ok_iff.1 hsteps.settles
    have hmap := Change.map_settled Ridden.trip (fun _ _ _ => rfl) c.rules none ridden.first
      ridden.rest
    rw [← hsteps.assigns.links, ← Linked.links_map Change.walk Ridden.trip, hmap,
      Linked.links_map, List.map_id]
  obtain ⟨walk, hwalk, start, finish, rfl, htime, hback⟩ :=
    (Placement.legs_sparesRides hleads).allows he
  rw [Time.lt_iff] at hback
  refine ⟨start, finish, rfl, walk, ?_, by omega, htime⟩
  rw [← hlinks]
  simpa [List.mem_map] using hwalk

end Reconstruction

end Journeys
