import Journeys.Proofs.BackPointers
import Journeys.Proofs.Itinerary

/-!
# Proofs: trusting the trips that were found

A reconstruction may search for the trips of a journey or trust those that were recorded. If the
trips that a search found are written into the records of the chain, there is nothing left to search
for: read back with trust, the chain gives the same rides on the same trips, and so the same
journey. Rules and times are checked again on the way, and the legs are placed by the same code.

Slack is looked up with the recorded trip in both cases. So it has to be the same for all trips of a
pattern, or the two would place different walks.
-/

namespace Journeys

theorem Direction.travelOrder_travelOrder {α : Type} (direction : Direction) (l : List α) :
    direction.travelOrder (direction.travelOrder l) = l := by
  cases direction with
  | forward => exact List.reverse_reverse l
  | reverse => rfl

/-- The slack at a stop is the same for all trips of a pattern. -/
def SlackPolicy.ByPattern (slack : SlackPolicy) : Prop :=
  ∀ (stop : Stop) (a b : TripSlot), a.pattern = b.pattern →
    slack.board stop a = slack.board stop b ∧ slack.alight stop a = slack.alight stop b

/-! ## Other trips in a table -/

/-- The hop on another trip of its pattern. -/
def Hop.onTrip (hop : Hop) (trip : Nat) : Hop := { hop with trip := { hop.trip with trip } }

/-- The approach on another trip, if it is a ride and a trip is given. -/
def Approach.onTrip : Approach → Option Nat → Approach
  | .ride previous hop, some trip => .ride previous (hop.onTrip trip)
  | approach, _ => approach

/-- The record with its approach on another trip. -/
def ArrivalRecord.onTrip (record : ArrivalRecord) (trip : Option Nat) : ArrivalRecord :=
  { record with approach := record.approach.onTrip trip }

namespace Arrivals

/-- The table with other trips in some of its records. -/
def onTrips (table : Arrivals) (trip? : RecordId → Option Nat) : Arrivals :=
  ⟨table.records.mapIdx fun i record => record.onTrip (trip? ⟨i⟩)⟩

/-- The records of rides that back-pointers lead to from a record on, itself included, at most
`fuel` records back. -/
def ridesBack (table : Arrivals) : Nat → RecordId → List RecordId
  | 0, _ => []
  | fuel + 1, id =>
    match (table.get? id).map ArrivalRecord.approach with
    | some (.ride previous _) => id :: table.ridesBack fuel previous
    | some (.walk previous _) => table.ridesBack fuel previous
    | some (.access _) => []
    | none => []

/-- The table with these trips, given in order of travel, in the records of the rides behind an
arrival. -/
def withTrips (table : Arrivals) (direction : Direction) (arrival : FinalArrival)
    (trips : List Nat) : Arrivals :=
  let rides := table.ridesBack (table.size + 1) arrival.previous
  table.onTrips fun id => (direction.travelOrder trips)[rides.idxOf id]?

theorem get?_onTrips (table : Arrivals) (trip? : RecordId → Option Nat) (id : RecordId) :
    (table.onTrips trip?).get? id = (table.get? id).map fun record => record.onTrip (trip? id) := by
  simp [get?, onTrips]

theorem get?_onTrips_eq_some {table : Arrivals} {id : RecordId} {record : ArrivalRecord}
    (h : table.get? id = some record) (trip? : RecordId → Option Nat) :
    (table.onTrips trip?).get? id = some (record.onTrip (trip? id)) := by
  rw [get?_onTrips, h, Option.map_some]

theorem size_onTrips (table : Arrivals) (trip? : RecordId → Option Nat) :
    (table.onTrips trip?).size = table.size := by
  simp [size, onTrips]

section RidesBack

variable {table : Arrivals} {id previous : RecordId} {record : ArrivalRecord}

theorem ridesBack_of_access {walk : StreetWalk} (hid : table.get? id = some record)
    (happroach : record.approach = .access walk) (fuel : Nat) :
    table.ridesBack (fuel + 1) id = [] := by
  rw [ridesBack, hid, Option.map_some, happroach]

theorem ridesBack_of_ride {hop : Hop} (hid : table.get? id = some record)
    (happroach : record.approach = .ride previous hop) (fuel : Nat) :
    table.ridesBack (fuel + 1) id = id :: table.ridesBack fuel previous := by
  rw [ridesBack, hid, Option.map_some, happroach]

theorem ridesBack_of_walk {duration : Span} (hid : table.get? id = some record)
    (happroach : record.approach = .walk previous duration) (fuel : Nat) :
    table.ridesBack (fuel + 1) id = table.ridesBack fuel previous := by
  rw [ridesBack, hid, Option.map_some, happroach]

end RidesBack

end Arrivals

/-! ## Other trips along a trail -/

/-- The second steps are the first ones with these trips in their rides. -/
inductive StepsOnTrips : List Nat → List RecordedStep → List RecordedStep → Prop
  | nil : StepsOnTrips [] [] []
  | ride {trip : Nat} {trips : List Nat} {hop : Hop} {board alight : Stop} {time : Time}
      {steps steps' : List RecordedStep} (h : StepsOnTrips trips steps steps') :
      StepsOnTrips (trip :: trips) (.ride hop board alight time :: steps)
        (.ride (hop.onTrip trip) board alight time :: steps')
  | walk {trips : List Nat} {duration : Span} {steps steps' : List RecordedStep}
      (h : StepsOnTrips trips steps steps') :
      StepsOnTrips trips (.walk duration :: steps) (.walk duration :: steps')

namespace StepsOnTrips

variable {trips more : List Nat} {steps steps' next next' : List RecordedStep}

theorem length_eq (h : StepsOnTrips trips steps steps') : steps'.length = steps.length := by
  induction h with
  | nil => rfl
  | ride _ ih => rw [List.length_cons, List.length_cons, ih]
  | walk _ ih => rw [List.length_cons, List.length_cons, ih]

theorem append (h : StepsOnTrips trips steps steps') (hnext : StepsOnTrips more next next') :
    StepsOnTrips (trips ++ more) (steps ++ next) (steps' ++ next') := by
  induction h with
  | nil => exact hnext
  | ride _ ih => exact .ride ih
  | walk _ ih => exact .walk ih

theorem reverse (h : StepsOnTrips trips steps steps') :
    StepsOnTrips trips.reverse steps.reverse steps'.reverse := by
  induction h with
  | nil => exact .nil
  | ride _ ih =>
    simp only [List.reverse_cons]
    exact ih.append (.ride .nil)
  | @walk _ duration _ _ _ ih =>
    have hwalk : StepsOnTrips [] [.walk duration] [.walk duration] := .walk .nil
    have happend := ih.append hwalk
    simp only [List.reverse_cons]
    rwa [List.append_nil] at happend

theorem travelOrder (h : StepsOnTrips trips steps steps') (direction : Direction) :
    StepsOnTrips (direction.travelOrder trips) (direction.travelOrder steps)
      (direction.travelOrder steps') := by
  cases direction with
  | forward => exact h.reverse
  | reverse => exact h

theorem unique (h : StepsOnTrips trips steps steps') (h' : StepsOnTrips trips steps next) :
    steps' = next := by
  induction h generalizing next with
  | nil => cases h'; rfl
  | ride _ ih =>
    cases h' with
    | ride h' => rw [ih h']
  | walk _ ih =>
    cases h' with
    | walk h' => rw [ih h']

end StepsOnTrips

namespace Trail

variable {table : Arrivals} {direction : Direction} {record : ArrivalRecord} {trail : Trail}
  {id : RecordId} {fuel : Nat}

/-- The rides behind a record are as many as its round says, in records of different rounds. -/
theorem Followed.ridesBack (h : Followed table direction record trail)
    (hid : table.get? id = some record) (hfuel : trail.steps.length < fuel) :
    (table.ridesBack fuel id).length = record.round ∧ (table.ridesBack fuel id).Nodup ∧
      ∀ i ∈ table.ridesBack fuel id, ∃ r, table.get? i = some r ∧ r.round ≤ record.round := by
  induction h generalizing id fuel with
  | access happroach _ hround =>
    obtain ⟨fuel, rfl⟩ := Nat.exists_eq_succ_of_ne_zero (Nat.ne_zero_of_lt hfuel)
    rw [Arrivals.ridesBack_of_access hid happroach, hround]
    exact ⟨rfl, .nil, List.forall_mem_nil _⟩
  | @ride record before previous hop trail happroach hbefore hround _ ih =>
    obtain ⟨fuel, rfl⟩ := Nat.exists_eq_succ_of_ne_zero (Nat.ne_zero_of_lt hfuel)
    obtain ⟨hcount, hnodup, hrounds⟩ := ih hbefore (Nat.lt_of_succ_lt_succ hfuel)
    -- the records behind this one are of earlier rounds, so it is not among them
    have hnew : id ∉ table.ridesBack fuel previous := by
      intro hmem
      obtain ⟨r, hr, hle⟩ := hrounds id hmem
      obtain rfl := Option.some.inj (hid.symm.trans hr)
      omega
    rw [Arrivals.ridesBack_of_ride hid happroach]
    refine ⟨?_, List.nodup_cons.2 ⟨hnew, hnodup⟩, List.forall_mem_cons.2 ⟨?_, fun i hi => ?_⟩⟩
    · rw [List.length_cons, hcount, hround]
    · exact ⟨record, hid, Nat.le_refl _⟩
    · obtain ⟨r, hr, hle⟩ := hrounds i hi
      exact ⟨r, hr, by omega⟩
  | walk happroach hbefore hround _ ih =>
    obtain ⟨fuel, rfl⟩ := Nat.exists_eq_succ_of_ne_zero (Nat.ne_zero_of_lt hfuel)
    rw [Arrivals.ridesBack_of_walk hid happroach, hround]
    exact ih hbefore (Nat.lt_of_succ_lt_succ hfuel)

/-- A ride on another trip runs between the same stops at the same recorded time. -/
theorem exists_recordedRide_onTrip (direction : Direction) (hop : Hop)
    (before record : ArrivalRecord) (trip : Nat) (trip₁ trip₂ : Option Nat) :
    ∃ board alight time, recordedRide direction hop before record = .ride hop board alight time ∧
      recordedRide direction (hop.onTrip trip) (before.onTrip trip₁) (record.onTrip trip₂) =
        .ride (hop.onTrip trip) board alight time := by
  cases direction with
  | forward => exact ⟨_, _, _, rfl, rfl⟩
  | reverse => exact ⟨_, _, _, rfl, rfl⟩

/-- With other trips in the records of its rides, a chain is followed to the same end, over the same
steps on those trips. -/
theorem Followed.onTrips (h : Followed table direction record trail)
    {trip? : RecordId → Option Nat} (hid : table.get? id = some record)
    (hfuel : trail.steps.length < fuel) {trips : List Nat} (hcount : trips.length = record.round)
    (htrips : ∀ p ∈ (table.ridesBack fuel id).zip trips, trip? p.1 = some p.2) :
    ∃ steps, StepsOnTrips trips trail.steps steps ∧
      Followed (table.onTrips trip?) direction (record.onTrip (trip? id)) { trail with steps } := by
  induction h generalizing id fuel trips with
  | @access record walk happroach hstop hround =>
    rw [hround, List.length_eq_zero_iff] at hcount
    rw [hcount]
    refine ⟨[], .nil, .access ?_ hstop hround⟩
    rw [ArrivalRecord.onTrip, happroach]
    rfl
  | @ride record before previous hop trail happroach hbefore hround _ ih =>
    obtain ⟨fuel, rfl⟩ := Nat.exists_eq_succ_of_ne_zero (Nat.ne_zero_of_lt hfuel)
    cases trips with
    | nil =>
      rw [List.length_nil] at hcount
      omega
    | cons trip trips =>
      rw [Arrivals.ridesBack_of_ride hid happroach, List.zip_cons_cons,
        List.forall_mem_cons] at htrips
      obtain ⟨htrip, hbehind⟩ := htrips
      have htrip : trip? id = some trip := htrip
      rw [List.length_cons, hround] at hcount
      obtain ⟨steps, hsteps, hfollowed⟩ :=
        ih hbefore (Nat.lt_of_succ_lt_succ hfuel) (Nat.succ.inj hcount) hbehind
      have hgoes : (record.onTrip (trip? id)).approach = .ride previous (hop.onTrip trip) := by
        rw [ArrivalRecord.onTrip, happroach, htrip]
        rfl
      have hnext := Followed.ride hgoes (Arrivals.get?_onTrips_eq_some hbefore trip?) hround
        hfollowed
      obtain ⟨board, alight, time, hstep, hstep'⟩ := exists_recordedRide_onTrip direction hop before
        record trip (trip? previous) (trip? id)
      refine ⟨_, ?_, hnext⟩
      rw [hstep, hstep']
      exact .ride hsteps
  | @walk record before previous duration trail happroach hbefore hround _ ih =>
    obtain ⟨fuel, rfl⟩ := Nat.exists_eq_succ_of_ne_zero (Nat.ne_zero_of_lt hfuel)
    rw [Arrivals.ridesBack_of_walk hid happroach] at htrips
    obtain ⟨steps, hsteps, hfollowed⟩ :=
      ih hbefore (Nat.lt_of_succ_lt_succ hfuel) (hcount.trans hround) htrips
    have hgoes : (record.onTrip (trip? id)).approach = .walk previous duration := by
      rw [ArrivalRecord.onTrip, happroach]
      rfl
    have hnext := Followed.walk hgoes (Arrivals.get?_onTrips_eq_some hbefore trip?) hround hfollowed
    exact ⟨_, .walk hsteps, hnext⟩

/-- The trail behind an arrival, on other trips. -/
theorem exists_ofArrival_withTrips {arrival : FinalArrival}
    (h : ofArrival table direction arrival = .ok trail) {trips : List Nat}
    (hcount : trips.length = arrival.round) :
    ∃ steps, StepsOnTrips (direction.travelOrder trips) trail.steps steps ∧
      ofArrival (table.withTrips direction arrival trips) direction arrival =
        .ok { trail with steps } := by
  obtain ⟨record, hrecord, hstop, hround, hfollowed, hlength⟩ := ofArrival_eq_ok_iff.1 h
  have hfuel := Nat.lt_succ_of_le hlength
  obtain ⟨-, hnodup, -⟩ := hfollowed.ridesBack hrecord hfuel
  have hcount' : (direction.travelOrder trips).length = record.round := by
    rw [hround, ← hcount]
    cases direction with
    | forward => exact List.length_reverse
    | reverse => rfl
  let rides := table.ridesBack (table.size + 1) arrival.previous
  let trip? : RecordId → Option Nat := fun id => (direction.travelOrder trips)[rides.idxOf id]?
  have htrips : ∀ p ∈ rides.zip (direction.travelOrder trips), trip? p.1 = some p.2 := by
    intro p hp
    obtain ⟨i, hi, rfl⟩ := List.getElem_of_mem hp
    rw [List.length_zip] at hi
    rw [List.getElem_zip]
    show (direction.travelOrder trips)[rides.idxOf rides[i]]? = _
    rw [hnodup.idxOf_getElem, List.getElem?_eq_getElem]
  obtain ⟨steps, hsteps, hfollowed'⟩ := hfollowed.onTrips hrecord hfuel hcount' htrips
  refine ⟨steps, hsteps, ofArrival_eq_ok_iff.2
    ⟨record.onTrip (trip? arrival.previous), ?_, hstop, hround, hfollowed', ?_⟩⟩
  · exact Arrivals.get?_onTrips_eq_some hrecord trip?
  · rw [Arrivals.withTrips, Arrivals.size_onTrips, hsteps.length_eq]
    exact hlength

end Trail

/-! ## Rides on recorded trips -/

/-- The same ride, as if its trip had been recorded. -/
def Ridden.trusted (r : Ridden) : Ridden :=
  { r with
    ride :=
      { r.ride with
        hop := r.ride.hop.onTrip r.trip.trip
        recorded := (r.ride.pattern.trip? r.trip.trip).getD r.ride.recorded } }

namespace Ridden

theorem unseen_trusted : Unseen trusted := by
  constructor <;> exact fun _ => rfl

theorem recorded_trusted {r : Ridden} {trip : Trip}
    (h : r.ride.pattern.trip? r.trip.trip = some trip) : r.trusted.ride.recorded = trip := by
  show (r.ride.pattern.trip? r.trip.trip).getD r.ride.recorded = trip
  rw [h, Option.getD_some]

theorem OnTrip.trip_trusted {r : Ridden} (h : r.OnTrip) : r.trusted.ride.hop.trip = r.trip := by
  show (⟨r.ride.hop.trip.pattern, r.trip.trip⟩ : TripSlot) = r.trip
  rw [← h.pattern]

/-- The timetable and the network say the same about a ride on the trip that was found. -/
theorem OnTrip.resolved_trusted {network : Network} {slack : SlackPolicy} {r : Ridden}
    (h : r.OnTrip) (hslack : slack.ByPattern) (hride : r.ride.Resolved network slack) :
    r.trusted.ride.Resolved network slack := by
  obtain ⟨trip, htrip, -, -, -⟩ := h.times
  have hpattern : r.trusted.ride.hop.trip.pattern = r.ride.hop.trip.pattern := rfl
  refine ⟨hride.onwards, hride.pattern, hride.board, hride.alight, ?_, ?_, ?_⟩
  · rw [recorded_trusted htrip]
    exact htrip
  · rw [(hslack _ _ _ hpattern).1]
    exact hride.boardSlack
  · rw [(hslack _ _ _ hpattern).2]
    exact hride.alightSlack

/-- A ride on a trip of its pattern is ridden on that trip once it is recorded. -/
theorem OnTrip.choose_trusted {c : TripChoice} (hc : c.approximate = true) {r : Ridden}
    (h : r.OnTrip) (neighbour : Option Neighbour) :
    c.choose r.trusted.ride neighbour = .ok r.trusted := by
  obtain ⟨trip, htrip, hid, hboard, halight⟩ := h.times
  rw [TripChoice.choose, if_pos hc, recorded_trusted htrip]
  exact ofTrip_eq_ok_iff.2 ⟨rfl, h.trip_trusted.symm, hid, hboard, halight⟩

end Ridden

namespace RecordedJourney

variable {network : Network} {slack : SlackPolicy} {direction : Direction} {table : Arrivals}
  {arrival : FinalArrival} {recorded : RecordedJourney} {ridden : Linked (Option Span) Ridden}

theorem stepsOnTrips_trusted (ridden : Linked (Option Span) Ridden) :
    StepsOnTrips (ridden.toList.map fun r => r.trip.trip) (steps (ridden.map id Ridden.ride))
      (steps ((ridden.map id Ridden.trusted).map id Ridden.ride)) := by
  induction ridden using Linked.induction with
  | single r => exact .ride .nil
  | cons r walk ridden ih =>
    rw [Linked.map_cons, Linked.map_cons, Linked.map_cons, steps_cons, steps_cons]
    cases walk with
    | none => exact .ride ih
    | some duration => exact .ride (.walk ih)

/-- A trail that spells the steps of rides in the timetable is read as these rides. -/
theorem ofTrail_of_steps {egress : StreetWalk} {trail : Trail}
    {rides : Linked (Option Span) RecordedRide}
    (hsteps : direction.travelOrder trail.steps = steps rides)
    (hresolved : ∀ r ∈ rides.toList, r.Resolved network slack) :
    ofTrail network slack direction egress trail =
      .ok { access := (direction.streetWalks trail.start egress).1
            egress := (direction.streetWalks trail.start egress).2
            anchor := trail.anchor
            rides } := by
  have hread : readRides (RecordedRide.resolve network slack) (steps rides) = .ok rides :=
    readRides_steps fun r hr => (hresolved r hr).resolve_eq
  rw [← hsteps] at hread
  cases direction with
  | forward =>
    have hread : readRides (RecordedRide.resolve network slack) trail.steps.reverse = .ok rides :=
      hread
    rw [ofTrail, hread]
    rfl
  | reverse =>
    have hread : readRides (RecordedRide.resolve network slack) trail.steps = .ok rides := hread
    rw [ofTrail, hread]
    rfl

/-- With the trips of its rides in the table, a journey is read as before, but for those trips. -/
theorem ofArrival_withTrips (hslack : slack.ByPattern)
    (hfound : ofArrival network slack direction table arrival = .ok recorded)
    (hassigns : recorded.Assigns ridden) :
    ofArrival network slack direction
        (table.withTrips direction arrival (ridden.toList.map fun r => r.trip.trip)) arrival =
      .ok { recorded with rides := (ridden.map id Ridden.trusted).map id Ridden.ride } := by
  obtain ⟨-, -, -, -, -, -, hlength⟩ := exists_followed_of_ofArrival hfound
  obtain ⟨trail, htrail, hfound⟩ := bind_eq_ok_iff.1 hfound
  obtain ⟨read, hread, hfound⟩ := bind_eq_ok_iff.1 hfound
  split at hfound
  · obtain rfl := pure_eq_ok_iff.1 hfound
    have hreads := reads_of_ofTrail hread
    have hcount : (ridden.toList.map fun r => r.trip.trip).length = arrival.round := by
      rw [List.length_map, Linked.length_toList, ← hlength, ← hassigns.rides]
      simp [Linked.length, Linked.map]
    obtain ⟨steps', hsteps', htrail'⟩ := Trail.exists_ofArrival_withTrips htrail hcount
    have hsteps : direction.travelOrder steps' =
        steps ((ridden.map id Ridden.trusted).map id Ridden.ride) := by
      have hfound := hsteps'.travelOrder direction
      have htravelled : direction.travelOrder trail.steps = steps (ridden.map id Ridden.ride) := by
        rw [hassigns.rides, hreads.steps, Trail.travelled_eq]
      rw [direction.travelOrder_travelOrder, htravelled] at hfound
      exact hfound.unique (stepsOnTrips_trusted ridden)
    have hresolved : ∀ r ∈ ((ridden.map id Ridden.trusted).map id Ridden.ride).toList,
        r.Resolved network slack := by
      rw [Linked.toList_map, Linked.toList_map, List.map_map, List.forall_mem_map]
      intro r hr
      refine (hassigns.onTrip r hr).resolved_trusted hslack (hreads.resolved _ ?_)
      rw [← hassigns.rides, Linked.toList_map]
      exact List.mem_map_of_mem hr
    obtain ⟨haccess, hegress⟩ := hreads.streetWalks
    rw [ofArrival_eq_ofTrail htrail', ofTrail_of_steps hsteps hresolved, haccess, hegress,
      hreads.anchor]
  · cases hfound

end RecordedJourney

/-! ## The same journey -/

namespace Reconstruction

variable {c : Reconstruction} {table : Arrivals} {arrival : FinalArrival} {j : Journey}

/-- A journey whose trips were searched for is found again by trusting them, once they stand in the
records of its rides: the same journey to the last leg, time, rule and cost. -/
theorem journey_withTrips (hslack : c.slack.ByPattern)
    (h : ({ c with approximate := false } : Reconstruction).journey table arrival = .ok j) :
    ({ c with approximate := true } : Reconstruction).journey
      (table.withTrips c.direction arrival (j.trips.map TripSlot.trip)) arrival = .ok j := by
  obtain ⟨recorded, ridden, hfound, hassigns, hassemble, htrips⟩ := exists_assemble_of_journey h
  have hnumbers : j.trips.map TripSlot.trip = ridden.toList.map fun r => r.trip.trip := by
    rw [htrips, List.map_map]
    rfl
  have hfound' := RecordedJourney.ofArrival_withTrips hslack hfound hassigns
  -- with trust, every ride has its trip whatever the rides beside it
  have hchosen : (({ c with approximate := true } : Reconstruction).choice
      recorded.anchor).chooseAll ((ridden.map id Ridden.trusted).map id Ridden.ride) =
        .ok (ridden.map id Ridden.trusted) := by
    refine TripChoice.chooseAll_eq_ok_iff.2 ⟨rfl, .of_forall ?_⟩
    rw [Linked.toList_map, List.forall_mem_map]
    intro r hr neighbour
    exact (hassigns.onTrip r hr).choose_trusted rfl neighbour
  rw [journey_eq, hnumbers]
  refine bind_eq_ok_iff.2 ⟨_, unusable_eq_ok_iff.2 hfound', ?_⟩
  refine bind_eq_ok_iff.2 ⟨_, unusable_eq_ok_iff.2 hchosen, ?_⟩
  exact (assemble_map Ridden.unseen_trusted _ _ ridden).trans hassemble

/-- Trusting the early connection leads nowhere, as it leaves before the feeder arrives. Trusting
the late one, which the search finds, gives the journey of the search. -/
theorem journey_withTrips_feeder :
    let c := feederSearch TransferRules.unconstrained false
    let found := feederTable.withTrips c.direction feederArrival [0, 1]
    c.slack.ByPattern ∧ found.get? ⟨2⟩ ≠ feederTable.get? ⟨2⟩ ∧
      (∀ j, ({ c with approximate := true } : Reconstruction).journey feederTable
        feederArrival ≠ .ok j) ∧
      ∃ j, ({ c with approximate := false } : Reconstruction).journey feederTable feederArrival =
          .ok j ∧
        ({ c with approximate := true } : Reconstruction).journey found feederArrival = .ok j := by
  intro c found
  have hslack : c.slack.ByPattern := fun _ _ _ _ => ⟨rfl, rfl⟩
  have htrips : (Journey.trips <$> ({ c with approximate := false } : Reconstruction).journey
      feederTable feederArrival) = .ok [⟨⟨0⟩, 0⟩, ⟨⟨1⟩, 1⟩] := rfl
  have hrecorded : (Journey.trips <$> ({ c with approximate := true } : Reconstruction).journey
      feederTable feederArrival) =
        .error (.inconsistent (.overlapping (.ofHms 8 10 0) (.ofHms 8 5 0))) := rfl
  obtain ⟨j, hj, hnumbers⟩ := map_eq_ok_iff.1 htrips
  have htrusted := journey_withTrips hslack hj
  rw [hnumbers] at htrusted
  refine ⟨hslack, by decide, fun k hk => ?_, j, hj, htrusted⟩
  rw [map_eq_error_iff.1 hrecorded] at hk
  cases hk

end Reconstruction

end Journeys
