import Journeys.Proofs.TransferRules
import Journeys.Proofs.Untimed

/-!
# Proofs: itineraries recorded both ways

An itinerary is what a traveller does: rides, joined at stops or by walks, between two walks at the
street. A forward search records it from the origin on and notes where each stretch leads to; a
reverse search records it from the destination back and notes where each stretch comes from. The two
tables have little in common, but what is read from them is the same apart from the recorded times
(`Itinerary.map_untimed_ofArrival`), and so are the journeys on the same trips.
-/

namespace Journeys

/-! ## Itineraries -/

/-- A ride between two stops, before any trip is sought for it. -/
structure PlannedRide where
  hop : Hop
  board : Stop
  alight : Stop

/-- Rides joined at stops or by walks, between two walks at the street. -/
structure Itinerary where
  /-- How long the walk from the origin takes. -/
  access : Span
  /-- How long the walk to the destination takes. -/
  egress : Span
  rides : Linked (Option Span) PlannedRide
  /-- Without a walk, a ride starts where the one before it ends. -/
  joined : Linked.Chained (fun a walk b => walk = none → a.alight = b.board) rides.first rides.rest

/-- One stretch of an itinerary. -/
inductive Stretch where
  | ride (ride : PlannedRide)
  | walk (fromStop toStop : Stop) (duration : Span)

namespace Stretch

def fromStop : Stretch → Stop
  | ride r => r.board
  | walk a _ _ => a

def toStop : Stretch → Stop
  | ride r => r.alight
  | walk _ b _ => b

/-- Where a search comes from when it records a stretch. -/
def near (direction : Direction) (s : Stretch) : Stop :=
  match direction with
  | .forward => s.fromStop
  | .reverse => s.toStop

/-- Where a search gets to by a stretch. -/
def far (direction : Direction) (s : Stretch) : Stop :=
  match direction with
  | .forward => s.toStop
  | .reverse => s.fromStop

/-- The stretch as a step of a chain, without a time. -/
def step : Stretch → RecordedStep
  | ride r => .ride r.hop r.board r.alight .midnight
  | walk _ _ duration => .walk duration

/-- The record of a stretch behind an earlier one. -/
def recordAfter (direction : Direction) (previous : RecordId) (before : ArrivalRecord)
    (s : Stretch) (time : Time) : ArrivalRecord :=
  match s with
  | ride r => ⟨s.far direction, before.round + 1, time, .ride previous r.hop⟩
  | walk _ _ duration => ⟨s.far direction, before.round, time, .walk previous duration⟩

/-- Records a stretch behind an earlier record, if that record exists. -/
def record? (direction : Direction) (table : Arrivals) (previous : RecordId) (s : Stretch)
    (time : Time) : Option (Arrivals × RecordId) :=
  match s with
  | ride r => table.ride? previous (s.far direction) time r.hop
  | walk _ _ duration => table.walk? previous (s.far direction) time duration

theorem record?_eq {direction : Direction} {table : Arrivals} {previous : RecordId}
    {before : ArrivalRecord} (h : table.get? previous = some before) (s : Stretch) (time : Time) :
    s.record? direction table previous time =
      some (table.push (s.recordAfter direction previous before time)) := by
  cases s with
  | ride r =>
    rw [record?, Arrivals.ride?, h]
    rfl
  | walk a b d =>
    rw [record?, Arrivals.walk?, h]
    rfl

end Stretch

namespace Itinerary

def accessWalk (it : Itinerary) : StreetWalk := ⟨it.rides.first.board, it.access⟩

def egressWalk (it : Itinerary) : StreetWalk := ⟨it.rides.last.alight, it.egress⟩

/-- The stretches of a ride and of those behind it, in order of travel. -/
def stretchesFrom : PlannedRide → List (Option Span × PlannedRide) → List Stretch
  | a, [] => [.ride a]
  | a, (none, b) :: rest => .ride a :: stretchesFrom b rest
  | a, (some d, b) :: rest => .ride a :: .walk a.alight b.board d :: stretchesFrom b rest

/-- The stretches of an itinerary, the last one that a search records first. -/
def stretches (it : Itinerary) (direction : Direction) : List Stretch :=
  match direction with
  | .forward => (stretchesFrom it.rides.first it.rides.rest).reverse
  | .reverse => stretchesFrom it.rides.first it.rides.rest

/-- The walk that a search starts with. -/
def startWalk (it : Itinerary) : Direction → StreetWalk
  | .forward => it.accessWalk
  | .reverse => it.egressWalk

/-- The walk that a search ends with. -/
def finalWalk (it : Itinerary) : Direction → StreetWalk
  | .forward => it.egressWalk
  | .reverse => it.accessWalk

end Itinerary

/-- A search started with a walk and recorded stretches one after another, listed from the last one
on; the number is that of its last record. Times are arbitrary, and any records may be added in
between. -/
inductive Arrivals.Recorded (direction : Direction) (start : StreetWalk) :
    Arrivals → RecordId → List Stretch → Prop
  | access (table : Arrivals) (time : Time) :
      Recorded direction start (table.access start time).1 (table.access start time).2 []
  | stretch {table table' : Arrivals} {id id' : RecordId} {behind : List Stretch} (s : Stretch)
      (time : Time) (hbehind : Recorded direction start table id behind)
      (hadd : s.record? direction table id time = some (table', id')) :
      Recorded direction start table' id' (s :: behind)
  | other {table : Arrivals} {id : RecordId} {behind : List Stretch} (record : ArrivalRecord)
      (hbehind : Recorded direction start table id behind) :
      Recorded direction start (table.push record).1 id behind

/-- A search recorded an itinerary up to its last walk. -/
def Itinerary.RecordedAs (it : Itinerary) (direction : Direction) (table : Arrivals)
    (arrival : FinalArrival) : Prop :=
  ∃ id time, table.Recorded direction (it.startWalk direction) id (it.stretches direction) ∧
    table.destination? id (it.finalWalk direction) time = some arrival

/-! ## What a search has reached -/

/-- The stop that a search has reached. -/
def reached (direction : Direction) (start : Stop) : List Stretch → Stop
  | [] => start
  | s :: _ => s.far direction

/-- Every stretch is recorded from the stop that the search has reached before. -/
def Joined (direction : Direction) (start : Stop) : List Stretch → Prop
  | [] => True
  | s :: behind => s.near direction = reached direction start behind ∧ Joined direction start behind

namespace Itinerary

/-- Stretches of rides that are joined take a forward search on to where the last ride ends. -/
theorem joined_forward (start : Stop) {a : PlannedRide} {rest : List (Option Span × PlannedRide)}
    (h : Linked.Chained (fun a walk b => walk = none → a.alight = b.board) a rest)
    (behind : List Stretch) (hjoined : Joined .forward start behind)
    (hreached : reached .forward start behind = a.board) :
    Joined .forward start ((stretchesFrom a rest).reverse ++ behind) ∧
      reached .forward start ((stretchesFrom a rest).reverse ++ behind) =
        (Linked.lastFrom a rest).alight := by
  induction rest generalizing a behind with
  | nil => exact ⟨⟨hreached.symm, hjoined⟩, rfl⟩
  | cons p rest ih =>
    obtain ⟨walk, b⟩ := p
    obtain ⟨hstop, hrest⟩ := h
    have hride : Joined .forward start (.ride a :: behind) := ⟨hreached.symm, hjoined⟩
    cases walk with
    | none =>
      have hlist : (stretchesFrom a ((none, b) :: rest)).reverse ++ behind =
          (stretchesFrom b rest).reverse ++ .ride a :: behind := by
        simp [stretchesFrom]
      rw [hlist]
      exact ih hrest _ hride (hstop rfl)
    | some d =>
      have hlist : (stretchesFrom a ((some d, b) :: rest)).reverse ++ behind =
          (stretchesFrom b rest).reverse ++ .walk a.alight b.board d :: .ride a :: behind := by
        simp [stretchesFrom]
      rw [hlist]
      exact ih hrest _ ⟨rfl, hride⟩ rfl

/-- They take a reverse search back to where the first ride starts. -/
theorem joined_reverse {a : PlannedRide} {rest : List (Option Span × PlannedRide)}
    (h : Linked.Chained (fun a walk b => walk = none → a.alight = b.board) a rest) :
    Joined .reverse (Linked.lastFrom a rest).alight (stretchesFrom a rest) ∧
      reached .reverse (Linked.lastFrom a rest).alight (stretchesFrom a rest) = a.board := by
  induction rest generalizing a with
  | nil => exact ⟨⟨rfl, trivial⟩, rfl⟩
  | cons p rest ih =>
    obtain ⟨walk, b⟩ := p
    obtain ⟨hstop, hrest⟩ := h
    obtain ⟨hjoined, hreached⟩ := ih hrest
    cases walk with
    | none => exact ⟨⟨(hstop rfl).trans hreached.symm, hjoined⟩, rfl⟩
    | some d => exact ⟨⟨rfl, hreached.symm, hjoined⟩, rfl⟩

theorem joined_stretches (it : Itinerary) (direction : Direction) :
    Joined direction (it.startWalk direction).stop (it.stretches direction) ∧
      reached direction (it.startWalk direction).stop (it.stretches direction) =
        (it.finalWalk direction).stop := by
  cases direction with
  | forward =>
    have h := joined_forward it.accessWalk.stop it.joined [] trivial rfl
    rw [List.append_nil] at h
    exact h
  | reverse => exact joined_reverse it.joined

end Itinerary

/-! ## Reading it back -/

theorem Trail.Followed.push {table : Arrivals} {direction : Direction} {record : ArrivalRecord}
    {trail : Trail} (h : Followed table direction record trail) (added : ArrivalRecord) :
    Followed (table.push added).1 direction record trail := by
  induction h with
  | access happroach hstop hround => exact .access happroach hstop hround
  | ride happroach hbefore hround _ ih =>
    exact .ride happroach (Arrivals.get?_push_of_eq_some hbefore added) hround ih
  | walk happroach hbefore hround _ ih =>
    exact .walk happroach (Arrivals.get?_push_of_eq_some hbefore added) hround ih

/-- What is known of the record that a search has got to: the trail behind it is the stretches that
were recorded, apart from the times. -/
structure Arrivals.Leaves (table : Arrivals) (direction : Direction) (start : StreetWalk)
    (stretches : List Stretch) (record : ArrivalRecord) (trail : Trail) : Prop where
  stop : record.stop = reached direction start.stop stretches
  followed : Trail.Followed table direction record trail
  start : trail.start = start
  steps : trail.steps.map RecordedStep.untimed = stretches.map Stretch.step
  length : stretches.length < table.size

namespace Arrivals

variable {table : Arrivals} {direction : Direction} {start : StreetWalk} {id : RecordId}
  {stretches : List Stretch}

theorem Leaves.push {record : ArrivalRecord} {trail : Trail}
    (h : table.Leaves direction start stretches record trail) (added : ArrivalRecord) :
    (table.push added).1.Leaves direction start stretches record trail := by
  refine ⟨h.stop, h.followed.push added, h.start, h.steps, ?_⟩
  rw [size_push]
  exact Nat.lt_succ_of_lt h.length

/-- One more stretch adds one step to the trail. -/
theorem Leaves.stretch {before : ArrivalRecord} {trail : Trail} {s : Stretch}
    (h : table.Leaves direction start stretches before trail)
    (hbefore : table.get? id = some before)
    (hnear : s.near direction = reached direction start.stop stretches) (time : Time) :
    ∃ trail', (table.push (s.recordAfter direction id before time)).1.Leaves direction start
      (s :: stretches) (s.recordAfter direction id before time) trail' := by
  have hstop : before.stop = s.near direction := h.stop.trans hnear.symm
  have hfound := get?_push_of_eq_some hbefore (s.recordAfter direction id before time)
  have hfollowed := h.followed.push (s.recordAfter direction id before time)
  have hlength : (s :: stretches).length <
      (table.push (s.recordAfter direction id before time)).1.size := by
    rw [size_push]
    exact Nat.succ_lt_succ h.length
  -- the record holds one stop of a ride, the other one is that of the record before it
  cases s with
  | ride r =>
    have hstep : (Trail.recordedRide direction r.hop before
        (Stretch.recordAfter direction id before (.ride r) time)).untimed =
          (Stretch.ride r).step := by
      cases direction with
      | forward =>
        have hboard : before.stop = r.board := hstop
        show RecordedStep.ride r.hop before.stop r.alight .midnight = _
        rw [hboard]
        rfl
      | reverse =>
        have halight : before.stop = r.alight := hstop
        show RecordedStep.ride r.hop r.board before.stop .midnight = _
        rw [halight]
        rfl
    refine ⟨_, rfl, .ride rfl hfound rfl hfollowed, h.start, ?_, hlength⟩
    rw [List.map_cons, List.map_cons, hstep, h.steps]
  | walk a b d =>
    refine ⟨_, rfl, .walk rfl hfound rfl hfollowed, h.start, ?_, hlength⟩
    rw [List.map_cons, List.map_cons, h.steps]
    rfl

/-- Any stretches can be recorded behind whatever a table holds. -/
theorem exists_recorded (table : Arrivals) (direction : Direction) (start : StreetWalk)
    (stretches : List Stretch) :
    ∃ table' id record, table'.Recorded direction start id stretches ∧
      Arrivals.get? table' id = some record := by
  induction stretches with
  | nil => exact ⟨_, _, _, .access table .midnight, get?_push_self _ _⟩
  | cons s behind ih =>
    obtain ⟨table', id, before, hrecorded, hbefore⟩ := ih
    exact ⟨_, _, _, .stretch s .midnight hrecorded (Stretch.record?_eq hbefore s .midnight),
      get?_push_self _ _⟩

/-- A search leaves a trail of the stretches that it recorded, if these are joined. -/
theorem Recorded.exists_leaves (h : table.Recorded direction start id stretches)
    (hjoined : Joined direction start.stop stretches) :
    ∃ record trail, table.get? id = some record ∧
      table.Leaves direction start stretches record trail := by
  induction h with
  | access table time =>
    refine ⟨_, _, get?_push_self _ _, rfl, .access rfl rfl rfl, rfl, rfl, ?_⟩
    rw [Arrivals.access, size_push]
    exact Nat.succ_pos _
  | @stretch table table' id id' behind s time _ hadd ih =>
    obtain ⟨hnear, hjoined⟩ := hjoined
    obtain ⟨before, trail, hbefore, hleaves⟩ := ih hjoined
    obtain ⟨trail', hleaves'⟩ := hleaves.stretch hbefore hnear time
    -- what was added is the record behind the one that was found
    rw [Stretch.record?_eq hbefore, Option.some.injEq] at hadd
    obtain rfl := congrArg Prod.fst hadd
    obtain rfl := congrArg Prod.snd hadd
    exact ⟨_, trail', get?_push_self _ _, hleaves'⟩
  | other record _ ih =>
    obtain ⟨last, trail, hlast, hleaves⟩ := ih hjoined
    exact ⟨last, trail, get?_push_of_eq_some hlast record, hleaves.push record⟩

end Arrivals

/-- The recorded journey without its recorded times. -/
def RecordedJourney.untimed (journey : RecordedJourney) : RecordedJourney :=
  { journey with anchor := .midnight, rides := journey.rides.map id RecordedRide.untimed }

namespace Itinerary

variable {it : Itinerary} {direction : Direction} {table : Arrivals} {arrival : FinalArrival}

/-- Every itinerary can be recorded, either way. -/
theorem exists_recordedAs (it : Itinerary) (direction : Direction) (table : Arrivals) :
    ∃ table' arrival, it.RecordedAs direction table' arrival := by
  obtain ⟨table', id, record, hrecorded, hrecord⟩ :=
    table.exists_recorded direction (it.startWalk direction) (it.stretches direction)
  have harrival : table'.destination? id (it.finalWalk direction) .midnight =
      some ⟨id, it.finalWalk direction, .midnight, record.round⟩ := by
    rw [Arrivals.destination?, hrecord]
    rfl
  exact ⟨table', _, id, .midnight, hrecorded, harrival⟩

/-- What can be read from a record of the itinerary, recorded times apart. -/
def read (it : Itinerary) (network : Network) (slack : SlackPolicy) :
    Except ReconstructionError RecordedJourney := do
  let rides ← RecordedJourney.readRides (RecordedRide.resolve network slack)
    ((stretchesFrom it.rides.first it.rides.rest).map Stretch.step)
  return { access := it.accessWalk, egress := it.egressWalk, anchor := .midnight, rides }

/-- The trail behind an arrival is that of the itinerary. -/
theorem RecordedAs.exists_trail (h : it.RecordedAs direction table arrival) :
    ∃ trail, Trail.ofArrival table direction arrival = .ok trail ∧
      arrival.egress = it.finalWalk direction ∧ trail.start = it.startWalk direction ∧
      (Trail.travelled direction trail).map RecordedStep.untimed =
        (stretchesFrom it.rides.first it.rides.rest).map Stretch.step := by
  obtain ⟨id, time, hrecorded, harrival⟩ := h
  obtain ⟨hjoined, hreached⟩ := it.joined_stretches direction
  obtain ⟨record, trail, hrecord, hleaves⟩ := hrecorded.exists_leaves hjoined
  rw [Arrivals.destination?, hrecord] at harrival
  obtain rfl := Option.some.inj harrival
  have hlength : trail.steps.length = (it.stretches direction).length := by
    have hlength := congrArg List.length hleaves.steps
    simpa using hlength
  have htrail : Trail.ofArrival table direction
      ⟨id, it.finalWalk direction, time, record.round⟩ = .ok trail := by
    refine Trail.ofArrival_eq_ok_iff.2 ⟨record, hrecord, ?_, rfl, hleaves.followed, ?_⟩
    · rw [hleaves.stop, hreached]
    · rw [hlength]
      exact Nat.le_of_lt hleaves.length
  refine ⟨trail, htrail, rfl, hleaves.start, ?_⟩
  have hsteps := hleaves.steps
  cases direction with
  | forward =>
    rw [Trail.travelled, List.map_reverse, hsteps, stretches, List.map_reverse,
      List.reverse_reverse]
  | reverse => exact hsteps

/-- Whichever way an itinerary was recorded, the same is read from it, recorded times apart. -/
theorem RecordedAs.map_untimed_ofArrival (h : it.RecordedAs direction table arrival)
    (network : Network) (slack : SlackPolicy) :
    RecordedJourney.untimed <$>
        RecordedJourney.ofArrival network slack direction table arrival =
      it.read network slack := by
  obtain ⟨trail, htrail, hegress, hstart, hsteps⟩ := h.exists_trail
  rw [RecordedJourney.ofArrival_eq_ofTrail htrail, read, ← hsteps,
    ← RecordedJourney.map_untimed_readRides, hegress]
  cases direction with
  | forward =>
    rw [RecordedJourney.ofTrail, hstart]
    simp only [map_bind, bind_map_left]
    rfl
  | reverse =>
    rw [RecordedJourney.ofTrail, hstart]
    simp only [map_bind, bind_map_left]
    rfl

end Itinerary

/-! ## The same trips -/

/-- The trip of a leg, if it is a ride. -/
def Leg.trip? (leg : Leg) : Option TripSlot := leg.ride?.map RideDetails.trip

/-- The trips that a journey rides, in order of travel. -/
def Journey.trips (j : Journey) : List TripSlot := j.rideLegs.filterMap Leg.trip?

/-- A ride on a given trip is determined by what was recorded, the recorded time apart. -/
theorem Ridden.OnTrip.untimed_eq {r r' : Ridden} (h : r.OnTrip) (h' : r'.OnTrip)
    (hride : r.ride.untimed = r'.ride.untimed) (htrip : r.trip = r'.trip) :
    r.untimed = r'.untimed := by
  obtain ⟨trip, hslot, hid, hboard, halight⟩ := h.times
  obtain ⟨trip', hslot', hid', hboard', halight'⟩ := h'.times
  have hrides := hride
  simp only [RecordedRide.untimed, RecordedRide.mk.injEq] at hrides
  obtain ⟨hhop, -, -, hpattern, -⟩ := hrides
  rw [hpattern, htrip, hslot', Option.some.injEq] at hslot
  rw [← hslot] at hid hboard halight
  rw [hhop, hboard', Option.some.injEq] at hboard
  rw [hhop, halight', Option.some.injEq] at halight
  rw [← hid'] at hid
  obtain ⟨ride, slot, id, boardTime, alightTime⟩ := r
  simp only [untimed, mk.injEq]
  exact ⟨hride, htrip, hid, hboard.symm, halight.symm⟩

/-- Lists whose elements agree in two respects agree in what these determine. -/
theorem map_eq_map_of_agree {α β γ δ : Type} {f : α → β} {g : α → γ} {k : α → δ} {l l' : List α}
    (hf : l.map f = l'.map f) (hg : l.map g = l'.map g)
    (h : ∀ x ∈ l, ∀ y ∈ l', f x = f y → g x = g y → k x = k y) : l.map k = l'.map k := by
  induction l generalizing l' with
  | nil =>
    obtain rfl := List.map_eq_nil_iff.1 hf.symm
    rfl
  | cons x l ih =>
    cases l' with
    | nil => cases hf
    | cons y l' =>
      obtain ⟨hfxy, hf⟩ := List.cons.inj hf
      obtain ⟨hgxy, hg⟩ := List.cons.inj hg
      have hrest := ih hf hg fun a ha b hb =>
        h a (List.mem_cons_of_mem x ha) b (List.mem_cons_of_mem y hb)
      have hfirst := h x List.mem_cons_self y List.mem_cons_self hfxy hgxy
      rw [List.map_cons, List.map_cons, hrest, hfirst]

namespace RecordedJourney

variable {recorded recorded' : RecordedJourney} {ridden ridden' : Linked (Option Span) Ridden}

theorem Assigns.map_untimed_eq (h : recorded.Assigns ridden) (h' : recorded'.Assigns ridden')
    (hsame : recorded.untimed = recorded'.untimed)
    (htrips : ridden.toList.map Ridden.trip = ridden'.toList.map Ridden.trip) :
    ridden.map id Ridden.untimed = ridden'.map id Ridden.untimed := by
  have hrides : (ridden.map id Ridden.ride).map id RecordedRide.untimed =
      (ridden'.map id Ridden.ride).map id RecordedRide.untimed := by
    rw [h.rides, h'.rides]
    exact congrArg RecordedJourney.rides hsame
  refine Linked.ext_toList ?_ ?_
  · have hlist := congrArg Linked.toList hrides
    rw [Linked.toList_map, Linked.toList_map, Linked.toList_map, Linked.toList_map, List.map_map,
      List.map_map] at hlist
    rw [Linked.toList_map, Linked.toList_map]
    refine map_eq_map_of_agree hlist htrips ?_
    intro r hr r' hr' hride htrip
    exact (h.onTrip r hr).untimed_eq (h'.onTrip r' hr') hride htrip
  · have hlinks := congrArg Linked.links hrides
    simpa using hlinks

/-- Where trips are trusted, every ride of a sound journey gets its recorded trip. -/
theorem Sound.exists_chooseAll {network : Network} {slack : SlackPolicy}
    (h : recorded.Sound network slack) {c : TripChoice} (htrusted : c.approximate = true) :
    ∃ ridden, c.chooseAll recorded.rides = .ok ridden ∧
      ridden.toList.map Ridden.trip = recorded.rides.toList.map fun r => r.hop.trip := by
  have hall : ∀ ride ∈ recorded.rides.toList, ∃ r, Ridden.ride r = ride ∧
      Ridden.ofTrip r.ride r.ride.hop.trip r.ride.recorded = .ok r := by
    intro ride hride
    have hresolved := h.resolved ride hride
    have hmem := List.mem_of_getElem? hresolved.recorded
    obtain ⟨r, hr⟩ := Ridden.exists_ofTrip_of_mem hmem hresolved.boardPos_lt
      hresolved.alightPos_lt ride.hop.trip
    obtain rfl : r.ride = ride := (Ridden.ofTrip_eq_ok_iff.1 hr).1
    exact ⟨r, rfl, hr⟩
  obtain ⟨ridden, hmap, hridden⟩ := recorded.rides.exists_map_of_forall hall
  refine ⟨ridden, TripChoice.chooseAll_eq_ok_iff.2 ⟨hmap, .of_forall ?_⟩, ?_⟩
  · intro r hr neighbour
    rw [TripChoice.choose, if_pos htrusted]
    exact hridden r hr
  · rw [← hmap, Linked.toList_map, List.map_map]
    refine List.map_congr_left fun r hr => ?_
    exact (Ridden.ofTrip_eq_ok_iff.1 (hridden r hr)).2.1

end RecordedJourney

namespace Reconstruction

variable {c : Reconstruction} {table : Arrivals} {arrival : FinalArrival} {j : Journey}
  {recorded recorded' : RecordedJourney} {ridden ridden' : Linked (Option Span) Ridden}
  {settled : Linked Change Ridden}

theorem LegsOf.trips (h : LegsOf settled j) : j.trips = settled.toList.map Ridden.trip := by
  have hlegs : j.trips = (j.rideLegs.map Leg.unpriced).filterMap Leg.trip? := by
    rw [List.filterMap_map]
    rfl
  have hzip (rules : List (Option TransferRule)) (rides : List Ridden)
      (hlength : rules.length = rides.length) :
      (List.zipWith Ridden.asLeg rules rides).filterMap Leg.trip? = rides.map Ridden.trip := by
    induction rides generalizing rules with
    | nil => rw [List.zipWith_nil_right]; rfl
    | cons r rides ih =>
      cases rules with
      | nil => cases hlength
      | cons rule rules =>
        rw [List.zipWith_cons_cons, List.map_cons, ← ih rules (Nat.succ.inj hlength)]
        rfl
  rw [hlegs, h, hzip]
  rw [length_boardingRules, Linked.length_toList]

theorem Steps.map_trip_settled (h : c.Steps table arrival recorded ridden settled) :
    settled.toList.map Ridden.trip = ridden.toList.map Ridden.trip := by
  obtain ⟨rfl, -, -⟩ := Change.ofRides_eq_ok_iff.1 h.settles
  have hmap := Change.map_settled Ridden.trip (fun _ _ _ => rfl) c.rules none ridden.first
    ridden.rest
  have hlist := congrArg Linked.toList hmap
  rwa [Linked.toList_map, Linked.toList_map] at hlist

/-- Journeys that agree up to recorded times and are on the same trips are put together alike. -/
theorem assemble_eq (h : recorded.Assigns ridden) (h' : recorded'.Assigns ridden')
    (hsame : recorded.untimed = recorded'.untimed)
    (htrips : ridden.toList.map Ridden.trip = ridden'.toList.map Ridden.trip) :
    c.assemble recorded.access recorded.egress ridden =
      c.assemble recorded'.access recorded'.egress ridden' := by
  have hparts := hsame
  simp only [RecordedJourney.untimed, RecordedJourney.mk.injEq] at hparts
  obtain ⟨haccess, hegress, -, -⟩ := hparts
  rw [← assemble_untimed, h.map_untimed_eq h' hsame htrips, assemble_untimed, haccess, hegress]

variable {it : Itinerary} {tableF tableR : Arrivals} {arrivalF arrivalR : FinalArrival}

/-- Where trips are trusted, both records of an itinerary have the same outcome. -/
theorem journey_eq_of_trusted (c : Reconstruction) (hF : it.RecordedAs .forward tableF arrivalF)
    (hR : it.RecordedAs .reverse tableR arrivalR) :
    ({ c with direction := .forward, approximate := true } : Reconstruction).journey
        tableF arrivalF =
      ({ c with direction := .reverse, approximate := true } : Reconstruction).journey
        tableR arrivalR := by
  have hreadF := hF.map_untimed_ofArrival c.network c.slack
  have hreadR := hR.map_untimed_ofArrival c.network c.slack
  rw [journey_eq, journey_eq]
  cases hread : it.read c.network c.slack with
  | error e =>
    -- both searches stumble over the same step, as both read the steps in order of travel
    rw [hread] at hreadF hreadR
    rw [map_eq_error_iff.1 hreadF, map_eq_error_iff.1 hreadR]
    rfl
  | ok read =>
    rw [hread] at hreadF hreadR
    obtain ⟨recordedF, hfoundF, hsameF⟩ := map_eq_ok_iff.1 hreadF
    obtain ⟨recordedR, hfoundR, hsameR⟩ := map_eq_ok_iff.1 hreadR
    have hsoundF := RecordedJourney.sound_of_ofArrival hfoundF
    have hsoundR := RecordedJourney.sound_of_ofArrival hfoundR
    obtain ⟨riddenF, hchosenF, htripsF⟩ := hsoundF.exists_chooseAll
      (c := ⟨.forward, c.rules, true, recordedF.anchor⟩) rfl
    obtain ⟨riddenR, hchosenR, htripsR⟩ := hsoundR.exists_chooseAll
      (c := ⟨.reverse, c.rules, true, recordedR.anchor⟩) rfl
    have hsame : recordedF.untimed = recordedR.untimed := hsameF.trans hsameR.symm
    have htrips : riddenF.toList.map Ridden.trip = riddenR.toList.map Ridden.trip := by
      have hhops : recordedF.untimed.rides.toList.map (fun r => r.hop.trip) =
          recordedR.untimed.rides.toList.map fun r => r.hop.trip := by
        rw [hsame]
      simp only [RecordedJourney.untimed, Linked.toList_map, List.map_map] at hhops
      rw [htripsF, htripsR]
      exact hhops
    have hassemble := assemble_eq (c := c) (.of_chooseAll hsoundF hchosenF)
      (.of_chooseAll hsoundR hchosenR) hsame htrips
    simp only [hfoundF, hfoundR]
    show (Placement.unusable ((TripChoice.mk .forward c.rules true recordedF.anchor).chooseAll
      recordedF.rides) >>= c.assemble recordedF.access recordedF.egress) =
      (Placement.unusable ((TripChoice.mk .reverse c.rules true recordedR.anchor).chooseAll
      recordedR.rides) >>= c.assemble recordedR.access recordedR.egress)
    rw [hchosenF, hchosenR]
    exact hassemble

/-- Behind a journey there are its rides on their trips, which it is put together from. -/
theorem exists_assemble_of_journey (h : c.journey table arrival = .ok j) :
    ∃ recorded ridden,
      RecordedJourney.ofArrival c.network c.slack c.direction table arrival = .ok recorded ∧
        recorded.Assigns ridden ∧ c.assemble recorded.access recorded.egress ridden = .ok j ∧
        j.trips = ridden.toList.map Ridden.trip := by
  obtain ⟨recorded, ridden, settled, hsteps, hlegs⟩ := exists_legsOf_of_journey h
  refine ⟨recorded, ridden, hsteps.found, hsteps.assigns, ?_, ?_⟩
  · rw [journey_eq, hsteps.found] at h
    have h : (Placement.unusable ((c.choice recorded.anchor).chooseAll recorded.rides) >>=
        c.assemble recorded.access recorded.egress) = .ok j := h
    rw [hsteps.chosen] at h
    exact h
  · rw [hlegs.trips, hsteps.map_trip_settled]

/-- Where trips are searched for, journeys from both records of an itinerary are the same if they
ride the same trips. -/
theorem eq_of_trips_eq (c : Reconstruction) (hF : it.RecordedAs .forward tableF arrivalF)
    (hR : it.RecordedAs .reverse tableR arrivalR) {jF jR : Journey}
    (hjF : ({ c with direction := .forward, approximate := false } : Reconstruction).journey
      tableF arrivalF = .ok jF)
    (hjR : ({ c with direction := .reverse, approximate := false } : Reconstruction).journey
      tableR arrivalR = .ok jR)
    (htrips : jF.trips = jR.trips) : jF = jR := by
  obtain ⟨recordedF, riddenF, hfoundF, hassignsF, hassembleF, htripsF⟩ :=
    exists_assemble_of_journey hjF
  obtain ⟨recordedR, riddenR, hfoundR, hassignsR, hassembleR, htripsR⟩ :=
    exists_assemble_of_journey hjR
  have hreadF := hF.map_untimed_ofArrival c.network c.slack
  have hreadR := hR.map_untimed_ofArrival c.network c.slack
  have hsame : recordedF.untimed = recordedR.untimed := by
    have hreads := hreadF.trans hreadR.symm
    rw [hfoundF, hfoundR] at hreads
    exact Except.ok.inj hreads
  rw [htripsF, htripsR] at htrips
  have hassemble := assemble_eq (c := c) hassignsF hassignsR hsame htrips
  exact Except.ok.inj (hassembleF.symm.trans (hassemble.trans hassembleR))

/-- An itinerary gives one journey, whichever way it was recorded: where trips are trusted the
outcomes are the same, failures included, and where they are searched for the journeys are, if they
ride the same trips. -/
theorem journey_same_both_ways (c : Reconstruction) (it : Itinerary)
    (hF : it.RecordedAs .forward tableF arrivalF) (hR : it.RecordedAs .reverse tableR arrivalR) :
    ({ c with direction := .forward, approximate := true } : Reconstruction).journey
        tableF arrivalF =
      ({ c with direction := .reverse, approximate := true } : Reconstruction).journey
        tableR arrivalR ∧
    ∀ jF jR,
      ({ c with direction := .forward, approximate := false } : Reconstruction).journey
        tableF arrivalF = .ok jF →
      ({ c with direction := .reverse, approximate := false } : Reconstruction).journey
        tableR arrivalR = .ok jR →
      jF.trips = jR.trips → jF = jR :=
  ⟨c.journey_eq_of_trusted hF hR, fun _ _ hjF hjR => c.eq_of_trips_eq hF hR hjF hjR⟩

end Reconstruction

/-! ## The feeder and the late connection -/

def feederPlan : PlannedRide := ⟨⟨⟨⟨0⟩, 0⟩, 0, 1⟩, ⟨1⟩, ⟨2⟩⟩

def latePlan : PlannedRide := ⟨⟨⟨⟨1⟩, 1⟩, 0, 1⟩, ⟨2⟩, ⟨3⟩⟩

def lateItinerary : Itinerary :=
  { access := minute
    egress := minute
    rides := ⟨feederPlan, [(none, latePlan)]⟩
    joined := ⟨fun _ => rfl, trivial⟩ }

/-- What a forward search records of it. -/
def lateForward : Arrivals :=
  ⟨#[{ stop := ⟨1⟩, round := 0, time := .ofHms 7 58 0, approach := .access ⟨⟨1⟩, minute⟩ },
     { stop := ⟨2⟩, round := 1, time := .ofHms 8 10 0, approach := .ride ⟨0⟩ feederPlan.hop },
     { stop := ⟨3⟩, round := 2, time := .ofHms 8 40 0, approach := .ride ⟨1⟩ latePlan.hop }]⟩

/-- What a reverse search records of it. -/
def lateReverse : Arrivals :=
  ⟨#[{ stop := ⟨3⟩, round := 0, time := .ofHms 8 45 0, approach := .access ⟨⟨3⟩, minute⟩ },
     { stop := ⟨2⟩, round := 1, time := .ofHms 8 20 0, approach := .ride ⟨0⟩ latePlan.hop },
     { stop := ⟨1⟩, round := 2, time := .ofHms 8 0 0, approach := .ride ⟨1⟩ feederPlan.hop }]⟩

/-- The arrival of the reverse search, at the origin. -/
def lateReverseArrival : FinalArrival :=
  { previous := ⟨2⟩, egress := ⟨⟨1⟩, minute⟩, time := .ofHms 7 59 0, round := 2 }

theorem recordedAs_lateForward :
    lateItinerary.RecordedAs .forward lateForward feederArrival := by
  have hstart : Arrivals.Recorded .forward lateItinerary.accessWalk _ _ [] :=
    .access Arrivals.empty (.ofHms 7 58 0)
  have hfeeder := Arrivals.Recorded.stretch (.ride feederPlan) (.ofHms 8 10 0) hstart rfl
  exact ⟨⟨2⟩, .ofHms 9 1 0, .stretch _ (.ofHms 8 40 0) hfeeder rfl, rfl⟩

theorem recordedAs_lateReverse :
    lateItinerary.RecordedAs .reverse lateReverse lateReverseArrival := by
  have hstart : Arrivals.Recorded .reverse lateItinerary.egressWalk _ _ [] :=
    .access Arrivals.empty (.ofHms 8 45 0)
  have hlate := Arrivals.Recorded.stretch (.ride latePlan) (.ofHms 8 20 0) hstart rfl
  exact ⟨⟨2⟩, .ofHms 7 59 0, .stretch _ (.ofHms 8 0 0) hlate rfl, rfl⟩

namespace Reconstruction

/-- Both records lead to the journey by the feeder and the late connection. -/
theorem journey_same_both_ways_late :
    let c := feederSearch TransferRules.unconstrained false
    let trips : List TripSlot := [⟨⟨0⟩, 0⟩, ⟨⟨1⟩, 1⟩]
    (∃ j, ({ c with direction := .forward, approximate := true } : Reconstruction).journey
        lateForward feederArrival = .ok j ∧
      ({ c with direction := .reverse, approximate := true } : Reconstruction).journey
        lateReverse lateReverseArrival = .ok j) ∧
    ∃ j, ({ c with direction := .forward, approximate := false } : Reconstruction).journey
        lateForward feederArrival = .ok j ∧
      ({ c with direction := .reverse, approximate := false } : Reconstruction).journey
        lateReverse lateReverseArrival = .ok j ∧ j.trips = trips := by
  intro c trips
  obtain ⟨htrusted, hsearched⟩ :=
    journey_same_both_ways c lateItinerary recordedAs_lateForward recordedAs_lateReverse
  have hforward : (Journey.trips <$> ({ c with direction := .forward, approximate := true } :
      Reconstruction).journey lateForward feederArrival) = .ok trips := rfl
  have hforward' : (Journey.trips <$> ({ c with direction := .forward, approximate := false } :
      Reconstruction).journey lateForward feederArrival) = .ok trips := rfl
  have hreverse' : (Journey.trips <$> ({ c with direction := .reverse, approximate := false } :
      Reconstruction).journey lateReverse lateReverseArrival) = .ok trips := rfl
  obtain ⟨j, hj, -⟩ := map_eq_ok_iff.1 hforward
  obtain ⟨jF, hjF, htripsF⟩ := map_eq_ok_iff.1 hforward'
  obtain ⟨jR, hjR, htripsR⟩ := map_eq_ok_iff.1 hreverse'
  obtain rfl := hsearched jF jR hjF hjR (htripsF.trans htripsR.symm)
  exact ⟨⟨j, hj, htrusted.symm.trans hj⟩, jF, hjF, hjR, htripsF⟩

end Reconstruction

end Journeys
