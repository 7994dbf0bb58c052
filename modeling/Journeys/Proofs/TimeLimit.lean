import Journeys.Proofs.RecordedSearch
import Journeys.Proofs.Search

/-!
# Proofs: the time limit of a search

A result set tests the time that comes with an arrival, before there is a journey, and the journey
is then built on other trips than the ones recorded. It still keeps the limit: the ride next to the
destination is no worse than its record, no rule takes the slack on its outer side, and the walk
there is the one of the arrival. So a time that counts the record, this slack and this walk bounds
the journey (`FinalArrival.CountsWayOut`).
-/

namespace Journeys

/-- The time of an arrival counts all that lies between the record it comes from and the street: the
slack after the last alighting (forward) or before the first boarding (reverse), never less than
none, and the walk. Each is counted in whole seconds. -/
def FinalArrival.CountsWayOut (arrival : FinalArrival) (direction : Direction)
    (slack : SlackPolicy) (table : Arrivals) : Prop :=
  ∀ record previous hop, table.get? arrival.previous = some record →
    record.approach = .ride previous hop →
      match direction with
      | .forward => record.time.seconds +
          (slack.alight record.stop hop.trip).clampNonneg.wholeSeconds +
            arrival.egress.duration.wholeSeconds ≤ arrival.time.seconds
      | .reverse => arrival.time.seconds ≤ record.time.seconds -
          (slack.board record.stop hop.trip).clampNonneg.wholeSeconds -
            arrival.egress.duration.wholeSeconds

/-! ## The ride next to the arrival -/

/-- The stop that a ride leads to in search direction. -/
def RecordedRide.reached (r : RecordedRide) : Direction → Stop
  | .forward => r.alight
  | .reverse => r.board

/-- A back-pointer that stands for a ride: its record is by that ride, at its time, and at the stop
that the ride leads to. -/
theorem BackPointer.exists_of_step?_eq_step {direction : Direction} {p : BackPointer}
    {r : RecordedRide} (h : p.step? direction = some r.step) :
    (∃ previous, p.record.approach = .ride previous r.hop) ∧ p.record.time = r.time ∧
      p.record.stop = r.reached direction := by
  unfold step? at h
  split at h
  · cases h
  · rename_i previous hop happroach
    have hstep := Option.some.inj h
    cases direction with
    | forward =>
      obtain ⟨rfl, -, hstop, htime⟩ := RecordedStep.ride.inj hstep
      exact ⟨⟨previous, happroach⟩, htime, hstop⟩
    | reverse =>
      obtain ⟨rfl, hstop, -, htime⟩ := RecordedStep.ride.inj hstep
      exact ⟨⟨previous, happroach⟩, htime, hstop⟩
  · cases h

theorem Arrivals.LeadsBack.record_of_head? {table : Arrivals} {record last : ArrivalRecord}
    {pointers : List BackPointer} (h : table.LeadsBack record pointers last) {p : BackPointer}
    (hp : pointers.head? = some p) : p.record = record := by
  cases h with
  | here => cases hp
  | back => rw [← Option.some.inj hp]

namespace RecordedJourney

/-- The ride that the search recorded last. -/
def outerRide (journey : RecordedJourney) : Direction → RecordedRide
  | .forward => journey.rides.last
  | .reverse => journey.rides.first

theorem outerRide_mem (journey : RecordedJourney) (direction : Direction) :
    journey.outerRide direction ∈ journey.rides.toList := by
  cases direction with
  | forward => exact journey.rides.last_mem_toList
  | reverse => exact Linked.first_mem_toList journey.rides

theorem getLast?_steps (rides : Linked (Option Span) RecordedRide) :
    (steps rides).getLast? = some rides.last.step := by
  induction rides using Linked.induction with
  | single a => rfl
  | cons a walk rides ih =>
    rw [steps_cons, List.getLast?_cons, List.getLast?_append, ih]
    rfl

theorem Recounts.map_head? {journey : RecordedJourney} {direction : Direction}
    {pointers : List BackPointer} {start : ArrivalRecord}
    (h : journey.Recounts direction pointers start) :
    pointers.head?.map (BackPointer.step? direction) =
      some (some (journey.outerRide direction).step) := by
  have hsteps := h.steps
  cases direction with
  | forward =>
    have hend := congrArg List.getLast? hsteps
    rw [List.getLast?_map, List.getLast?_map, getLast?_steps] at hend
    rw [← List.getLast?_reverse]
    exact hend
  | reverse =>
    have hhead := congrArg List.head? hsteps
    rw [List.head?_map] at hhead
    exact hhead

theorem exists_outer_of_ofArrival {network : Network} {slack : SlackPolicy} {direction : Direction}
    {table : Arrivals} {arrival : FinalArrival} {journey : RecordedJourney}
    (h : ofArrival network slack direction table arrival = .ok journey) :
    ∃ record previous, table.get? arrival.previous = some record ∧
      record.approach = .ride previous (journey.outerRide direction).hop ∧
      record.time = (journey.outerRide direction).time ∧
      record.stop = (journey.outerRide direction).reached direction := by
  obtain ⟨record, pointers, start, walk, hrecord, hback, -, hrecounts⟩ := exists_recounts h
  obtain ⟨p, hp, hstep⟩ := Option.map_eq_some_iff.1 hrecounts.map_head?
  obtain ⟨⟨previous, happroach⟩, htime, hstop⟩ := BackPointer.exists_of_step?_eq_step hstep
  rw [hback.record_of_head? hp] at happroach htime hstop
  exact ⟨record, previous, hrecord, happroach, htime, hstop⟩

end RecordedJourney

namespace FinalArrival.CountsWayOut

variable {arrival : FinalArrival} {slack : SlackPolicy} {table : Arrivals} {network : Network}
  {journey : RecordedJourney}

theorem of_forward (h : arrival.CountsWayOut .forward slack table)
    (hfound : RecordedJourney.ofArrival network slack .forward table arrival = .ok journey) :
    journey.rides.last.time.seconds + journey.rides.last.alightSlack.wholeSeconds +
      journey.egress.duration.wholeSeconds ≤ arrival.time.seconds := by
  obtain ⟨record, previous, hrecord, happroach, htime, hstop⟩ :=
    RecordedJourney.exists_outer_of_ofArrival hfound
  have hresolved := (RecordedJourney.sound_of_ofArrival hfound).resolved _
    (journey.outerRide_mem .forward)
  obtain ⟨-, trail, -, -, -, hreads, -⟩ := RecordedJourney.exists_followed_of_ofArrival hfound
  have hcounts := h record previous _ hrecord happroach
  have hstop : record.stop = (journey.outerRide .forward).alight := hstop
  simp only [hstop, htime, ← hresolved.alightSlack, ← hreads.walks.2] at hcounts
  exact hcounts

theorem of_reverse (h : arrival.CountsWayOut .reverse slack table)
    (hfound : RecordedJourney.ofArrival network slack .reverse table arrival = .ok journey) :
    arrival.time.seconds ≤ journey.rides.first.time.seconds -
      journey.rides.first.boardSlack.wholeSeconds - journey.access.duration.wholeSeconds := by
  obtain ⟨record, previous, hrecord, happroach, htime, hstop⟩ :=
    RecordedJourney.exists_outer_of_ofArrival hfound
  have hresolved := (RecordedJourney.sound_of_ofArrival hfound).resolved _
    (journey.outerRide_mem .reverse)
  obtain ⟨-, trail, -, -, -, hreads, -⟩ := RecordedJourney.exists_followed_of_ofArrival hfound
  have hcounts := h record previous _ hrecord happroach
  have hstop : record.stop = (journey.outerRide .reverse).board := hstop
  simp only [hstop, htime, ← hresolved.boardSlack, ← hreads.walks.1] at hcounts
  exact hcounts

end FinalArrival.CountsWayOut

namespace Reconstruction

variable {c : Reconstruction} {table : Arrivals} {arrival : FinalArrival}
  {recorded : RecordedJourney} {ridden : Linked (Option Span) Ridden}
  {settled : Linked Change Ridden} {j : Journey}

/-- No rule takes the slack on the outer sides of the rides. -/
theorem Steps.outerSlack (h : c.Steps table arrival recorded ridden settled) :
    settled.first.ride.boardSlack = recorded.rides.first.boardSlack ∧
      settled.first.ride.time = recorded.rides.first.time ∧
      settled.last.ride.alightSlack = recorded.rides.last.alightSlack ∧
      settled.last.ride.time = recorded.rides.last.time := by
  obtain ⟨rfl, -, -⟩ := Change.ofRides_eq_ok_iff.1 h.settles
  obtain ⟨after, hfirst⟩ := Change.exists_first_settled c.rules none ridden.first ridden.rest
  obtain ⟨before, hlast⟩ := Change.exists_last_settled c.rules none ridden.first ridden.rest
  rw [hfirst, hlast, ← h.assigns.rides, Linked.last_map]
  exact ⟨rfl, rfl, rfl, rfl⟩

/-- A journey whose trips were searched for reaches the destination no later, or leaves the origin
no earlier, than an arrival says that counts its way out. -/
theorem within_of_journey (hexact : c.approximate = false) (h : c.journey table arrival = .ok j)
    (hcounts : arrival.CountsWayOut c.direction c.slack table) :
    match c.direction with
    | .forward => j.endTime ≤ arrival.time
    | .reverse => arrival.time ≤ j.startTime := by
  obtain ⟨recorded, ridden, settled, hsteps, -, hstreet⟩ := exists_streetLegs_of_journey h
  have hfound := hsteps.found
  have hontime := hsteps.onTime hexact
  obtain ⟨hboard, hboardTime, halight, halightTime⟩ := hsteps.outerSlack
  cases hc : c.direction with
  | forward =>
    rw [hc] at hcounts hfound hontime
    have hbound := hcounts.of_forward hfound
    have hlate : settled.last.alightTime ≤ settled.last.ride.time :=
      hontime _ settled.last_mem_toList
    have hstart := hstreet.lastStart
    have hfinish := hstreet.lastFinish
    rw [halightTime, Time.le_iff] at hlate
    rw [halight] at hstart
    show j.last.finish.seconds ≤ arrival.time.seconds
    omega
  | reverse =>
    rw [hc] at hcounts hfound hontime
    have hbound := hcounts.of_reverse hfound
    have hearly : settled.first.ride.time ≤ settled.first.boardTime :=
      hontime _ (Linked.first_mem_toList settled)
    have hstart := hstreet.firstStart
    have hfinish := hstreet.firstFinish
    rw [hboardTime, Time.le_iff] at hearly
    rw [hboard] at hfinish
    show arrival.time.seconds ≤ j.first.start.seconds
    omega

end Reconstruction

/-! ## Result sets -/

theorem TimeBound.admits_forDirection_iff {direction : Direction} {limit time : Time} :
    (TimeBound.forDirection direction limit).admits time = true ↔
      match direction with
      | .forward => time ≤ limit
      | .reverse => limit ≤ time := by
  cases direction with
  | forward => exact decide_eq_true_iff
  | reverse => exact decide_eq_true_iff

namespace ResultSet

theorem endTime_stamp (s : ResultSet) (j : Journey) : (s.stamp j).endTime = j.endTime := by
  unfold stamp
  cases s.iteration <;> rfl

theorem startTime_stamp (s : ResultSet) (j : Journey) : (s.stamp j).startTime = j.startTime := by
  unfold stamp
  cases s.iteration <;> rfl

end ResultSet

namespace Search

/-- The time limit of a search binds the journeys that its result set keeps, and not only the times
that were offered, if trips are searched for and every offered time counts the way out. -/
theorem journeys_within_limit {c : Search} {s : ResultSet} (hs : c.Creates s) {limit : Time}
    (hlimit : c.settings.timeLimit = some limit) (hexact : c.settings.approximate = false)
    (actions : List ResultSet.Action)
    (hoffers : ∀ table arrival, .offer table arrival ∈ actions →
      arrival.CountsWayOut c.settings.direction c.slack table) :
    ∀ j ∈ (s.run actions).journeys,
      match c.settings.direction with
      | .forward => j.endTime ≤ limit
      | .reverse => limit ≤ j.startTime := by
  intro j hj
  have hfresh := hs.fresh
  obtain ⟨tariff, hrebuild, -⟩ := hfresh.rebuild
  have hmem := ResultSet.mem_offered_of_mem_journeys hfresh.journeys hj
  obtain ⟨before, table, arrival, after, rfl, hput⟩ := ResultSet.mem_offered_iff.1 hmem
  obtain ⟨hadm, found, hfound, rfl⟩ := ResultSet.candidate?_eq_some_iff.1 hput
  -- the reconstruction and the limit of a later set are those of the set at the start
  obtain ⟨-, hsameRebuild, hsameLimit⟩ := s.sameSearch_run before
  rw [hsameRebuild, hrebuild] at hfound
  rw [ResultSet.admits, hsameLimit, hfresh.limit, SearchSettings.limit, hlimit] at hadm
  have hwithin := TimeBound.admits_forDirection_iff.1 hadm
  have hcounts := hoffers table arrival (by simp)
  have hjourney : match c.settings.direction with
      | .forward => found.endTime ≤ arrival.time
      | .reverse => arrival.time ≤ found.startTime :=
    Reconstruction.within_of_journey hexact hfound hcounts
  cases hdirection : c.settings.direction with
  | forward =>
    rw [hdirection] at hwithin hjourney
    show (ResultSet.stamp _ found).endTime ≤ limit
    rw [ResultSet.endTime_stamp]
    exact Time.le_trans hjourney hwithin
  | reverse =>
    rw [hdirection] at hwithin hjourney
    show limit ≤ (ResultSet.stamp _ found).startTime
    rw [ResultSet.startTime_stamp]
    exact Time.le_trans hwithin hjourney

/-- The search over the feeder and its connections, with slack and a limit of two past nine. -/
def limitedSearch : Search :=
  { settings := { timeLimit := some (.ofHms 9 2 0) }
    network := Reconstruction.patientSearch.network
    slack := Reconstruction.patientSearch.slack }

/-- The result set of that search. -/
def limitedSet : ResultSet :=
  { criteria := ⟨.nothing, .ignored⟩
    rebuild := (limitedSearch.reconstruction none).journey
    limit := some (.latestArrival (.ofHms 9 2 0)) }

/-- The arrival behind the connection, with a minute of slack and a minute of walk counted. -/
def countedArrival : FinalArrival := { feederArrival with time := .ofHms 9 2 0 }

/-- The arrival is offered at the limit, and the journey by the late connection ends well within. -/
theorem journeys_within_limit_feeder :
    let actions : List ResultSet.Action := [.offer feederTable countedArrival]
    limitedSearch.Creates limitedSet ∧
      countedArrival.CountsWayOut .forward limitedSearch.slack feederTable ∧
      ∃ j ∈ (limitedSet.run actions).journeys, j.endTime = .ofHms 8 42 0 ∧
        j.endTime ≤ .ofHms 9 2 0 := by
  intro actions
  have hcreates : limitedSearch.Creates limitedSet := .results rfl
  have hcounts : countedArrival.CountsWayOut .forward limitedSearch.slack feederTable := by
    intro record previous hop hrecord happroach
    obtain rfl := Option.some.inj hrecord
    cases happroach
    decide
  have hoffers : ∀ table arrival, .offer table arrival ∈ actions →
      arrival.CountsWayOut .forward limitedSearch.slack table := by
    intro table arrival hmem
    cases List.mem_singleton.1 hmem
    exact hcounts
  have hends : (limitedSet.run actions).journeys.map Journey.endTime = [.ofHms 8 42 0] := by decide
  obtain ⟨j, hj, hend⟩ := List.map_eq_singleton_iff.1 hends
  have hmem : j ∈ (limitedSet.run actions).journeys := by simp [hj]
  have hlimit := journeys_within_limit hcreates rfl rfl actions hoffers j hmem
  exact ⟨hcreates, hcounts, j, hmem, hend, hlimit⟩

end Search

end Journeys
