import Journeys.Proofs.Failure
import Journeys.Proofs.Linked
import Journeys.Proofs.Timing
import Mathlib.Data.List.Chain

/-!
# Proofs: what a recorded journey is

A table may hold any records, and a journey comes out of it only if its chain passed every check
along the way. `Trail.Followed` says what these checks leave: a chain of records from an arrival
down to an access walk. The rides that are read from it spell the same steps again
(`RecordedJourney.steps`), so whatever holds along the chain holds along the rides.
-/

namespace Journeys

/-- Whether a step is a ride. -/
def RecordedStep.isRide : RecordedStep → Bool
  | .ride _ _ _ _ => true
  | .walk _ => false

namespace Trail

variable {table : Arrivals} {direction : Direction}

theorem lookup_eq_ok_iff {id : RecordId} {record : ArrivalRecord} :
    lookup table id = .ok record ↔ table.get? id = some record := by
  unfold lookup
  cases table.get? id <;> simp

theorem expectRound_eq_ok_iff {record : ArrivalRecord} {round : Nat} {u : Unit} :
    expectRound record round = .ok u ↔ record.round = round := by
  unfold expectRound
  split <;> simp_all

/-- The trail from a record down to the access walk of its chain. Every back-pointer leads to a
record, and the rounds count the rides. -/
inductive Followed (table : Arrivals) (direction : Direction) : ArrivalRecord → Trail → Prop
  /-- An access walk in round 0 ends the chain. -/
  | access {record : ArrivalRecord} {walk : StreetWalk} (happroach : record.approach = .access walk)
      (hstop : walk.stop = record.stop) (hround : record.round = 0) :
      Followed table direction record { steps := [], start := walk, anchor := record.time }
  /-- A ride comes from a record of the round before. -/
  | ride {record before : ArrivalRecord} {previous : RecordId} {hop : Hop} {trail : Trail}
      (happroach : record.approach = .ride previous hop)
      (hbefore : table.get? previous = some before) (hround : record.round = before.round + 1)
      (htrail : Followed table direction before trail) :
      Followed table direction record
        { trail with steps := recordedRide direction hop before record :: trail.steps }
  /-- A walk comes from a record of the same round. -/
  | walk {record before : ArrivalRecord} {previous : RecordId} {duration : Span} {trail : Trail}
      (happroach : record.approach = .walk previous duration)
      (hbefore : table.get? previous = some before) (hround : record.round = before.round)
      (htrail : Followed table direction before trail) :
      Followed table direction record { trail with steps := .walk duration :: trail.steps }

/-- Whatever following the back-pointers gives is the trail of the chain. -/
theorem followed_of_follow {fuel : Nat} {record : ArrivalRecord} {trail : Trail}
    (h : follow table direction fuel record = .ok trail) :
    Followed table direction record trail ∧ trail.steps.length < fuel := by
  induction fuel generalizing record trail with
  | zero => cases h
  | succ fuel ih =>
    unfold follow at h
    -- the cases are the approaches: an access walk, a ride, a walk
    split at h
    · rename_i walk happroach
      split at h
      · cases h
      · rename_i hstop
        obtain ⟨_, hround, hpure⟩ := bind_eq_ok_iff.1 h
        rw [← pure_eq_ok_iff.1 hpure]
        exact ⟨.access happroach (Decidable.not_not.1 hstop) (expectRound_eq_ok_iff.1 hround),
          Nat.succ_pos fuel⟩
    · rename_i previous hop happroach
      obtain ⟨before, hbefore, h⟩ := bind_eq_ok_iff.1 h
      split at h
      · cases h
      · rename_i hpos
        obtain ⟨_, hround, h⟩ := bind_eq_ok_iff.1 h
        obtain ⟨behind, hbehind, hpure⟩ := bind_eq_ok_iff.1 h
        rw [← pure_eq_ok_iff.1 hpure]
        have hround := expectRound_eq_ok_iff.1 hround
        obtain ⟨hfollowed, hlength⟩ := ih hbehind
        exact ⟨.ride happroach (lookup_eq_ok_iff.1 hbefore) (by omega) hfollowed,
          Nat.succ_lt_succ hlength⟩
    · rename_i previous duration happroach
      obtain ⟨before, hbefore, h⟩ := bind_eq_ok_iff.1 h
      obtain ⟨_, hround, h⟩ := bind_eq_ok_iff.1 h
      obtain ⟨behind, hbehind, hpure⟩ := bind_eq_ok_iff.1 h
      rw [← pure_eq_ok_iff.1 hpure]
      obtain ⟨hfollowed, hlength⟩ := ih hbehind
      exact ⟨.walk happroach (lookup_eq_ok_iff.1 hbefore) (expectRound_eq_ok_iff.1 hround).symm
        hfollowed, Nat.succ_lt_succ hlength⟩

/-- A trail that there is gets found, given a back-pointer more than it has steps. -/
theorem Followed.follow_eq {record : ArrivalRecord} {trail : Trail}
    (h : Followed table direction record trail) {fuel : Nat} (hfuel : trail.steps.length < fuel) :
    follow table direction fuel record = .ok trail := by
  obtain ⟨fuel, rfl⟩ : ∃ n, fuel = n + 1 := Nat.exists_eq_succ_of_ne_zero (by omega)
  induction h generalizing fuel with
  | @access record walk happroach hstop hround =>
    have hchecked : expectRound record 0 = .ok () := expectRound_eq_ok_iff.2 hround
    rw [follow, happroach]
    simp only [hstop, ne_eq, not_true_eq_false, if_false, hchecked, ok_bind]
    rfl
  | @ride record before previous hop trail happroach hbefore hround _ ih =>
    have hlength := Nat.lt_of_succ_lt_succ hfuel
    obtain ⟨fuel, rfl⟩ : ∃ n, fuel = n + 1 := Nat.exists_eq_succ_of_ne_zero (by omega)
    have hchecked : expectRound before (record.round - 1) = .ok () :=
      expectRound_eq_ok_iff.2 (by omega)
    have hpos : record.round ≠ 0 := by omega
    rw [follow, happroach]
    simp only [lookup_eq_ok_iff.2 hbefore, ok_bind, hpos, if_false, hchecked, ih fuel hlength]
    rfl
  | @walk record before previous duration trail happroach hbefore hround _ ih =>
    have hlength := Nat.lt_of_succ_lt_succ hfuel
    obtain ⟨fuel, rfl⟩ : ∃ n, fuel = n + 1 := Nat.exists_eq_succ_of_ne_zero (by omega)
    have hchecked : expectRound before record.round = .ok () :=
      expectRound_eq_ok_iff.2 hround.symm
    rw [follow, happroach]
    simp only [lookup_eq_ok_iff.2 hbefore, ok_bind, hchecked, ih fuel hlength]
    rfl

/-- The rounds of a chain count its rides. -/
theorem Followed.round_eq {record : ArrivalRecord} {trail : Trail}
    (h : Followed table direction record trail) :
    record.round = trail.steps.countP RecordedStep.isRide := by
  induction h with
  | access _ _ hround => exact hround
  | ride _ _ hround _ ih =>
    have hride (hop : Hop) (before record : ArrivalRecord) :
        (recordedRide direction hop before record).isRide = true := by
      cases direction <;> rfl
    rw [List.countP_cons_of_pos (hride _ _ _), hround, ih]
  | walk _ _ hround _ ih => rw [hround, ih, List.countP_cons_of_neg (by simp [RecordedStep.isRide])]

/-- The trail of an arrival starts at a record at the stop of its last walk, and in its round. A
chain has no more steps than the table has records, or it would be a loop. -/
theorem ofArrival_eq_ok_iff {arrival : FinalArrival} {trail : Trail} :
    ofArrival table direction arrival = .ok trail ↔
      ∃ record, table.get? arrival.previous = some record ∧ record.stop = arrival.egress.stop ∧
        record.round = arrival.round ∧ Followed table direction record trail ∧
        trail.steps.length ≤ table.size := by
  constructor
  · intro h
    obtain ⟨record, hrecord, h⟩ := bind_eq_ok_iff.1 h
    split at h
    · cases h
    · rename_i hstop
      obtain ⟨_, hround, h⟩ := bind_eq_ok_iff.1 h
      obtain ⟨hfollowed, hlength⟩ := followed_of_follow h
      exact ⟨record, lookup_eq_ok_iff.1 hrecord, Decidable.not_not.1 hstop,
        expectRound_eq_ok_iff.1 hround, hfollowed, Nat.le_of_lt_succ hlength⟩
  · rintro ⟨record, hrecord, hstop, hround, hfollowed, hlength⟩
    have hchecked : expectRound record arrival.round = .ok () := expectRound_eq_ok_iff.2 hround
    rw [ofArrival, lookup_eq_ok_iff.2 hrecord, ok_bind, if_neg (not_not_intro hstop), hchecked,
      ok_bind]
    exact hfollowed.follow_eq (Nat.lt_succ_of_le hlength)

/-- The steps of a trail in order of travel. -/
def travelled (direction : Direction) (trail : Trail) : List RecordedStep :=
  match direction with
  | .forward => trail.steps.reverse
  | .reverse => trail.steps

/-! ## The stops along a trail -/

/-- The steps lead from one stop to another: every ride starts where the step before it ended. A
walk may lead anywhere. -/
def Leads : Stop → List RecordedStep → Stop → Prop
  | s, [], t => s = t
  | s, .ride _ board alight _ :: steps, t => board = s ∧ Leads alight steps t
  | _, .walk _ :: steps, t => ∃ s, Leads s steps t

theorem Leads.append {s t u : Stop} {steps more : List RecordedStep} (h : Leads s steps t)
    (hmore : Leads t more u) : Leads s (steps ++ more) u := by
  induction steps generalizing s with
  | nil =>
    obtain rfl : s = t := h
    exact hmore
  | cons step steps ih =>
    cases step with
    | ride hop board alight time => exact ⟨h.1, ih h.2⟩
    | walk duration =>
      obtain ⟨s', h⟩ := h
      exact ⟨s', ih h⟩

/-- A forward search finds its way from the access walk to the record. -/
theorem Followed.leads_forward {record : ArrivalRecord} {trail : Trail}
    (h : Followed table .forward record trail) :
    Leads trail.start.stop trail.steps.reverse record.stop := by
  induction h with
  | access _ hstop _ => exact hstop
  | ride _ _ _ _ ih =>
    rw [List.reverse_cons]
    exact ih.append ⟨rfl, rfl⟩
  | walk _ _ _ _ ih =>
    rw [List.reverse_cons]
    exact ih.append ⟨_, rfl⟩

/-- A reverse search finds its way from the record to the access walk. -/
theorem Followed.leads_reverse {record : ArrivalRecord} {trail : Trail}
    (h : Followed table .reverse record trail) :
    Leads record.stop trail.steps trail.start.stop := by
  induction h with
  | access _ hstop _ => exact hstop.symm
  | ride _ _ _ _ ih => exact ⟨rfl, ih⟩
  | walk _ _ _ _ ih => exact ⟨_, ih⟩

/-! ## The records along a trail -/

/-- The record that a step comes from. -/
def StepOf (table : Arrivals) (step : RecordedStep) : Prop :=
  ∃ record ∈ table.records,
    match step with
    | .ride _ _ _ time => record.time = time
    | .walk duration => ∃ previous, record.approach = .walk previous duration

theorem mem_records_of_get? {id : RecordId} {record : ArrivalRecord}
    (h : table.get? id = some record) : record ∈ table.records :=
  Array.mem_of_getElem? h

/-- All that a trail says comes from the records of its table. -/
theorem Followed.from_records {record : ArrivalRecord} {trail : Trail}
    (h : Followed table direction record trail) (hrecord : record ∈ table.records) :
    (∀ step ∈ trail.steps, StepOf table step) ∧
      ∃ start ∈ table.records, start.approach = .access trail.start ∧
        start.time = trail.anchor := by
  induction h with
  | access happroach _ _ => exact ⟨by simp, _, hrecord, happroach, rfl⟩
  | ride _ hbefore _ _ ih =>
    obtain ⟨hsteps, hstart⟩ := ih (mem_records_of_get? hbefore)
    refine ⟨List.forall_mem_cons.2 ⟨⟨_, hrecord, ?_⟩, hsteps⟩, hstart⟩
    cases direction <;> rfl
  | walk happroach hbefore _ _ ih =>
    obtain ⟨hsteps, hstart⟩ := ih (mem_records_of_get? hbefore)
    exact ⟨List.forall_mem_cons.2 ⟨⟨_, hrecord, _, happroach⟩, hsteps⟩, hstart⟩

end Trail

/-- How long the walk of an approach takes, if it is one. -/
def Approach.duration? : Approach → Option Span
  | .access street => some street.duration
  | .ride _ _ => none
  | .walk _ duration => some duration

/-- All walks of a table, access walks included, last as long as `P` allows. -/
def Arrivals.WalksLast (P : Span → Prop) (table : Arrivals) : Prop :=
  ∀ record ∈ table.records, ∀ d, record.approach.duration? = some d → P d

instance (P : Span → Prop) [DecidablePred P] (table : Arrivals) : Decidable (table.WalksLast P) :=
  inferInstanceAs
    (Decidable (∀ record ∈ table.records, ∀ d, record.approach.duration? = some d → P d))

namespace RecordedRide

/-- The ride as a step of a chain. -/
def step (r : RecordedRide) : RecordedStep := .ride r.hop r.board r.alight r.time

/-- What the timetable and the network say about a ride. -/
structure Resolved (network : Network) (slack : SlackPolicy) (r : RecordedRide) : Prop where
  onwards : r.hop.boardPos < r.hop.alightPos
  pattern : network.pattern? r.hop.trip.pattern = some r.pattern
  board : r.pattern.stop? r.hop.boardPos = some r.board
  alight : r.pattern.stop? r.hop.alightPos = some r.alight
  recorded : r.pattern.trip? r.hop.trip.trip = some r.recorded
  boardSlack : r.boardSlack = (slack.board r.board r.hop.trip).clampNonneg
  alightSlack : r.alightSlack = (slack.alight r.alight r.hop.trip).clampNonneg

variable {network : Network} {slack : SlackPolicy}

theorem expectStop_eq_ok_iff {pattern : Pattern} {stop : Stop} {position : Nat} {u : Unit} :
    expectStop pattern stop position = .ok u ↔ pattern.stop? position = some stop := by
  unfold expectStop
  split <;> simp_all

/-- A ride that was looked up is the step that was asked for, with what the timetable and the
network say about it. -/
theorem resolved_of_resolve {hop : Hop} {board alight : Stop} {time : Time} {r : RecordedRide}
    (h : resolve network slack hop board alight time = .ok r) :
    r.step = .ride hop board alight time ∧ r.Resolved network slack := by
  unfold resolve at h
  split at h
  · cases h
  · rename_i hpos
    split at h
    · cases h
    · rename_i pattern hpattern
      obtain ⟨_, hboard, h⟩ := bind_eq_ok_iff.1 h
      obtain ⟨_, halight, h⟩ := bind_eq_ok_iff.1 h
      split at h
      · cases h
      · rename_i recorded hrecorded
        rw [← pure_eq_ok_iff.1 h]
        refine ⟨rfl, Nat.lt_of_not_le hpos, hpattern, ?_, ?_, hrecorded, rfl, rfl⟩
        · exact expectStop_eq_ok_iff.1 hboard
        · exact expectStop_eq_ok_iff.1 halight

theorem Resolved.boardPos_lt {r : RecordedRide} (h : r.Resolved network slack) :
    r.hop.boardPos < r.pattern.stops.length :=
  (List.getElem?_eq_some_iff.1 h.board).1

theorem Resolved.alightPos_lt {r : RecordedRide} (h : r.Resolved network slack) :
    r.hop.alightPos < r.pattern.stops.length :=
  (List.getElem?_eq_some_iff.1 h.alight).1

theorem Resolved.resolve_eq {r : RecordedRide} (h : r.Resolved network slack) :
    resolve network slack r.hop r.board r.alight r.time = .ok r := by
  have hboard : expectStop r.pattern r.board r.hop.boardPos = .ok () :=
    expectStop_eq_ok_iff.2 h.board
  have halight : expectStop r.pattern r.alight r.hop.alightPos = .ok () :=
    expectStop_eq_ok_iff.2 h.alight
  rw [resolve, if_neg (Nat.not_le.2 h.onwards), h.pattern]
  simp only [hboard, halight, ok_bind, h.recorded, ← h.boardSlack, ← h.alightSlack]
  rfl

theorem Resolved.zero_le_boardSlack {r : RecordedRide} (h : r.Resolved network slack) :
    Span.zero ≤ r.boardSlack := by
  rw [h.boardSlack]
  exact Span.zero_le_clampNonneg _

theorem Resolved.zero_le_alightSlack {r : RecordedRide} (h : r.Resolved network slack) :
    Span.zero ≤ r.alightSlack := by
  rw [h.alightSlack]
  exact Span.zero_le_clampNonneg _

end RecordedRide

namespace RecordedJourney

variable {network : Network} {slack : SlackPolicy}
  {resolve : Hop → Stop → Stop → Time → Except ReconstructionError RecordedRide}

/-- The steps behind a ride, spelled out again. -/
def restSteps (rest : List (Option Span × RecordedRide)) : List RecordedStep :=
  rest.flatMap fun (walk, r) => walk.toList.map .walk ++ [r.step]

/-- The steps of rides, spelled out again. -/
def steps (rides : Linked (Option Span) RecordedRide) : List RecordedStep :=
  rides.first.step :: restSteps rides.rest

theorem restSteps_cons (walk : Option Span) (r : RecordedRide)
    (rest : List (Option Span × RecordedRide)) :
    restSteps ((walk, r) :: rest) = walk.toList.map .walk ++ r.step :: restSteps rest := by
  simp [restSteps]

theorem steps_cons (a : RecordedRide) (walk : Option Span)
    (rides : Linked (Option Span) RecordedRide) :
    steps (rides.cons a walk) = a.step :: (walk.toList.map .walk ++ steps rides) :=
  congrArg (a.step :: ·) (restSteps_cons walk rides.first rides.rest)

/-- With or without a walk before it, a ride is looked up and the steps behind it are read. -/
theorem readRest_cons_ride (walk : Option Span) (hop : Hop) (board alight : Stop) (time : Time)
    (more : List RecordedStep) :
    readRest resolve walk (.ride hop board alight time :: more) = (do
      let ride ← resolve hop board alight time
      let rest ← readRest resolve none more
      return (walk, ride) :: rest) := by
  cases walk <;> rfl

/-- Reading the steps behind a ride loses and invents nothing. -/
theorem restSteps_of_readRest {P : RecordedRide → Prop}
    (hresolve : ∀ {hop board alight time r}, resolve hop board alight time = .ok r →
      r.step = .ride hop board alight time ∧ P r)
    {walk : Option Span} {more : List RecordedStep} {rest : List (Option Span × RecordedRide)}
    (h : readRest resolve walk more = .ok rest) :
    restSteps rest = walk.toList.map .walk ++ more ∧ ∀ p ∈ rest, P p.2 := by
  induction more generalizing walk rest with
  | nil =>
    cases walk with
    | none =>
      cases h
      exact ⟨rfl, by simp⟩
    | some duration => cases h
  | cons step more ih =>
    cases step with
    | ride hop board alight time =>
      rw [readRest_cons_ride] at h
      obtain ⟨r, hr, h⟩ := bind_eq_ok_iff.1 h
      obtain ⟨behind, hbehind, h⟩ := bind_eq_ok_iff.1 h
      obtain ⟨hsteps, hall⟩ := ih hbehind
      obtain ⟨hstep, hP⟩ := hresolve hr
      rw [← pure_eq_ok_iff.1 h]
      refine ⟨?_, List.forall_mem_cons.2 ⟨hP, hall⟩⟩
      rw [restSteps_cons, hsteps, hstep]
      rfl
    | walk duration =>
      cases walk with
      | none =>
        have hread : readRest resolve (some duration) more = .ok rest := h
        obtain ⟨hsteps, hall⟩ := ih hread
        exact ⟨hsteps, hall⟩
      | some _ => cases h

theorem steps_of_readRides {P : RecordedRide → Prop}
    (hresolve : ∀ {hop board alight time r}, resolve hop board alight time = .ok r →
      r.step = .ride hop board alight time ∧ P r)
    {all : List RecordedStep} {rides : Linked (Option Span) RecordedRide}
    (h : readRides resolve all = .ok rides) : steps rides = all ∧ ∀ r ∈ rides.toList, P r := by
  cases all with
  | nil => cases h
  | cons step more =>
    cases step with
    | walk duration => cases h
    | ride hop board alight time =>
      obtain ⟨first, hfirst, h⟩ := bind_eq_ok_iff.1 h
      obtain ⟨rest, hrest, h⟩ := bind_eq_ok_iff.1 h
      obtain ⟨hsteps, hall⟩ := restSteps_of_readRest hresolve hrest
      obtain ⟨hstep, hP⟩ := hresolve hfirst
      rw [← pure_eq_ok_iff.1 h]
      refine ⟨by simp [steps, hstep, hsteps], fun r hr => ?_⟩
      rcases Linked.mem_toList.1 hr with rfl | ⟨walk, hmem⟩
      · exact hP
      · exact hall _ hmem

/-- Whether steps that follow a ride, or a walk if the flag says otherwise, can be read: there are
no two walks in a row, and a ride is last. -/
def Tidy (afterRide : Bool) (more : List RecordedStep) : Prop :=
  (afterRide :: more.map RecordedStep.isRide).IsChain (fun a b => a = true ∨ b = true) ∧
    (afterRide :: more.map RecordedStep.isRide).getLast? = some true

/-- A step that is a ride is found in the timetable. -/
def Resolves
    (resolve : Hop → Stop → Stop → Time → Except ReconstructionError RecordedRide) :
    RecordedStep → Prop
  | .ride hop board alight time => ∃ r, resolve hop board alight time = .ok r
  | .walk _ => True

theorem tidy_cons {b : Bool} {step : RecordedStep} {more : List RecordedStep} :
    Tidy b (step :: more) ↔ (b = true ∨ step.isRide = true) ∧ Tidy step.isRide more := by
  rw [Tidy, Tidy, List.map_cons, List.isChain_cons_cons, List.getLast?_cons_cons, and_assoc]

theorem exists_readRest_iff {walk : Option Span} {more : List RecordedStep} :
    (∃ rest, readRest resolve walk more = .ok rest) ↔
      Tidy walk.isNone more ∧ ∀ step ∈ more, Resolves resolve step := by
  induction more generalizing walk with
  | nil =>
    cases walk with
    | none => simp [readRest, Tidy]
    | some d => simp [readRest, Tidy]
  | cons step more ih =>
    rw [tidy_cons, List.forall_mem_cons]
    cases step with
    | ride hop board alight time =>
      have hbehind := @ih none
      rw [readRest_cons_ride]
      constructor
      · rintro ⟨rest, h⟩
        obtain ⟨r, hr, h⟩ := bind_eq_ok_iff.1 h
        obtain ⟨behind, hmore, -⟩ := bind_eq_ok_iff.1 h
        obtain ⟨htidy, hall⟩ := hbehind.1 ⟨behind, hmore⟩
        exact ⟨⟨Or.inr rfl, htidy⟩, ⟨r, hr⟩, hall⟩
      · rintro ⟨⟨-, htidy⟩, ⟨r, hr⟩, hall⟩
        obtain ⟨behind, hmore⟩ := hbehind.2 ⟨htidy, hall⟩
        rw [hr, ok_bind, hmore]
        exact ⟨_, rfl⟩
    | walk d =>
      cases walk with
      | none =>
        have hbehind := @ih (some d)
        rw [show readRest resolve none (.walk d :: more) = readRest resolve (some d) more from rfl,
          hbehind]
        simp [RecordedStep.isRide, Resolves]
      | some d' => simp [readRest, RecordedStep.isRide]

/-- Steps can be read exactly if they have the form `Ride (Walk? Ride)*` and their rides are found
in the timetable. -/
theorem exists_readRides_iff {all : List RecordedStep} :
    (∃ rides, readRides resolve all = .ok rides) ↔
      (all.map RecordedStep.isRide).head? = some true ∧
        (all.map RecordedStep.isRide).getLast? = some true ∧
        (all.map RecordedStep.isRide).IsChain (fun a b => a = true ∨ b = true) ∧
        ∀ step ∈ all, Resolves resolve step := by
  cases all with
  | nil => simp [readRides]
  | cons step more =>
    cases step with
    | walk d => simp [readRides, RecordedStep.isRide]
    | ride hop board alight time =>
      have hrest := @exists_readRest_iff resolve none more
      rw [List.forall_mem_cons]
      constructor
      · rintro ⟨rides, h⟩
        obtain ⟨first, hfirst, h⟩ := bind_eq_ok_iff.1 h
        obtain ⟨rest, hmore, -⟩ := bind_eq_ok_iff.1 h
        obtain ⟨⟨hchain, hlast⟩, hall⟩ := hrest.1 ⟨rest, hmore⟩
        exact ⟨rfl, hlast, hchain, ⟨first, hfirst⟩, hall⟩
      · rintro ⟨-, hlast, hchain, ⟨first, hfirst⟩, hall⟩
        obtain ⟨rest, hmore⟩ := hrest.2 ⟨⟨hchain, hlast⟩, hall⟩
        rw [readRides, hfirst, ok_bind, hmore]
        exact ⟨_, rfl⟩

/-- Rides that are found in the timetable are read from their steps. -/
theorem readRides_steps {rides : Linked (Option Span) RecordedRide}
    (h : ∀ r ∈ rides.toList, resolve r.hop r.board r.alight r.time = .ok r) :
    readRides resolve (steps rides) = .ok rides := by
  have hrest (rest : List (Option Span × RecordedRide))
      (h : ∀ p ∈ rest, resolve p.2.hop p.2.board p.2.alight p.2.time = .ok p.2) :
      readRest resolve none (restSteps rest) = .ok rest := by
    induction rest with
    | nil => rfl
    | cons p rest ih =>
      obtain ⟨walk, r⟩ := p
      obtain ⟨hr, hmore⟩ := List.forall_mem_cons.1 h
      have hread : readRest resolve none (restSteps ((walk, r) :: rest)) =
          readRest resolve walk (r.step :: restSteps rest) := by
        cases walk <;> rfl
      rw [hread, RecordedRide.step, readRest_cons_ride, hr, ok_bind, ih hmore]
      rfl
  have hfirst := h rides.first (Linked.first_mem_toList rides)
  have hmore := hrest rides.rest fun p hp => h p.2 (Linked.mem_toList.2 (Or.inr ⟨p.1, hp⟩))
  rw [steps, RecordedRide.step, readRides, hfirst, ok_bind, hmore]
  rfl

/-- Rides whose steps lead from one stop to another start and end there, and where there is no walk
each is boarded where the one before it is left. -/
theorem chained_of_leads {s t : Stop} {first : RecordedRide}
    {rest : List (Option Span × RecordedRide)}
    (h : Trail.Leads s (first.step :: restSteps rest) t) :
    first.board = s ∧ (Linked.lastFrom first rest).alight = t ∧
      Linked.Chained (fun a walk b => walk = none → a.alight = b.board) first rest := by
  induction rest generalizing first s with
  | nil => exact ⟨h.1, h.2, trivial⟩
  | cons p rest ih =>
    obtain ⟨walk, b⟩ := p
    obtain ⟨hfirst, h⟩ := h
    cases walk with
    | none =>
      obtain ⟨hboard, hlast, hchain⟩ := ih h
      exact ⟨hfirst, hlast, fun _ => hboard.symm, hchain⟩
    | some duration =>
      obtain ⟨s', h⟩ := h
      obtain ⟨-, hlast, hchain⟩ := ih h
      exact ⟨hfirst, hlast, fun hnone => (Option.some_ne_none _ hnone).elim, hchain⟩

/-- What holds of every recorded journey, whatever the table it comes from. -/
structure Sound (network : Network) (slack : SlackPolicy) (journey : RecordedJourney) : Prop where
  resolved : ∀ r ∈ journey.rides.toList, r.Resolved network slack
  access : journey.rides.first.board = journey.access.stop
  egress : journey.rides.last.alight = journey.egress.stop
  joined : Linked.Chained (fun a walk b => walk = none → a.alight = b.board)
    journey.rides.first journey.rides.rest

/-- How a recorded journey comes out of the trail of its arrival. -/
structure Reads (network : Network) (slack : SlackPolicy) (direction : Direction)
    (egress : StreetWalk) (trail : Trail) (journey : RecordedJourney) : Prop where
  steps : steps journey.rides = Trail.travelled direction trail
  resolved : ∀ r ∈ journey.rides.toList, r.Resolved network slack
  anchor : journey.anchor = trail.anchor
  walks :
    match direction with
    | .forward => journey.access = trail.start ∧ journey.egress = egress
    | .reverse => journey.access = egress ∧ journey.egress = trail.start

theorem reads_of_ofTrail {direction : Direction} {egress : StreetWalk} {trail : Trail}
    {journey : RecordedJourney} (h : ofTrail network slack direction egress trail = .ok journey) :
    Reads network slack direction egress trail journey := by
  cases direction with
  | forward =>
    obtain ⟨rides, hrides, h⟩ := bind_eq_ok_iff.1 h
    obtain ⟨hsteps, hall⟩ := steps_of_readRides RecordedRide.resolved_of_resolve hrides
    rw [← pure_eq_ok_iff.1 h]
    exact ⟨hsteps, hall, rfl, rfl, rfl⟩
  | reverse =>
    obtain ⟨rides, hrides, h⟩ := bind_eq_ok_iff.1 h
    obtain ⟨hsteps, hall⟩ := steps_of_readRides RecordedRide.resolved_of_resolve hrides
    rw [← pure_eq_ok_iff.1 h]
    exact ⟨hsteps, hall, rfl, rfl, rfl⟩

variable {direction : Direction} {table : Arrivals} {arrival : FinalArrival}
  {journey : RecordedJourney}

/-- Whichever way the chain was recorded, its steps are those of the journey. -/
theorem Reads.mem_trail {egress : StreetWalk} {trail : Trail}
    (h : Reads network slack direction egress trail journey) {step : RecordedStep}
    (hstep : step ∈ RecordedJourney.steps journey.rides) : step ∈ trail.steps := by
  rw [h.steps] at hstep
  cases direction with
  | forward => exact List.mem_reverse.1 hstep
  | reverse => exact hstep

theorem countP_steps (rides : Linked (Option Span) RecordedRide) :
    (steps rides).countP RecordedStep.isRide = rides.length := by
  induction rides using Linked.induction with
  | single a => rfl
  | cons a walk rides ih =>
    have hwalk : (walk.toList.map RecordedStep.walk).countP RecordedStep.isRide = 0 := by
      cases walk <;> rfl
    rw [steps_cons, List.countP_cons_of_pos rfl, List.countP_append, hwalk, ih, Nat.zero_add]
    rfl

/-- The last check of a recorded journey never fails: the rounds of its chain were checked to count
the rides before. -/
theorem ofArrival_eq_ofTrail {trail : Trail}
    (h : Trail.ofArrival table direction arrival = .ok trail) :
    ofArrival network slack direction table arrival =
      ofTrail network slack direction arrival.egress trail := by
  obtain ⟨record, -, -, hround, hfollowed, -⟩ := Trail.ofArrival_eq_ok_iff.1 h
  rw [ofArrival, h, ok_bind]
  cases hread : ofTrail network slack direction arrival.egress trail with
  | error e => rfl
  | ok journey =>
    have htravelled : (Trail.travelled direction trail).countP RecordedStep.isRide =
        trail.steps.countP RecordedStep.isRide := by
      cases direction with
      | forward => exact List.countP_reverse
      | reverse => rfl
    have hcount : journey.rides.length = arrival.round := by
      rw [← countP_steps, (reads_of_ofTrail hread).steps, htravelled, ← hfollowed.round_eq, hround]
    rw [ok_bind, if_pos hcount]
    rfl

/-- Behind a recorded journey is the chain of its arrival. -/
theorem exists_followed_of_ofArrival
    (h : ofArrival network slack direction table arrival = .ok journey) :
    ∃ record trail, table.get? arrival.previous = some record ∧
      record.stop = arrival.egress.stop ∧ Trail.Followed table direction record trail ∧
      Reads network slack direction arrival.egress trail journey ∧
      journey.rides.length = arrival.round := by
  obtain ⟨trail, htrail, h⟩ := bind_eq_ok_iff.1 h
  obtain ⟨read, hread, h⟩ := bind_eq_ok_iff.1 h
  split at h
  · rename_i hlength
    obtain rfl := pure_eq_ok_iff.1 h
    obtain ⟨record, hrecord, hstop, -, hfollowed, -⟩ := Trail.ofArrival_eq_ok_iff.1 htrail
    exact ⟨record, trail, hrecord, hstop, hfollowed, reads_of_ofTrail hread, hlength⟩
  · cases h

theorem sound_of_ofArrival (h : ofArrival network slack direction table arrival = .ok journey) :
    journey.Sound network slack := by
  obtain ⟨record, trail, -, hstop, hfollowed, hreads, -⟩ := exists_followed_of_ofArrival h
  have hsteps := hreads.steps
  have hwalks := hreads.walks
  -- the chain ends at the first boarding going forward, and at the last alighting going back
  cases direction with
  | forward =>
    obtain ⟨haccess, hegress⟩ := hwalks
    have hleads := hfollowed.leads_forward
    rw [show trail.steps.reverse = steps journey.rides from hsteps.symm] at hleads
    obtain ⟨hfirst, hlast, hchain⟩ := chained_of_leads hleads
    refine ⟨hreads.resolved, ?_, ?_, hchain⟩
    · rw [hfirst, haccess]
    · rw [hegress, ← hstop]
      exact hlast
  | reverse =>
    obtain ⟨haccess, hegress⟩ := hwalks
    have hleads := hfollowed.leads_reverse
    rw [show trail.steps = steps journey.rides from hsteps.symm] at hleads
    obtain ⟨hfirst, hlast, hchain⟩ := chained_of_leads hleads
    refine ⟨hreads.resolved, ?_, ?_, hchain⟩
    · rw [hfirst, haccess, hstop]
    · rw [hegress]
      exact hlast

/-! ## Durations -/

theorem walk_mem_steps {rides : Linked (Option Span) RecordedRide} {d : Span}
    (h : some d ∈ rides.links) : RecordedStep.walk d ∈ steps rides := by
  obtain ⟨⟨walk, r⟩, hmem, hwalk⟩ := List.mem_map.1 h
  obtain rfl : walk = some d := hwalk
  exact List.mem_cons_of_mem _ (List.mem_flatMap.2 ⟨_, hmem, by simp⟩)

/-- The walks of a recorded journey last as long as records of the table say, or as the last walk of
the arrival does. -/
theorem walks_of_ofArrival (h : ofArrival network slack direction table arrival = .ok journey)
    {P : Span → Prop} (htable : table.WalksLast P) (hegress : P arrival.egress.duration) :
    P journey.access.duration ∧ P journey.egress.duration ∧
      ∀ d, some d ∈ journey.rides.links → P d := by
  obtain ⟨record, trail, hrecord, -, hfollowed, hreads, -⟩ := exists_followed_of_ofArrival h
  obtain ⟨hfrom, start, hstart, happroach, -⟩ :=
    hfollowed.from_records (Trail.mem_records_of_get? hrecord)
  have hend : P trail.start.duration :=
    htable start hstart _ (by rw [happroach]; rfl)
  have hbetween : ∀ d, some d ∈ journey.rides.links → P d := by
    intro d hd
    obtain ⟨record, hrecord, previous, hwalk⟩ := hfrom _ (hreads.mem_trail (walk_mem_steps hd))
    exact htable record hrecord d (by rw [hwalk]; rfl)
  have hwalks := hreads.walks
  cases direction with
  | forward =>
    obtain ⟨haccess, hegress'⟩ := hwalks
    rw [haccess, hegress']
    exact ⟨hend, hegress, hbetween⟩
  | reverse =>
    obtain ⟨haccess, hegress'⟩ := hwalks
    rw [haccess, hegress']
    exact ⟨hegress, hend, hbetween⟩

/-! ## Times -/

theorem step_mem_steps {rides : Linked (Option Span) RecordedRide} {r : RecordedRide}
    (h : r ∈ rides.toList) : r.step ∈ steps rides := by
  rcases Linked.mem_toList.1 h with rfl | ⟨walk, hmem⟩
  · exact List.mem_cons_self
  · exact List.mem_cons_of_mem _ (List.mem_flatMap.2 ⟨_, hmem, by simp⟩)

/-- The times of rides are those of records. -/
theorem exists_time_of_ofArrival
    (h : ofArrival network slack direction table arrival = .ok journey) {r : RecordedRide}
    (hr : r ∈ journey.rides.toList) : ∃ record ∈ table.records, record.time = r.time := by
  obtain ⟨record, trail, hrecord, -, hfollowed, hreads, -⟩ := exists_followed_of_ofArrival h
  obtain ⟨hfrom, -⟩ := hfollowed.from_records (Trail.mem_records_of_get? hrecord)
  exact hfrom _ (hreads.mem_trail (step_mem_steps hr))

/-- The time at which the search starts is that of a record. -/
theorem exists_anchor_of_ofArrival
    (h : ofArrival network slack direction table arrival = .ok journey) :
    ∃ record ∈ table.records, record.time = journey.anchor := by
  obtain ⟨record, trail, hrecord, -, hfollowed, hreads, -⟩ := exists_followed_of_ofArrival h
  obtain ⟨-, start, hstart, -, htime⟩ :=
    hfollowed.from_records (Trail.mem_records_of_get? hrecord)
  exact ⟨start, hstart, htime.trans hreads.anchor.symm⟩

end RecordedJourney

end Journeys
