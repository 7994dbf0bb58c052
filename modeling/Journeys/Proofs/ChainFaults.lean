import Journeys.Proofs.RecordedJourney
import Journeys.Reconstruction

/-!
# Proofs: faults of a chain

Only following the back-pointers can show that a chain of records is broken: that it leads to no
record, runs in a loop, miscounts its rounds or contradicts its stops. The steps behind it have
failures of their own. The order of rides and walks is left to reading, and trips, rules and times
to the steps that look for them. So if the trail of an arrival is found, a broken chain is never
reported, whatever becomes of the arrival.

What is said of broken chains holds of any failures that the steps behind the chain do not have
(`Spares`), and is proved for all of them at once.
-/

namespace Journeys

variable {ε α β : Type}

/-- The failure is about the chain of records itself. -/
def ReconstructionError.breaksChain : ReconstructionError → Bool
  | dangling _ => true
  | cyclic => true
  | legOrder fault => fault = .rideInRoundZero
  | roundMismatch _ _ => true
  | walkMismatch _ _ => true
  | stopMismatch _ _ => false
  | unknownTrip _ => false
  | tripNotFound _ _ => false
  | forbiddenTransfer _ _ _ => false
  | transferTimeViolated _ _ => false
  | timeOverflow => false

/-- The failure is about something else than the chain of records. -/
def ReconstructionError.sparesChain (e : ReconstructionError) : Bool := !e.breaksChain

/-- The arrival is unusable because its chain is broken. -/
def RebuildError.breaksChain : RebuildError → Bool
  | unusable error => error.breaksChain
  | inconsistent _ => false

/-- An arrival is unusable in one of these ways. -/
def RebuildError.isUnusable (faults : ReconstructionError → Bool) : RebuildError → Bool
  | unusable error => faults error
  | inconsistent _ => false

theorem RebuildError.isUnusable_breaksChain :
    isUnusable ReconstructionError.breaksChain = breaksChain := by
  funext e
  cases e <;> rfl

/-- A step does not fail in one of these ways, whatever else may become of it. -/
def Avoids (faults : ε → Bool) (x : Except ε α) : Prop := ∀ e, x = .error e → faults e = false

namespace Avoids

variable {faults : ε → Bool}

theorem ok (a : α) : Avoids faults (.ok a : Except ε α) := nofun

theorem error {e : ε} (h : faults e = false) : Avoids faults (.error e : Except ε α) := by
  rintro e' he
  cases he
  exact h

theorem bind {x : Except ε α} {f : α → Except ε β} (hx : Avoids faults x)
    (hf : ∀ a, Avoids faults (f a)) : Avoids faults (x >>= f) := by
  cases x with
  | ok a => exact hf a
  | error e => exact error (hx e rfl)

theorem unusable {faults : ReconstructionError → Bool} {x : Except ReconstructionError α}
    (hx : Avoids faults x) : Avoids (RebuildError.isUnusable faults) (Placement.unusable x) := by
  cases x with
  | ok a => exact ok a
  | error e => exact error (hx e rfl)

theorem inconsistent {faults : ReconstructionError → Bool} (x : Except JourneyError α) :
    Avoids (RebuildError.isUnusable faults) (Placement.inconsistent x) := by
  cases x with
  | ok a => exact ok a
  | error e => exact error rfl

end Avoids

/-- Failures that reading the steps of a chain, finding trips and placing legs do not have. -/
structure Spares (faults : ReconstructionError → Bool) : Prop where
  legOrder : ∀ fault, fault ≠ .rideInRoundZero → faults (.legOrder fault) = false
  stopMismatch : ∀ stop position, faults (.stopMismatch stop position) = false
  unknownTrip : ∀ trip, faults (.unknownTrip trip) = false
  tripNotFound : ∀ pattern time, faults (.tripNotFound pattern time) = false
  forbiddenTransfer : ∀ a b stop, faults (.forbiddenTransfer a b stop) = false
  timeOverflow : faults .timeOverflow = false

theorem spares_breaksChain : Spares ReconstructionError.breaksChain := by
  refine ⟨fun fault h => ?_, fun _ _ => rfl, fun _ => rfl, fun _ _ => rfl, fun _ _ _ => rfl, rfl⟩
  exact decide_eq_false h

variable {faults : ReconstructionError → Bool}

/-! ## Following -/

namespace Trail

open ReconstructionError (sparesChain)

variable {table : Arrivals} {direction : Direction}

theorem avoids_lookup (id : RecordId) : Avoids sparesChain (lookup table id) := by
  unfold lookup
  split
  · exact .ok _
  · exact .error rfl

theorem avoids_expectRound (record : ArrivalRecord) (round : Nat) :
    Avoids sparesChain (expectRound record round) := by
  unfold expectRound
  split
  · exact .ok ()
  · exact .error rfl

theorem avoids_follow (fuel : Nat) (record : ArrivalRecord) :
    Avoids sparesChain (follow table direction fuel record) := by
  induction fuel generalizing record with
  | zero => exact .error rfl
  | succ fuel ih =>
    unfold follow
    split
    · split
      · exact .error rfl
      · exact (avoids_expectRound _ _).bind fun _ => .ok _
    · refine (avoids_lookup _).bind fun before => ?_
      split
      · exact .error rfl
      · exact (avoids_expectRound _ _).bind fun _ => (ih before).bind fun _ => .ok _
    · refine (avoids_lookup _).bind fun before => ?_
      exact (avoids_expectRound _ _).bind fun _ => (ih before).bind fun _ => .ok _

/-- If the trail of an arrival is not found, its chain is broken. -/
theorem breaksChain_of_ofArrival {arrival : FinalArrival} {e : ReconstructionError}
    (h : ofArrival table direction arrival = .error e) : e.breaksChain = true := by
  have havoids : Avoids sparesChain (ofArrival table direction arrival) := by
    refine (avoids_lookup _).bind fun record => ?_
    split
    · exact .error rfl
    · exact (avoids_expectRound _ _).bind fun _ => avoids_follow _ record
  simpa [sparesChain] using havoids e h

end Trail

/-! ## Reading -/

namespace RecordedRide

theorem avoids_expectStop (h : Spares faults) (pattern : Pattern) (stop : Stop) (position : Nat) :
    Avoids faults (expectStop pattern stop position) := by
  unfold expectStop
  split
  · exact .ok ()
  · exact .error (h.stopMismatch _ _)

theorem avoids_resolve (h : Spares faults) (network : Network) (slack : SlackPolicy) (hop : Hop)
    (board alight : Stop) (time : Time) :
    Avoids faults (resolve network slack hop board alight time) := by
  unfold resolve
  split
  · exact .error (h.legOrder _ (by decide))
  · split
    · exact .error (h.unknownTrip _)
    · refine (avoids_expectStop h _ _ _).bind fun _ => (avoids_expectStop h _ _ _).bind fun _ => ?_
      split
      · exact .error (h.unknownTrip _)
      · exact .ok _

end RecordedRide

namespace RecordedJourney

variable {resolve : Hop → Stop → Stop → Time → Except ReconstructionError RecordedRide}

theorem avoids_readRest (h : Spares faults)
    (hresolve : ∀ hop board alight time, Avoids faults (resolve hop board alight time))
    (walk : Option Span) (steps : List RecordedStep) :
    Avoids faults (readRest resolve walk steps) := by
  induction steps generalizing walk with
  | nil =>
    cases walk with
    | none => exact .ok []
    | some d => exact .error (h.legOrder _ (by decide))
  | cons step steps ih =>
    cases step with
    | ride hop board alight time =>
      rw [readRest_cons_ride]
      exact (hresolve _ _ _ _).bind fun _ => (ih none).bind fun _ => .ok _
    | walk d =>
      cases walk with
      | none => exact ih (some d)
      | some d' => exact .error (h.legOrder _ (by decide))

theorem avoids_readRides (h : Spares faults)
    (hresolve : ∀ hop board alight time, Avoids faults (resolve hop board alight time))
    (steps : List RecordedStep) : Avoids faults (readRides resolve steps) := by
  cases steps with
  | nil => exact .error (h.legOrder _ (by decide))
  | cons step steps =>
    cases step with
    | ride hop board alight time =>
      exact (hresolve _ _ _ _).bind fun _ =>
        (avoids_readRest h hresolve none steps).bind fun _ => .ok _
    | walk d => exact .error (h.legOrder _ (by decide))

theorem avoids_ofTrail (h : Spares faults) (network : Network) (slack : SlackPolicy)
    (direction : Direction) (egress : StreetWalk) (trail : Trail) :
    Avoids faults (ofTrail network slack direction egress trail) := by
  have hresolve := RecordedRide.avoids_resolve h network slack
  cases direction with
  | forward => exact (avoids_readRides h hresolve _).bind fun _ => .ok _
  | reverse => exact (avoids_readRides h hresolve _).bind fun _ => .ok _

/-- Once the trail of an arrival is found, nothing is wrong with its rounds either. -/
theorem avoids_ofArrival (h : Spares faults) (network : Network) (slack : SlackPolicy)
    {direction : Direction} {table : Arrivals} {arrival : FinalArrival} {trail : Trail}
    (htrail : Trail.ofArrival table direction arrival = .ok trail) :
    Avoids faults (ofArrival network slack direction table arrival) := by
  rw [ofArrival_eq_ofTrail htrail]
  exact avoids_ofTrail h network slack direction arrival.egress trail

end RecordedJourney

/-! ## Trips -/

theorem Time.avoids_later (h : faults .timeOverflow = false) (t : Time) (d : Span) :
    Avoids faults (t.later d) := by
  unfold later
  split
  · exact .ok _
  · exact .error h

theorem Time.avoids_earlier (h : faults .timeOverflow = false) (t : Time) (d : Span) :
    Avoids faults (t.earlier d) := by
  unfold earlier
  split
  · exact .ok _
  · exact .error h

theorem avoids_neededGap (h : faults .timeOverflow = false) (before : RecordedRide)
    (walk : Option Span) (after : RecordedRide) (rule : Option TransferRule) :
    Avoids faults (neededGap before walk after rule) := by
  unfold neededGap
  split
  · exact .ok _
  · exact .ok _
  · dsimp only
    split
    · exact .ok _
    · exact .error h

theorem Ridden.avoids_ofTrip (h : Spares faults) (ride : RecordedRide) (slot : TripSlot)
    (trip : Trip) : Avoids faults (ofTrip ride slot trip) := by
  unfold ofTrip
  split
  · exact .error (h.stopMismatch _ _)
  · exact .error (h.stopMismatch _ _)
  · exact .ok _

namespace TripSearch

theorem avoids_requirement (h : faults .timeOverflow = false) (s : TripSearch) (trip : Trip) :
    Avoids faults (s.requirement trip) := by
  have hlater := Time.avoids_later h
  have hearlier := Time.avoids_earlier h
  unfold requirement
  split
  · exact (hlater _ _).bind fun _ => .ok _
  · exact (hearlier _ _).bind fun _ => .ok _
  · exact (avoids_neededGap h _ _ _ _).bind fun _ => (hlater _ _).bind fun _ => .ok _
  · exact (avoids_neededGap h _ _ _ _).bind fun _ => (hearlier _ _).bind fun _ => .ok _

theorem spares_forbidden (h : Spares faults) {s : TripSearch} {r : Ridden}
    {e : ReconstructionError} (he : s.forbidden r = some e) : faults e = false := by
  obtain ⟨neighbour, -, rfl⟩ := Option.map_eq_some_iff.1 he
  cases s.direction with
  | forward => exact h.forbiddenTransfer _ _ _
  | reverse => exact h.forbiddenTransfer _ _ _

/-- A scan ends with a trip, with no trip, or with a forbidden transfer that it passed over. -/
theorem avoids_scan (h : Spares faults) (s : TripSearch) (candidates : List (Trip × Nat))
    {skipped : Option ReconstructionError} (hskipped : ∀ e, skipped = some e → faults e = false) :
    Avoids faults (s.scan candidates skipped) := by
  have hfailure {skipped : Option ReconstructionError}
      (hskipped : ∀ e, skipped = some e → faults e = false) :
      faults (s.failure skipped) = false := by
    cases skipped with
    | none => exact h.tripNotFound _ _
    | some e => exact hskipped e rfl
  induction candidates generalizing skipped with
  | nil => exact .error (hfailure hskipped)
  | cons candidate candidates ih =>
    obtain ⟨trip, index⟩ := candidate
    refine (s.avoids_requirement h.timeOverflow trip).bind fun ⟨rule, bound⟩ => ?_
    refine (Ridden.avoids_ofTrip h _ _ _).bind fun r => ?_
    split
    · exact ih hskipped
    · split
      · refine ih fun e he => ?_
        rcases Option.or_eq_some_iff.1 he with hbefore | ⟨-, hforbidden⟩
        · exact hskipped e hbefore
        · exact spares_forbidden h hforbidden
      · split
        · exact .error (hfailure hskipped)
        · exact .ok r

end TripSearch

namespace TripChoice

theorem avoids_choose (h : Spares faults) (c : TripChoice) (ride : RecordedRide)
    (neighbour : Option Neighbour) : Avoids faults (c.choose ride neighbour) := by
  unfold choose
  split
  · exact Ridden.avoids_ofTrip h _ _ _
  · rw [TripSearch.run]
    exact TripSearch.avoids_scan h _ _ (by simp)

theorem avoids_chooseRest (h : Spares faults) (c : TripChoice) (previous : Ridden)
    (rides : List (Option Span × RecordedRide)) : Avoids faults (c.chooseRest previous rides) := by
  induction rides generalizing previous with
  | nil => exact .ok []
  | cons p rides ih =>
    exact (c.avoids_choose h _ _).bind fun r => (ih r).bind fun _ => .ok _

theorem avoids_chooseReverse (h : Spares faults) (c : TripChoice) (ride : RecordedRide)
    (rides : List (Option Span × RecordedRide)) : Avoids faults (c.chooseReverse ride rides) := by
  induction rides generalizing ride with
  | nil => exact (c.avoids_choose h _ _).bind fun _ => .ok _
  | cons p rides ih =>
    exact (ih p.2).bind fun behind => (c.avoids_choose h _ _).bind fun _ => .ok _

theorem avoids_chooseAll (h : Spares faults) (c : TripChoice)
    (rides : Linked (Option Span) RecordedRide) : Avoids faults (c.chooseAll rides) := by
  unfold chooseAll
  split
  · exact (c.avoids_choose h _ _).bind fun first =>
      (c.avoids_chooseRest h first _).bind fun _ => .ok _
  · exact c.avoids_chooseReverse h _ _

end TripChoice

/-! ## Rules -/

namespace Change

theorem avoids_settle (h : Spares faults) (rules : TransferRules) (a : Ridden)
    (rest : List (Option Span × Ridden)) : Avoids faults (settle rules a rest) := by
  induction rest generalizing a with
  | nil => exact .ok _
  | cons p rest ih =>
    unfold settle
    split
    · exact (ih _).bind fun _ => .ok _
    · exact .error (h.forbiddenTransfer _ _ _)
    · exact (ih _).bind fun _ => .ok _

theorem avoids_checkRules (h : ∀ a b, faults (.transferTimeViolated a b) = false) (a : Ridden)
    (rest : List (Change × Ridden)) : Avoids faults (checkRules a rest) := by
  induction rest generalizing a with
  | nil => exact .ok ()
  | cons p rest ih =>
    unfold checkRules
    split
    · exact ih _
    · split
      · exact ih _
      · exact .error (h _ _)

theorem avoids_ofRides (h : Spares faults)
    (hrules : ∀ a b, faults (.transferTimeViolated a b) = false) (rules : TransferRules)
    (rides : Linked (Option Span) Ridden) : Avoids faults (ofRides rules rides) :=
  (avoids_settle h rules _ _).bind fun _ => (avoids_checkRules hrules _ _).bind fun _ => .ok _

end Change

/-! ## Legs -/

namespace Placement

theorem avoids_later (h : Spares faults) (t : Time) (d : Span) :
    Avoids (RebuildError.isUnusable faults) (unusable (t.later d)) :=
  (t.avoids_later h.timeOverflow d).unusable

theorem avoids_earlier (h : Spares faults) (t : Time) (d : Span) :
    Avoids (RebuildError.isUnusable faults) (unusable (t.earlier d)) :=
  (t.avoids_earlier h.timeOverflow d).unusable

theorem avoids_transferLegs (h : Spares faults) (a : Ridden) (change : Change) (b : Ridden) :
    Avoids (RebuildError.isUnusable faults) (transferLegs a change b) := by
  unfold transferLegs
  split
  · exact .ok []
  · exact (avoids_later h _ _).bind fun _ => (avoids_later h _ _).bind fun _ =>
      (Avoids.inconsistent _).bind fun _ => .ok _

theorem avoids_egressLeg (h : Spares faults) (egress : StreetWalk) (r : Ridden) :
    Avoids (RebuildError.isUnusable faults) (egressLeg egress r) :=
  (avoids_later h _ _).bind fun _ => (avoids_later h _ _).bind fun _ => .inconsistent _

theorem avoids_legsFrom (h : Spares faults) (egress : StreetWalk) (rule : Option TransferRule)
    (r : Ridden) (rest : List (Change × Ridden)) :
    Avoids (RebuildError.isUnusable faults) (legsFrom egress rule r rest) := by
  induction rest generalizing rule r with
  | nil =>
    exact (Avoids.inconsistent _).bind fun _ => (avoids_egressLeg h egress r).bind fun _ => .ok _
  | cons p rest ih =>
    exact (Avoids.inconsistent _).bind fun _ => (avoids_transferLegs h _ _ _).bind fun _ =>
      (ih _ _).bind fun _ => .ok _

theorem avoids_legs (h : Spares faults) (access egress : StreetWalk)
    (rides : Linked Change Ridden) :
    Avoids (RebuildError.isUnusable faults) (legs access egress rides) := by
  have haccess : Avoids (RebuildError.isUnusable faults) (accessLeg access rides.first) :=
    (avoids_earlier h _ _).bind fun _ => (avoids_earlier h _ _).bind fun _ => .inconsistent _
  exact haccess.bind fun _ => (avoids_legsFrom h egress none _ _).bind fun _ => .ok _

end Placement

/-- Once the rides of an arrival are found, with their trips and rules, only legs are placed. -/
theorem Reconstruction.avoids_journey_of_rides (h : Spares faults) (c : Reconstruction)
    {table : Arrivals} {arrival : FinalArrival} (hrides : Avoids faults (c.rides table arrival)) :
    Avoids (RebuildError.isUnusable faults) (c.journey table arrival) := by
  refine hrides.unusable.bind fun ⟨recorded, settled⟩ => ?_
  exact (Placement.avoids_legs h _ _ settled).bind fun _ => .inconsistent _

/-- Once the trail of an arrival is found, its chain is in order, and no failure says otherwise. -/
theorem Reconstruction.avoids_journey (c : Reconstruction) {table : Arrivals}
    {arrival : FinalArrival} {trail : Trail}
    (h : Trail.ofArrival table c.direction arrival = .ok trail) :
    Avoids RebuildError.breaksChain (c.journey table arrival) := by
  have hspares := spares_breaksChain
  rw [← RebuildError.isUnusable_breaksChain]
  refine c.avoids_journey_of_rides hspares ?_
  refine (RecordedJourney.avoids_ofArrival hspares c.network c.slack h).bind fun recorded => ?_
  refine (TripChoice.avoids_chooseAll hspares _ recorded.rides).bind fun ridden => ?_
  exact (Change.avoids_ofRides hspares (fun _ _ => rfl) c.rules ridden).bind fun _ => .ok _

end Journeys
