import Journeys.Proofs.ChainFaults
import Journeys.Proofs.Reconstruction

/-!
# Proofs: rules that are violated after a search

A search holds every candidate against its rule, and the rules of the trips that were found are
checked once more. The two checks agree on least times, where both leave time for the walk. They do
not agree on exact times: a candidate is selected for leaving at the exact time, however long the
walk to it takes, and rejected afterwards if the walk takes longer. Nothing else is ever found
violated after a search (`Reconstruction.journey_violates_iff_outwalked`).
-/

namespace Journeys

/-! ## Whole seconds -/

/-- The span is a number of whole seconds. -/
def Span.Whole (d : Span) : Prop := d.nanos = d.wholeSeconds * 1000000000

instance (d : Span) : Decidable d.Whole := inferInstanceAs (Decidable (_ = _))

theorem Span.Whole.max {a b : Span} (ha : a.Whole) (hb : b.Whole) : (Max.max a b).Whole := by
  show (if a ≤ b then b else a).Whole
  split
  · exact hb
  · exact ha

/-- The time of the rule, if it has one, is a number of whole seconds. -/
def TransferRule.Whole : TransferRule → Prop
  | minimumTime least => least.Whole
  | exactTime exact => exact.Whole
  | forbidden => True

/-- All rules of a network are about whole seconds. -/
def TransferRules.Whole (rules : TransferRules) : Prop :=
  ∀ a b rule, rules.find? a b = some rule → rule.Whole

/-! ## The two checks of a rule -/

namespace Ridden

variable {rules : TransferRules} {a b : Ridden} {walk : Option Span}

/-- An exact rule leaves less time than the walk takes. -/
def Outwalked (rules : TransferRules) (a : Ridden) (walk : Option Span) (b : Ridden) : Prop :=
  ∃ exact, ruleBetween? rules a b = some (.exactTime exact) ∧ exact < walk.getD Span.zero

/-- The rule between two rides holds, if there is one. -/
def KeepsRule (rules : TransferRules) (a : Ridden) (walk : Option Span) (b : Ridden) : Prop :=
  ∀ rule, ruleBetween? rules a b = some rule → rule.holds (a.gap b) (walk.getD Span.zero) = true

/-- In whole seconds, the rule between two rides that a search found holds unless the walk takes
longer than its exact time. -/
theorem KeepsGap.keepsRule_iff (h : KeepsGap rules a walk b) (hrules : rules.Whole)
    (hwalk : (walk.getD Span.zero).Whole) :
    KeepsRule rules a walk b ↔ ¬Outwalked rules a walk b := by
  have hgap : (a.gap b).nanos = (b.boardTime.seconds - a.alightTime.seconds) * 1000000000 :=
    Time.nanos_since _ _
  unfold KeepsRule Outwalked
  cases hrule : ruleBetween? rules a b with
  | none => simp
  | some rule =>
    have hwhole := hrules _ _ rule hrule
    cases rule with
    | forbidden => exact absurd hrule h.allowed
    | minimumTime least =>
      obtain ⟨gap, hgap', henough⟩ := h.enough
      rw [hrule] at hgap'
      obtain rfl : max least (walk.getD Span.zero) = gap := Except.ok.inj hgap'
      have hmax := Span.Whole.max hwhole hwalk
      have hnanos := Span.nanos_max least (walk.getD Span.zero)
      unfold Span.Whole at hmax
      simp only [Option.some.injEq, forall_eq', TransferRule.holds, Bool.and_eq_true,
        decide_eq_true_eq, Span.le_iff, hgap, reduceCtorEq, false_and, exists_const,
        not_false_eq_true, iff_true]
      omega
    | exactTime exact =>
      have hmet := h.exact exact hrule
      unfold TransferRule.Whole Span.Whole at hwhole
      have hsame : a.gap b = exact := by
        apply Span.ext
        rw [hgap, hmet, hwhole]
        omega
      simp [TransferRule.holds, hsame, Span.le_iff, Span.lt_iff]

end Ridden

namespace Change

variable {rules : TransferRules}

/-- Rules hold for settled rides as they do for the rides that were settled. -/
theorem chained_ruleHolds_settled_iff {before : Option TransferRule} {a : Ridden}
    {rest : List (Option Span × Ridden)} :
    Linked.Chained RuleHolds (settled rules before a rest).first
        (settled rules before a rest).rest ↔
      Linked.Chained (Ridden.KeepsRule rules) a rest := by
  induction rest generalizing before a with
  | nil => exact Iff.rfl
  | cons p rest ih =>
    obtain ⟨walk, b⟩ := p
    obtain ⟨after, hfirst⟩ := exists_first_settled rules (Ridden.ruleBetween? rules a b) b rest
    refine and_congr ?_ ih
    rw [hfirst]
    exact Iff.rfl

theorem exists_violated_of_checkRules {a : Ridden} {rest : List (Change × Ridden)}
    {e : ReconstructionError} (h : checkRules a rest = .error e) :
    ∃ x y, e = .transferTimeViolated x y := by
  induction rest generalizing a with
  | nil => cases h
  | cons p rest ih =>
    unfold checkRules at h
    split at h
    · exact ih h
    · split at h
      · exact ih h
      · exact ⟨_, _, (Except.error.inj h).symm⟩

/-- Among rides whose transfers are allowed, settling fails if a rule does not hold. -/
theorem exists_violated_iff {rides : Linked (Option Span) Ridden}
    (hallowed : Linked.Chained (fun x _ y => Allowed rules x y) rides.first rides.rest) :
    (∃ x y, ofRides rules rides = .error (.transferTimeViolated x y)) ↔
      ¬Linked.Chained (Ridden.KeepsRule rules) rides.first rides.rest := by
  have hok := @exists_ofRides_iff rules rides
  rw [chained_ruleHolds_settled_iff] at hok
  cases hof : ofRides rules rides with
  | ok s =>
    have hholds := (hok.1 ⟨s, hof⟩).2
    constructor
    · rintro ⟨x, y, h⟩
      cases h
    · intro h
      exact absurd hholds h
  | error e =>
    have hsettle : settle rules (rides.first.between none none) rides.rest =
        .ok (settled rules none rides.first rides.rest) :=
      settle_eq_ok_iff.2 ⟨rfl, hallowed⟩
    rw [Ridden.between_none_none] at hsettle
    have hcheck := hof
    rw [ofRides, hsettle, ok_bind] at hcheck
    rcases bind_eq_error_iff.1 hcheck with hcheck | ⟨u, -, h⟩
    · obtain ⟨x, y, rfl⟩ := exists_violated_of_checkRules hcheck
      refine ⟨fun _ hholds => ?_, fun _ => ⟨x, y, rfl⟩⟩
      obtain ⟨s, hs⟩ := hok.2 ⟨hallowed, hholds⟩
      rw [hof] at hs
      cases hs
    · cases h

end Change

/-! ## Journeys -/

/-- The failure is that a rule about time is violated. -/
def ReconstructionError.violatesTime : ReconstructionError → Bool
  | transferTimeViolated _ _ => true
  | _ => false

theorem spares_violatesTime : Spares ReconstructionError.violatesTime :=
  ⟨fun _ _ => rfl, fun _ _ => rfl, fun _ => rfl, fun _ _ => rfl, fun _ _ _ => rfl, rfl⟩

namespace RecordedJourney

theorem avoids_violatesTime (network : Network) (slack : SlackPolicy) (direction : Direction)
    (table : Arrivals) (arrival : FinalArrival) :
    Avoids ReconstructionError.violatesTime
      (ofArrival network slack direction table arrival) := by
  cases htrail : Trail.ofArrival table direction arrival with
  | ok trail => exact avoids_ofArrival spares_violatesTime network slack htrail
  | error e =>
    -- a broken chain is another failure
    have hbreaks := Trail.breaksChain_of_ofArrival htrail
    rw [ofArrival, htrail]
    refine .error ?_
    cases e with
    | transferTimeViolated x y => cases hbreaks
    | _ => rfl

end RecordedJourney

namespace Reconstruction

variable {c : Reconstruction} {table : Arrivals} {arrival : FinalArrival}

/-- Only settling reports that a rule is violated. -/
theorem journey_eq_violated_iff {x y : TripId} :
    c.journey table arrival = .error (.unusable (.transferTimeViolated x y)) ↔
      ∃ recorded ridden,
        RecordedJourney.ofArrival c.network c.slack c.direction table arrival = .ok recorded ∧
        (c.choice recorded.anchor).chooseAll recorded.rides = .ok ridden ∧
        Change.ofRides c.rules ridden = .error (.transferTimeViolated x y) := by
  constructor
  · intro h
    have hrides : c.rides table arrival = .error (.transferTimeViolated x y) := by
      rcases bind_eq_error_iff.1 h with hrides | ⟨a, hrides, -⟩
      · obtain ⟨e, he, hsame⟩ := unusable_eq_error_iff.1 hrides
        rw [RebuildError.unusable.inj hsame]
        exact he
      · -- placing legs does not look at rules
        have havoids : Avoids ReconstructionError.violatesTime (c.rides table arrival) := by
          rw [unusable_eq_ok_iff.1 hrides]
          exact .ok a
        cases c.avoids_journey_of_rides spares_violatesTime havoids _ h
    rcases bind_eq_error_iff.1 hrides with hfound | ⟨recorded, hfound, hrides⟩
    · cases RecordedJourney.avoids_violatesTime _ _ _ _ _ _ hfound
    · rcases bind_eq_error_iff.1 hrides with hchosen | ⟨ridden, hchosen, hrides⟩
      · cases TripChoice.avoids_chooseAll spares_violatesTime _ _ _ hchosen
      · rcases bind_eq_error_iff.1 hrides with hsettles | ⟨settled, -, h⟩
        · exact ⟨recorded, ridden, hfound, hchosen, hsettles⟩
        · cases h
  · rintro ⟨recorded, ridden, hfound, hchosen, hsettles⟩
    have hrides : c.rides table arrival = .error (.transferTimeViolated x y) := by
      refine bind_eq_error_iff.2 (Or.inr ⟨recorded, hfound, ?_⟩)
      refine bind_eq_error_iff.2 (Or.inr ⟨ridden, hchosen, ?_⟩)
      exact bind_eq_error_iff.2 (Or.inl hsettles)
    rw [journey, hrides]
    rfl

theorem exists_violated_iff_outwalked {recorded : RecordedJourney}
    {ridden : Linked (Option Span) Ridden} (hexact : c.approximate = false)
    (hrules : c.rules.Whole) (hsound : recorded.Sound c.network c.slack)
    (hwalks : ∀ d, some d ∈ recorded.rides.links → d.Whole)
    (hchosen : (c.choice recorded.anchor).chooseAll recorded.rides = .ok ridden) :
    (∃ x y, Change.ofRides c.rules ridden = .error (.transferTimeViolated x y)) ↔
      ∃ i a walk b, ridden.toList[i]? = some a ∧ ridden.links[i]? = some walk ∧
        ridden.toList[i + 1]? = some b ∧ a.Outwalked c.rules walk b := by
  have hgaps : Linked.Chained (Ridden.KeepsGap c.rules) ridden.first ridden.rest :=
    ((TripChoice.chosen_of_chooseAll hchosen).2.fits hexact).gaps
  have hassigns := RecordedJourney.Assigns.of_chooseAll hsound hchosen
  have hwhole : Linked.Chained (fun _ walk _ => (walk.getD Span.zero).Whole)
      ridden.first ridden.rest := by
    refine Linked.Chained.of_links fun walk hwalk => ?_
    cases walk with
    | none => rfl
    | some d =>
      apply hwalks d
      rw [← hassigns.links]
      exact hwalk
  have hkeeps := hgaps.and hwhole
  have hiff := Change.exists_violated_iff (hgaps.imp fun _ _ _ hab => hab.allowed)
  rw [hiff]
  constructor
  · intro h
    by_contra hnone
    apply h
    have hfits : Linked.Chained (fun a walk b => ¬Ridden.Outwalked c.rules a walk b)
        ridden.first ridden.rest := by
      apply Linked.Chained.of_getElem?
      intro i a walk b ha hwalk hb hout
      exact hnone ⟨i, a, walk, b, ha, hwalk, hb, hout⟩
    refine (hkeeps.and hfits).imp ?_
    rintro a walk b ⟨⟨hgap, hwalk⟩, hout⟩
    exact (hgap.keepsRule_iff hrules hwalk).2 hout
  · rintro ⟨i, a, walk, b, ha, hwalk, hb, hout⟩ hall
    obtain ⟨hgap, hw⟩ := hkeeps.getElem? ha hwalk hb
    exact (hgap.keepsRule_iff hrules hw).1 (hall.getElem? ha hwalk hb) hout

/-- In whole seconds, a search ends with a violated rule exactly if it selected trips for an exact
change that the walk between them does not fit into. -/
theorem journey_violates_iff_outwalked (c : Reconstruction) {table : Arrivals}
    {arrival : FinalArrival} (hexact : c.approximate = false) (htable : table.WalksLast Span.Whole)
    (hegress : arrival.egress.duration.Whole) (hrules : c.rules.Whole) :
    (∃ x y, c.journey table arrival = .error (.unusable (.transferTimeViolated x y))) ↔
      ∃ recorded ridden,
        RecordedJourney.ofArrival c.network c.slack c.direction table arrival = .ok recorded ∧
        (c.choice recorded.anchor).chooseAll recorded.rides = .ok ridden ∧
        ∃ i a walk b, ridden.toList[i]? = some a ∧ ridden.links[i]? = some walk ∧
          ridden.toList[i + 1]? = some b ∧ a.Outwalked c.rules walk b := by
  have hiff {recorded : RecordedJourney} {ridden : Linked (Option Span) Ridden}
      (hfound : RecordedJourney.ofArrival c.network c.slack c.direction table arrival =
        .ok recorded)
      (hchosen : (c.choice recorded.anchor).chooseAll recorded.rides = .ok ridden) :=
    exists_violated_iff_outwalked hexact hrules (RecordedJourney.sound_of_ofArrival hfound)
      (RecordedJourney.walks_of_ofArrival hfound htable hegress).2.2 hchosen
  constructor
  · rintro ⟨x, y, h⟩
    obtain ⟨recorded, ridden, hfound, hchosen, hsettles⟩ := journey_eq_violated_iff.1 h
    exact ⟨recorded, ridden, hfound, hchosen, (hiff hfound hchosen).1 ⟨x, y, hsettles⟩⟩
  · rintro ⟨recorded, ridden, hfound, hchosen, hout⟩
    obtain ⟨x, y, hsettles⟩ := (hiff hfound hchosen).2 hout
    exact ⟨x, y, journey_eq_violated_iff.2 ⟨recorded, ridden, hfound, hchosen, hsettles⟩⟩

/-- Connections from a stop five minutes away from the feeder, the first of them right behind it. -/
def remotePattern : Pattern :=
  { stops := [⟨4⟩, ⟨3⟩]
    trips := [shuttle "rushed" (.ofHms 8 11 0) (.ofHms 8 31 0),
      shuttle "calm" (.ofHms 8 20 0) (.ofHms 8 45 0)]
    two_le_stops := by decide
    length_eq := List.forall_mem_cons.2 ⟨rfl, List.forall_mem_singleton.2 rfl⟩ }

/-- The records: the feeder, the walk, and the first connection. -/
def walkingTable : Arrivals :=
  ⟨#[{ stop := ⟨1⟩, round := 0, time := .ofHms 7 58 0, approach := .access ⟨⟨1⟩, minute⟩ },
     { stop := ⟨2⟩, round := 1, time := .ofHms 8 10 0, approach := .ride ⟨0⟩ ⟨⟨⟨0⟩, 0⟩, 0, 1⟩ },
     { stop := ⟨4⟩, round := 1, time := .ofHms 8 15 0,
       approach := .walk ⟨1⟩ { nanos := 300 * 1000000000 } },
     { stop := ⟨3⟩, round := 2, time := .ofHms 9 0 0, approach := .ride ⟨2⟩ ⟨⟨⟨1⟩, 0⟩, 0, 1⟩ }]⟩

/-- The arrival behind the walk and the connection. -/
def walkingArrival : FinalArrival :=
  { previous := ⟨3⟩, egress := ⟨⟨3⟩, minute⟩, time := .ofHms 9 1 0, round := 2 }

/-- A search over the feeder and the remote connections, under these rules. -/
def walkingSearch (rules : TransferRules) : Reconstruction :=
  { direction := .forward
    network := Network.ofPatterns [feederPattern, remotePattern]
    slack := UniformSlack.zero.policy
    rules }

/-- The first connection leaves a minute behind the feeder. -/
def rushedRules : TransferRules :=
  TransferRules.atEnds [(⟨⟨"feeder"⟩, ⟨2⟩, 1⟩, ⟨⟨"rushed"⟩, ⟨4⟩, 0⟩, .exactTime minute)]

theorem rushedRules_exact {a b : TransferEnd} {rule : TransferRule}
    (h : rushedRules.find? a b = some rule) : rule = .exactTime minute := by
  obtain ⟨entry, hentry, rfl⟩ := Option.map_eq_some_iff.1 h
  obtain rfl := List.mem_singleton.1 (List.mem_of_find?_eq_some hentry)
  rfl

theorem rushedRules_whole : rushedRules.Whole := by
  intro a b rule h
  rw [rushedRules_exact h]
  rfl

/-- The change to the rushed connection is outwalked. -/
theorem journey_violates_iff_outwalked_rushed :
    ∃ (recorded : RecordedJourney) (ridden : Linked (Option Span) Ridden),
      ((walkingSearch rushedRules).choice recorded.anchor).chooseAll recorded.rides = .ok ridden ∧
        ∃ i a walk b, ridden.toList[i]? = some a ∧ ridden.links[i]? = some walk ∧
          ridden.toList[i + 1]? = some b ∧ a.Outwalked rushedRules walk b := by
  have hviolates : (walkingSearch rushedRules).journey walkingTable walkingArrival =
      .error (.unusable (.transferTimeViolated ⟨"feeder"⟩ ⟨"rushed"⟩)) := rfl
  obtain ⟨recorded, ridden, -, hchosen, hout⟩ :=
    (journey_violates_iff_outwalked (walkingSearch rushedRules) rfl (by decide) (by decide)
      rushedRules_whole).1 ⟨_, _, hviolates⟩
  exact ⟨recorded, ridden, hchosen, hout⟩

/-- All spans are whole seconds and none is negative. The rushed connection is selected all the same
and then found to violate its rule, and the calm one is never tried, which the journey without the
rule takes. -/
theorem walkingSearch_violates :
    (walkingSearch rushedRules).approximate = false ∧
      (walkingTable.WalksLast Span.Whole ∧ walkingTable.WalksLast (Span.zero ≤ ·)) ∧
      (∀ a b rule, rushedRules.find? a b = some rule →
        rule = .exactTime minute ∧ minute.Whole ∧ Span.zero ≤ minute) ∧
      (walkingSearch rushedRules).journey walkingTable walkingArrival =
        .error (.unusable (.transferTimeViolated ⟨"feeder"⟩ ⟨"rushed"⟩)) ∧
      ((fun j : Journey => j.rideLegs.map fun leg => (leg.start, leg.finish)) <$>
        (walkingSearch TransferRules.unconstrained).journey walkingTable walkingArrival) =
        .ok [(.ofHms 8 0 0, .ofHms 8 10 0), (.ofHms 8 20 0, .ofHms 8 45 0)] :=
  ⟨rfl, by decide, fun _ _ _ h => ⟨rushedRules_exact h, rfl, by decide⟩, rfl, rfl⟩

end Reconstruction

end Journeys
