import Journeys.Proofs.CompleteJourneys
import Journeys.Proofs.LegForm
import Journeys.Proofs.Placement

/-!
# Proofs: sound legs and built legs

There are two ways for a leg to be let in: it is built (`Leg.Built`), or it was read from a text and
passes the check. The check knows of places and times only, so it also lets in a ride that is left
no further on in its pattern than it is boarded (`Leg.RidesBackwards`). Such rides are all that the
two ways differ in.
-/

namespace Journeys

namespace Leg

/-- The leg is what one of the four constructors gave. -/
inductive Built (leg : Leg) : Prop
  | access (stop : Stop) (start finish : Time) (h : access stop start finish = .ok leg)
  | ride (details : RideDetails) (board alight : Stop) (start finish : Time)
    (h : ride details board alight start finish = .ok leg)
  | transfer (fromStop toStop : Stop) (start finish : Time)
    (h : transfer fromStop toStop start finish = .ok leg)
  | egress (stop : Stop) (start finish : Time) (h : egress stop start finish = .ok leg)

/-- A ride, if it is one, is left further on in the pattern than it is boarded. -/
def RidesOnwards (leg : Leg) : Prop := ∀ ride ∈ leg.ride?, ride.boardPos < ride.alightPos

instance (leg : Leg) : Decidable leg.RidesOnwards :=
  inferInstanceAs (Decidable (∀ ride ∈ leg.ride?, _))

/-- A ride between stops, in order of time, that is left no further on than it is boarded. -/
def RidesBackwards (leg : Leg) : Prop :=
  ∃ ride board alight, leg.kind = .ride ride ∧ ride.alightPos ≤ ride.boardPos ∧
    leg.fromPlace = .stop board ∧ leg.toPlace = .stop alight ∧ leg.start ≤ leg.finish

theorem ride_eq_ok_iff {details : RideDetails} {board alight : Stop} {start finish : Time}
    {leg : Leg} :
    ride details board alight start finish = .ok leg ↔
      details.boardPos < details.alightPos ∧
        build (.ride details) (.stop board) (.stop alight) start finish = .ok leg := by
  unfold ride
  split
  · rename_i hback
    simp [Nat.not_lt.2 hback]
  · rename_i hback
    simp [Nat.not_le.1 hback]

theorem build_unpriced {leg : Leg} (h : leg.check = .ok ()) :
    build leg.kind leg.fromPlace leg.toPlace leg.start leg.finish = .ok leg.unpriced :=
  build_eq_ok_iff.2 ⟨rfl, h⟩

theorem Built.check {leg : Leg} (h : leg.Built) : leg.check = .ok () := by
  cases h with
  | access stop start finish h => exact (build_eq_ok_iff.1 h).2
  | ride details board alight start finish h => exact (build_eq_ok_iff.1 (ride_eq_ok_iff.1 h).2).2
  | transfer fromStop toStop start finish h => exact (build_eq_ok_iff.1 h).2
  | egress stop start finish h => exact (build_eq_ok_iff.1 h).2

theorem Built.ridesOnwards {leg : Leg} (h : leg.Built) : leg.RidesOnwards := by
  intro ride hride
  cases h with
  | access stop start finish h =>
    obtain ⟨rfl, -⟩ := build_eq_ok_iff.1 h
    cases hride
  | ride details board alight start finish h =>
    obtain ⟨honwards, hbuild⟩ := ride_eq_ok_iff.1 h
    obtain ⟨rfl, -⟩ := build_eq_ok_iff.1 hbuild
    obtain rfl := Option.some.inj hride
    exact honwards
  | transfer fromStop toStop start finish h =>
    obtain ⟨rfl, -⟩ := build_eq_ok_iff.1 h
    cases hride
  | egress stop start finish h =>
    obtain ⟨rfl, -⟩ := build_eq_ok_iff.1 h
    cases hride

/-- A leg can be built, price apart, exactly if it is sound and rides onwards. -/
theorem built_unpriced_iff {leg : Leg} :
    leg.unpriced.Built ↔ leg.check = .ok () ∧ leg.RidesOnwards := by
  constructor
  · intro h
    exact ⟨h.check, h.ridesOnwards⟩
  · rintro ⟨hcheck, honwards⟩
    have hbuild := build_unpriced hcheck
    rcases cases_of_check hcheck with ⟨hkind, hfrom, s, hto⟩ |
      ⟨⟨details, hkind⟩ | hkind, s, s', hfrom, hto⟩ | ⟨hkind, ⟨s, hfrom⟩, hto⟩
    all_goals rw [hkind, hfrom, hto] at hbuild
    · exact .access s _ _ hbuild
    · have hride : leg.ride? = some details := by rw [ride?, hkind]
      exact .ride details s s' _ _ (ride_eq_ok_iff.2 ⟨honwards details hride, hbuild⟩)
    · exact .transfer s s' _ _ hbuild
    · exact .egress s _ _ hbuild

/-- What the check leaves out is the order of the positions of a ride. -/
theorem ridesBackwards_iff {leg : Leg} :
    leg.RidesBackwards ↔ leg.check = .ok () ∧ ¬leg.RidesOnwards := by
  constructor
  · rintro ⟨ride, board, alight, hkind, hpositions, hfrom, hto, htimes⟩
    refine ⟨check_eq_ok_iff.2 ⟨htimes, ?_⟩, ?_⟩
    · rw [hkind, hfrom, hto]
      rfl
    · intro honwards
      have hride : leg.ride? = some ride := by rw [ride?, hkind]
      exact absurd (honwards ride hride) (Nat.not_lt.2 hpositions)
  · rintro ⟨hcheck, hbackwards⟩
    simp only [RidesOnwards, not_forall] at hbackwards
    obtain ⟨ride, hride, hpositions⟩ := hbackwards
    obtain ⟨htimes, -⟩ := check_eq_ok_iff.1 hcheck
    -- only a leg between stops can be a ride
    rcases cases_of_check hcheck with ⟨hkind, -⟩ | ⟨⟨details, hkind⟩ | hkind, s, s', hfrom, hto⟩ |
      ⟨hkind, -⟩
    all_goals rw [ride?, hkind] at hride; cases hride
    exact ⟨ride, s, s', hkind, Nat.not_lt.1 hpositions, hfrom, hto, htimes⟩

theorem built_unpriced_iff_of_check {leg : Leg} (h : leg.check = .ok ()) :
    leg.unpriced.Built ↔ ¬leg.RidesBackwards := by
  simp [built_unpriced_iff, ridesBackwards_iff, h]

/-- The check lets a leg in exactly if it can be built, price apart, unless the leg is a ride that
runs backwards: it lets those in, and none of them can be built. So a leg of a journey, wherever it
was read from, can be built unless it is such a ride. -/
theorem check_iff_built_iff (leg : Leg) :
    ((leg.check = .ok () ↔ leg.unpriced.Built) ↔ ¬leg.RidesBackwards) ∧
      (leg.RidesBackwards → leg.check = .ok () ∧ ¬leg.unpriced.Built) ∧
      ∀ (legs : List Leg) (cost : Option Cost) (j : Journey), Journey.ofLegs legs cost = .ok j →
        leg ∈ legs → (leg.unpriced.Built ↔ ¬leg.RidesBackwards) := by
  have hdiffer (hbackwards : leg.RidesBackwards) : leg.check = .ok () ∧ ¬leg.unpriced.Built := by
    obtain ⟨hcheck, -⟩ := ridesBackwards_iff.1 hbackwards
    exact ⟨hcheck, fun hbuilt => (built_unpriced_iff_of_check hcheck).1 hbuilt hbackwards⟩
  refine ⟨⟨?_, ?_⟩, hdiffer, ?_⟩
  · intro hsame hbackwards
    obtain ⟨hcheck, hbuilt⟩ := hdiffer hbackwards
    exact hbuilt (hsame.1 hcheck)
  · intro hforwards
    constructor
    · exact fun hcheck => (built_unpriced_iff_of_check hcheck).2 hforwards
    · exact fun hbuilt => hbuilt.check
  · intro legs cost j hj hleg
    obtain ⟨rfl, -⟩ := Journey.ofLegs_eq_ok_iff.1 hj
    exact built_unpriced_iff_of_check (j.check_of_mem leg hleg)

/-- The legs of the hurried journey can be built, price apart. -/
theorem check_iff_built_iff_hurried :
    ∃ j, Journey.ofLegs hurriedJourney.legs none = .ok j ∧
      ∀ leg ∈ hurriedJourney.legs, leg.unpriced.Built := by
  obtain ⟨j, hj⟩ : ∃ j, Journey.ofLegs hurriedJourney.legs none = .ok j := ⟨_, rfl⟩
  have honwards : ∀ leg ∈ hurriedJourney.legs, leg.RidesOnwards := by decide
  refine ⟨j, hj, fun leg hleg => ?_⟩
  obtain ⟨-, -, hjourneys⟩ := check_iff_built_iff leg
  refine (hjourneys _ _ j hj hleg).2 fun hbackwards => ?_
  exact (ridesBackwards_iff.1 hbackwards).2 (honwards leg hleg)

/-- A ride that is left at the position where it is boarded, between two walks. -/
def backwardLegs : List Leg :=
  [{ kind := .access, fromPlace := .origin, toPlace := .stop ⟨1⟩
     start := .ofHms 9 55 0, finish := .ofHms 10 0 0, cost := none },
   { kind := .ride ⟨⟨"T1"⟩, ⟨⟨0⟩, 0⟩, 2, 2, Span.zero, Span.zero, none⟩
     fromPlace := .stop ⟨1⟩, toPlace := .stop ⟨3⟩
     start := .ofHms 10 0 0, finish := .ofHms 10 20 0, cost := none },
   { kind := .egress, fromPlace := .stop ⟨3⟩, toPlace := .destination
     start := .ofHms 10 20 0, finish := .ofHms 10 23 0, cost := none }]

/-- No constructor gives that ride, but read from a text it passes the check, and makes up a journey
with the walks. -/
theorem backwardLegs_are_let_in :
    Format.legs (Format.ofLegs backwardLegs) = .ok backwardLegs ∧
      (∃ j, Journey.ofLegs backwardLegs none = .ok j ∧ j.legs = backwardLegs) ∧
      ∃ leg ∈ backwardLegs, leg.check = .ok () ∧ ¬leg.unpriced.Built := by
  refine ⟨rfl, ⟨_, rfl, rfl⟩, backwardLegs[1], by simp, by decide, ?_⟩
  intro hbuilt
  exact absurd hbuilt.ridesOnwards (by decide)

end Leg

end Journeys
