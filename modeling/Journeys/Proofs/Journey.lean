import Journeys.Proofs.Failure
import Journeys.Tariff

/-!
# Proofs: legs that make up a journey

A journey is checked from its first leg to its last. The check follows one invariant from behind:
the legs at hand run on from a place and a time to the destination (`RunsOn`). It can only fail
where a leg starts before the one before it has ended, and whether that can be is left open
(`ordered`). Prices do not matter to it.
-/

namespace Journeys

variable {ordered : Prop}

theorem Leg.forM_check_eq_ok_iff {legs : List Leg} :
    legs.forM Leg.check = .ok () ↔ ∀ leg ∈ legs, leg.check = .ok () := by
  induction legs with
  | nil => exact ⟨fun _ => by simp, fun _ => rfl⟩
  | cons leg legs ih =>
    have hcons : (leg :: legs).forM Leg.check = (leg.check >>= fun _ => legs.forM Leg.check) := rfl
    rw [hcons, List.forall_mem_cons, ← ih]
    constructor
    · intro h
      obtain ⟨_, hleg, hlegs⟩ := bind_eq_ok_iff.1 h
      exact ⟨hleg, hlegs⟩
    · rintro ⟨hleg, hlegs⟩
      exact bind_eq_ok_iff.2 ⟨(), hleg, hlegs⟩

/-- Legs that run on from a place and a time to the destination. Each is sound and starts where the
one before it ended; if they are `ordered`, not before that time either. -/
inductive RunsOn (ordered : Prop) : Place → Time → List Leg → Prop
  /-- The last leg leads to the destination. -/
  | last {leg : Leg} (hcheck : leg.check = .ok ()) (hend : leg.toPlace = .destination) :
      RunsOn ordered leg.fromPlace leg.start [leg]
  /-- Any other leg leads to the place where the legs behind it run on from. -/
  | cons {leg : Leg} {behind : List Leg} {next : Time} (hcheck : leg.check = .ok ())
      (hbehind : RunsOn ordered leg.toPlace next behind) (hnext : ordered → leg.finish ≤ next) :
      RunsOn ordered leg.fromPlace leg.start (leg :: behind)

/-- Legs contradict each other in that they overlap, which they do only if they are not ordered. -/
def Overlaps (ordered : Prop) (e : JourneyError) : Prop :=
  ¬ordered ∧ ∃ previousFinish nextStart, e = .overlapping previousFinish nextStart

namespace RunsOn

variable {p : Place} {t : Time} {legs : List Leg}

/-- There is a first leg, and it starts at that place and time. -/
theorem exists_head (h : RunsOn ordered p t legs) :
    ∃ leg behind, legs = leg :: behind ∧ leg.fromPlace = p ∧ leg.start = t := by
  cases h with
  | last => exact ⟨_, [], rfl, rfl, rfl⟩
  | cons => exact ⟨_, _, rfl, rfl, rfl⟩

theorem check_of_mem (h : RunsOn ordered p t legs) : ∀ leg ∈ legs, leg.check = .ok () := by
  induction h with
  | last hcheck _ => simpa using hcheck
  | cons hcheck _ _ ih => exact List.forall_mem_cons.2 ⟨hcheck, ih⟩

theorem toPlace_getLast (h : RunsOn ordered p t legs) (hne : legs ≠ []) :
    (legs.getLast hne).toPlace = .destination := by
  induction h with
  | last _ hend => exact hend
  | cons _ hbehind _ ih =>
    obtain ⟨leg, behind, rfl, -, -⟩ := hbehind.exists_head
    rw [List.getLast_cons (List.cons_ne_nil leg behind)]
    exact ih _

/-- The links between the legs can only fail in that they overlap. -/
theorem gives_checkLinks (h : RunsOn ordered p t legs) :
    Gives (Overlaps ordered) (fun _ => True) (Journey.checkLinks legs) := by
  induction h with
  | last => trivial
  | @cons leg _ next _ hbehind hnext ih =>
    obtain ⟨b, behind, rfl, hplace, htime⟩ := hbehind.exists_head
    rw [Journey.checkLinks, if_neg (not_not_intro hplace.symm)]
    split
    · rename_i hlt
      refine ⟨fun ho => ?_, _, _, rfl⟩
      rw [htime] at hlt
      exact Time.not_lt.2 (hnext ho) hlt
    · exact ih

/-- Legs that run on from the origin make up a journey unless they overlap. -/
theorem gives_check (h : RunsOn ordered .origin t legs) :
    Gives (Overlaps ordered) (fun _ => True) (Journey.check legs) := by
  obtain ⟨leg, behind, rfl, hplace, -⟩ := h.exists_head
  have hends : ¬(leg.fromPlace ≠ .origin ∨
      ((leg :: behind).getLast (List.cons_ne_nil leg behind)).toPlace ≠ .destination) := by
    rw [h.toPlace_getLast, hplace]
    simp
  have hparts : Journey.check (leg :: behind) =
      ((leg :: behind).forM Leg.check >>= fun _ => Journey.checkLinks (leg :: behind)) :=
    if_neg hends
  rw [hparts, Leg.forM_check_eq_ok_iff.2 h.check_of_mem, ok_bind]
  exact h.gives_checkLinks

/-- Pricing leaves alone whatever is checked of legs. -/
theorem priceLegs (h : RunsOn ordered p t legs) (tariff : Tariff) (first : Bool)
    (previousFinish : Option Time) :
    RunsOn ordered p t (tariff.priceLegs first previousFinish legs) := by
  induction h generalizing first previousFinish with
  | @last leg hcheck hend =>
    exact @RunsOn.last ordered (leg.priced (tariff.costOf first previousFinish leg)) hcheck hend
  | @cons leg behind next hcheck _ hnext ih =>
    exact @RunsOn.cons ordered (leg.priced (tariff.costOf first previousFinish leg)) _ next hcheck
      (ih _ _) hnext

end RunsOn

/-! ## Prices -/

/-- The leg without its cost. -/
def Leg.unpriced (leg : Leg) : Leg := { leg with cost := none }

/-- Prices are all that pricing changes. -/
theorem Tariff.map_unpriced_priceLegs (tariff : Tariff) (first : Bool)
    (previousFinish : Option Time) (legs : List Leg) :
    (tariff.priceLegs first previousFinish legs).map Leg.unpriced = legs.map Leg.unpriced := by
  induction legs generalizing first previousFinish with
  | nil => rfl
  | cons leg legs ih =>
    rw [priceLegs, List.map_cons, List.map_cons, ih]
    rfl

/-- Whether a leg is a ride does not depend on its price. -/
theorem filter_isRide_map_unpriced (legs : List Leg) :
    (legs.map Leg.unpriced).filter Leg.isRide = (legs.filter Leg.isRide).map Leg.unpriced := by
  rw [List.filter_map]
  rfl

/-! ## The legs of a checked journey -/

namespace Journey

theorem check_of_mem (j : Journey) : ∀ leg ∈ j.legs, leg.check = .ok () := by
  have hchecked := j.checked
  unfold check at hchecked
  split at hchecked
  · cases hchecked
  · rename_i first rest hlegs
    split at hchecked
    · cases hchecked
    · obtain ⟨_, hforM, -⟩ := bind_eq_ok_iff.1 hchecked
      exact Leg.forM_check_eq_ok_iff.1 hforM

/-- A sound leg is boarded exactly if it is a ride. -/
theorem isSome_boardingOf? {leg : Leg} (h : leg.check = .ok ()) :
    (boardingOf? leg).isSome = leg.isRide := by
  obtain ⟨-, hjoins⟩ := Leg.check_eq_ok_iff.1 h
  obtain ⟨kind, fromPlace, toPlace, start, finish, cost⟩ := leg
  cases kind with
  | ride ride =>
    cases fromPlace with
    | stop s => rfl
    | origin => cases hjoins
    | destination => cases hjoins
  | access => rfl
  | transfer => rfl
  | egress => rfl

/-- The rides of a journey are counted by its boardings, as every ride starts at a stop. -/
theorem rideCount_eq (j : Journey) : j.rideCount = j.rideLegs.length := by
  rw [rideCount, boardings, rideLegs, List.length_filterMap_eq_countP,
    ← List.countP_eq_length_filter]
  refine List.countP_congr fun leg hleg => ?_
  rw [isSome_boardingOf? (j.check_of_mem leg hleg)]

end Journey

end Journeys
