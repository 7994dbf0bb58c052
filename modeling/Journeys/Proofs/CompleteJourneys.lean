import Journeys.Proofs.Journey
import Mathlib.Data.List.Chain

/-!
# Proofs: journeys are complete

A list of legs is only checked at its two ends, leg by leg, and from one leg to the next. That is
enough for it to be a whole itinerary (`Journey.Complete`). No sound leg leads to the origin and
none starts at the destination, so an access or an egress walk has no place between other legs. No
sound leg ends before it starts, so legs that do not overlap with the next one overlap with none of
those behind it.
-/

namespace Journeys

/-! ## Sound legs -/

namespace Leg

/-- A ride or a walk from one stop to another. -/
def BetweenStops (leg : Leg) : Prop :=
  ((∃ ride, leg.kind = .ride ride) ∨ leg.kind = .transfer) ∧
    ∃ s s', leg.fromPlace = .stop s ∧ leg.toPlace = .stop s'

/-- A leg ends where, and not after, the other one starts. -/
def Precedes (a b : Leg) : Prop := a.toPlace = b.fromPlace ∧ a.finish ≤ b.start

/-- A sound leg leads from the origin to a stop, from a stop to another, or from a stop to the
destination, as its kind says. -/
theorem cases_of_check {leg : Leg} (h : leg.check = .ok ()) :
    (leg.kind = .access ∧ leg.fromPlace = .origin ∧ ∃ s, leg.toPlace = .stop s) ∨
      leg.BetweenStops ∨
      (leg.kind = .egress ∧ (∃ s, leg.fromPlace = .stop s) ∧ leg.toPlace = .destination) := by
  obtain ⟨-, hjoins⟩ := check_eq_ok_iff.1 h
  unfold LegKind.joins at hjoins
  split at hjoins
  · rename_i s hkind hfrom hto
    exact .inl ⟨hkind, hfrom, s, hto⟩
  · rename_i ride s s' hkind hfrom hto
    exact .inr (.inl ⟨.inl ⟨ride, hkind⟩, s, s', hfrom, hto⟩)
  · rename_i s s' hkind hfrom hto
    exact .inr (.inl ⟨.inr hkind, s, s', hfrom, hto⟩)
  · rename_i s hkind hfrom hto
    exact .inr (.inr ⟨hkind, ⟨s, hfrom⟩, hto⟩)
  · cases hjoins

theorem kind_eq_access_iff {leg : Leg} (h : leg.check = .ok ()) :
    leg.kind = .access ↔ leg.fromPlace = .origin := by
  rcases cases_of_check h with ⟨hkind, hfrom, -⟩ | ⟨⟨ride, hkind⟩ | hkind, s, s', hfrom, -⟩ |
    ⟨hkind, ⟨s, hfrom⟩, -⟩ <;> simp [hkind, hfrom]

theorem kind_eq_egress_iff {leg : Leg} (h : leg.check = .ok ()) :
    leg.kind = .egress ↔ leg.toPlace = .destination := by
  rcases cases_of_check h with ⟨hkind, -, s, hto⟩ | ⟨⟨ride, hkind⟩ | hkind, s, s', -, hto⟩ |
    ⟨hkind, -, hto⟩ <;> simp [hkind, hto]

theorem toPlace_ne_origin {leg : Leg} (h : leg.check = .ok ()) : leg.toPlace ≠ .origin := by
  rcases cases_of_check h with ⟨-, -, s, hto⟩ | ⟨-, s, s', -, hto⟩ | ⟨-, -, hto⟩ <;> simp [hto]

theorem fromPlace_ne_destination {leg : Leg} (h : leg.check = .ok ()) :
    leg.fromPlace ≠ .destination := by
  rcases cases_of_check h with ⟨-, hfrom, -⟩ | ⟨-, s, s', hfrom, -⟩ | ⟨-, ⟨s, hfrom⟩, -⟩ <;>
    simp [hfrom]

theorem betweenStops_of_kind {leg : Leg} (h : leg.check = .ok ()) (haccess : leg.kind ≠ .access)
    (hegress : leg.kind ≠ .egress) : leg.BetweenStops := by
  rcases cases_of_check h with ⟨hkind, -⟩ | hbetween | ⟨hkind, -⟩
  · exact absurd hkind haccess
  · exact hbetween
  · exact absurd hkind hegress

end Leg

/-! ## The checks of a whole list -/

namespace Journey

variable {legs : List Leg}

theorem checkLinks_eq_ok_iff : checkLinks legs = .ok () ↔ legs.IsChain Leg.Precedes := by
  induction legs with
  | nil => simp [checkLinks]
  | cons a legs ih =>
    cases legs with
    | nil => simp [checkLinks]
    | cons b rest =>
      rw [List.isChain_cons_cons, ← ih, checkLinks, Leg.Precedes]
      split
      · rename_i hplaces
        simp [hplaces]
      · rename_i hplaces
        split
        · rename_i htimes
          simp [← Time.not_lt, htimes]
        · rename_i htimes
          simp [← Time.not_lt, htimes, not_not.1 hplaces]

theorem check_eq_ok_iff :
    check legs = .ok () ↔ ∃ hne : legs ≠ [], (legs.head hne).fromPlace = .origin ∧
      (legs.getLast hne).toPlace = .destination ∧ (∀ leg ∈ legs, leg.check = .ok ()) ∧
        legs.IsChain Leg.Precedes := by
  cases legs with
  | nil => simp [check]
  | cons first rest =>
    have hparts : check (first :: rest) =
        if first.fromPlace ≠ .origin ∨
          ((first :: rest).getLast (List.cons_ne_nil _ _)).toPlace ≠ .destination then
          .error (.invalidLeg .wrongEnds)
        else (first :: rest).forM Leg.check >>= fun _ => checkLinks (first :: rest) := rfl
    rw [hparts, ← Leg.forM_check_eq_ok_iff, ← checkLinks_eq_ok_iff]
    split
    · rename_i hends
      simp only [reduceCtorEq, false_iff]
      rintro ⟨_, hfrom, hto, -⟩
      rcases hends with hends | hends
      · exact hends hfrom
      · exact hends hto
    · rename_i hends
      simp only [not_or, not_not] at hends
      rw [bind_eq_ok_iff]
      constructor
      · rintro ⟨_, hsound, hlinks⟩
        exact ⟨List.cons_ne_nil _ _, hends.1, hends.2, hsound, hlinks⟩
      · rintro ⟨-, -, -, hsound, hlinks⟩
        exact ⟨(), hsound, hlinks⟩

/-- Legs that make up a whole itinerary, from the origin over stops to the destination. -/
structure Complete (legs : List Leg) : Prop where
  /-- There are at least an access and an egress walk. -/
  two_le : 2 ≤ legs.length
  /-- Every leg is sound by itself. -/
  sound : ∀ leg ∈ legs, leg.check = .ok ()
  /-- The first leg is the access walk, and no other one is. -/
  access_iff : ∀ i leg, legs[i]? = some leg → (leg.kind = .access ↔ i = 0)
  /-- The last leg is the egress walk, and no other one is. -/
  egress_iff : ∀ i leg, legs[i]? = some leg → (leg.kind = .egress ↔ i + 1 = legs.length)
  /-- All legs between them are rides and walks from stop to stop. -/
  between : ∀ i leg, legs[i]? = some leg → i ≠ 0 → i + 1 ≠ legs.length → leg.BetweenStops
  /-- Each leg starts where, and not before, the one before it ended. -/
  linked : legs.IsChain Leg.Precedes

theorem precedes_of_isChain (h : legs.IsChain Leg.Precedes) {i : Nat} {a b : Leg}
    (ha : legs[i]? = some a) (hb : legs[i + 1]? = some b) : a.Precedes b := by
  obtain ⟨hi, rfl⟩ := List.getElem?_eq_some_iff.1 hb
  obtain ⟨-, rfl⟩ := List.getElem?_eq_some_iff.1 ha
  exact h.getElem i hi

theorem getElem?_zero_eq_head (hne : legs ≠ []) : legs[0]? = some (legs.head hne) := by
  rw [← List.head?_eq_getElem?, List.head?_eq_some_head hne]

theorem getElem?_length_sub_one_eq_getLast (hne : legs ≠ []) :
    legs[legs.length - 1]? = some (legs.getLast hne) := by
  rw [← List.getLast?_eq_getElem?, List.getLast?_eq_some_getLast hne]

section Linked

variable (hsound : ∀ leg ∈ legs, leg.check = .ok ()) (hlinked : legs.IsChain Leg.Precedes)
  (hne : legs ≠ [])

include hsound hlinked

/-- Only the first of sound legs from the origin is an access walk. -/
theorem kind_eq_access_iff_of_linked (hfrom : (legs.head hne).fromPlace = .origin) {i : Nat}
    {leg : Leg} (hleg : legs[i]? = some leg) : leg.kind = .access ↔ i = 0 := by
  rw [Leg.kind_eq_access_iff (hsound leg (List.mem_of_getElem? hleg))]
  cases i with
  | zero =>
    rw [getElem?_zero_eq_head hne] at hleg
    rw [← Option.some.inj hleg]
    exact iff_of_true hfrom rfl
  | succ i =>
    -- the leg before it leads to where it starts, and none leads to the origin
    obtain ⟨hi, -⟩ := List.getElem?_eq_some_iff.1 hleg
    have hbefore := List.getElem?_eq_getElem (Nat.lt_of_succ_lt hi)
    rw [← (precedes_of_isChain hlinked hbefore hleg).1]
    exact iff_of_false (Leg.toPlace_ne_origin (hsound _ (List.mem_of_getElem? hbefore)))
      (Nat.succ_ne_zero i)

/-- Only the last of sound legs to the destination is an egress walk. -/
theorem kind_eq_egress_iff_of_linked (hto : (legs.getLast hne).toPlace = .destination) {i : Nat}
    {leg : Leg} (hleg : legs[i]? = some leg) : leg.kind = .egress ↔ i + 1 = legs.length := by
  rw [Leg.kind_eq_egress_iff (hsound leg (List.mem_of_getElem? hleg))]
  obtain ⟨hi, -⟩ := List.getElem?_eq_some_iff.1 hleg
  by_cases hlast : i + 1 = legs.length
  · obtain rfl : i = legs.length - 1 := by omega
    rw [getElem?_length_sub_one_eq_getLast hne] at hleg
    rw [← Option.some.inj hleg]
    exact iff_of_true hto hlast
  · -- the leg behind it starts where it leads to, and none starts at the destination
    have hbehind := List.getElem?_eq_getElem (show i + 1 < legs.length by omega)
    rw [(precedes_of_isChain hlinked hleg hbehind).1]
    exact iff_of_false (Leg.fromPlace_ne_destination (hsound _ (List.mem_of_getElem? hbehind)))
      hlast

end Linked

/-- Legs pass the check exactly if they make up a whole itinerary. -/
theorem check_eq_ok_iff_complete : check legs = .ok () ↔ Complete legs := by
  rw [check_eq_ok_iff]
  constructor
  · rintro ⟨hne, hfrom, hto, hsound, hlinked⟩
    have haccess {i : Nat} {leg : Leg} (hleg : legs[i]? = some leg) :=
      kind_eq_access_iff_of_linked hsound hlinked hne hfrom hleg
    have hegress {i : Nat} {leg : Leg} (hleg : legs[i]? = some leg) :=
      kind_eq_egress_iff_of_linked hsound hlinked hne hto hleg
    refine ⟨?_, hsound, fun _ _ => haccess, fun _ _ => hegress, ?_, hlinked⟩
    · -- a single leg would be both walks at once
      have hpos := List.length_pos_of_ne_nil hne
      have hleg := List.getElem?_eq_getElem hpos
      by_contra hlt
      have hkind := ((haccess hleg).2 rfl).symm.trans ((hegress hleg).2 (by omega))
      cases hkind
    · intro i leg hleg hfirst hlast
      refine Leg.betweenStops_of_kind (hsound leg (List.mem_of_getElem? hleg)) ?_ ?_
      · exact fun hkind => hfirst ((haccess hleg).1 hkind)
      · exact fun hkind => hlast ((hegress hleg).1 hkind)
  · intro h
    have hne : legs ≠ [] := by
      rintro rfl
      exact absurd h.two_le (by decide)
    refine ⟨hne, ?_, ?_, h.sound, h.linked⟩
    · rw [← Leg.kind_eq_access_iff (h.sound _ (List.head_mem hne))]
      exact (h.access_iff 0 _ (getElem?_zero_eq_head hne)).2 rfl
    · rw [← Leg.kind_eq_egress_iff (h.sound _ (List.getLast_mem hne))]
      refine (h.egress_iff _ _ (getElem?_length_sub_one_eq_getLast hne)).2 ?_
      exact Nat.sub_add_cancel (List.length_pos_of_ne_nil hne)

/-- No leg of a complete itinerary starts before one that comes earlier has ended. -/
theorem Complete.ordered (h : Complete legs) :
    legs.Pairwise fun a b => a.finish ≤ b.start := by
  let Follows (a b : Leg) : Prop := a.finish ≤ b.start ∧ b.start ≤ b.finish
  have : Trans Follows Follows Follows :=
    ⟨fun hab hbc => ⟨Time.le_trans (Time.le_trans hab.1 hab.2) hbc.1, hbc.2⟩⟩
  have hchain : legs.IsChain Follows := h.linked.imp_of_mem_imp fun a b _ hb hab =>
    ⟨hab.2, (Leg.check_eq_ok_iff.1 (h.sound b hb)).1⟩
  exact hchain.pairwise.imp fun hab => hab.1

/-! ## What is read off a journey -/

/-- A leg is the ride of a boarding: it is on that trip and starts at that stop. -/
def Boards (leg : Leg) (boarding : Boarding) : Prop :=
  ∃ ride, leg.ride? = some ride ∧ boarding.trip = ride.tripId ∧ leg.fromPlace = .stop boarding.stop

theorem boards_of_boardingOf? {leg : Leg} {boarding : Boarding}
    (h : boardingOf? leg = some boarding) : Boards leg boarding := by
  obtain ⟨ride, hride, hplace⟩ := Option.bind_eq_some_iff.1 h
  obtain ⟨stop, hstop, hboarding⟩ := Option.bind_eq_some_iff.1 hplace
  obtain rfl := Option.some.inj hboarding
  exact ⟨ride, hride, rfl, Place.stop?_eq_some_iff.1 hstop⟩

/-- The boardings of sound legs are those of the rides among them, one by one. -/
theorem forall₂_boards (hsound : ∀ leg ∈ legs, leg.check = .ok ()) :
    List.Forall₂ Boards (legs.filter Leg.isRide) (legs.filterMap boardingOf?) := by
  induction legs with
  | nil => exact .nil
  | cons leg legs ih =>
    obtain ⟨hleg, hlegs⟩ := List.forall_mem_cons.1 hsound
    have hride := isSome_boardingOf? hleg
    cases hboarding : boardingOf? leg with
    | none =>
      rw [hboarding] at hride
      rw [List.filterMap_cons_none hboarding, List.filter_cons_of_neg (by simp [← hride])]
      exact ih hlegs
    | some boarding =>
      rw [hboarding] at hride
      rw [List.filterMap_cons_some hboarding, List.filter_cons_of_pos (by simp [← hride])]
      exact .cons (boards_of_boardingOf? hboarding) (ih hlegs)

theorem exists_firstStop? (j : Journey) : ∃ s, j.firstStop? = some s := by
  obtain ⟨hne, hfrom, -, hsound, -⟩ := check_eq_ok_iff.1 j.checked
  have hfirst := hsound _ (List.head_mem hne)
  rcases Leg.cases_of_check hfirst with ⟨-, -, s, hto⟩ | ⟨-, s, s', hfrom', -⟩ | ⟨-, ⟨s, hfrom'⟩, -⟩
  · exact ⟨s, by rw [firstStop?, first, hto]; rfl⟩
  · cases hfrom.symm.trans hfrom'
  · cases hfrom.symm.trans hfrom'

theorem exists_lastStop? (j : Journey) : ∃ s, j.lastStop? = some s := by
  obtain ⟨hne, -, hto, hsound, -⟩ := check_eq_ok_iff.1 j.checked
  have hlast := hsound _ (List.getLast_mem hne)
  rcases Leg.cases_of_check hlast with ⟨-, -, s, hto'⟩ | ⟨-, s, s', -, hto'⟩ | ⟨-, ⟨s, hfrom⟩, -⟩
  · cases hto.symm.trans hto'
  · cases hto.symm.trans hto'
  · exact ⟨s, by rw [lastStop?, last, hfrom]; rfl⟩

/-- Whatever legs are given, read from a text or not, they are taken as a journey exactly if they
make up a whole itinerary. Then no leg starts before an earlier one has ended, the rides are counted
and listed one by one with the stops where they are boarded, and both walks have a stop. -/
theorem ofLegs_takes_complete (legs : List Leg) (cost : Option Cost) :
    ((∃ j, ofLegs legs cost = .ok j) ↔ Complete legs) ∧
      ∀ j, ofLegs legs cost = .ok j →
        (j.legs = legs ∧ j.cost = cost) ∧
        (legs.Pairwise fun a b => a.finish ≤ b.start) ∧
        j.rideCount = j.rideLegs.length ∧ j.boardings.length = j.rideCount ∧
        List.Forall₂ Boards j.rideLegs j.boardings ∧
        (∃ s, j.firstStop? = some s) ∧ ∃ s, j.lastStop? = some s := by
  constructor
  · rw [← check_eq_ok_iff_complete]
    constructor
    · rintro ⟨j, hj⟩
      obtain ⟨rfl, -⟩ := ofLegs_eq_ok_iff.1 hj
      exact j.checked
    · intro hchecked
      exact ⟨⟨legs, cost, none, hchecked⟩, ofLegs_eq_ok_iff.2 ⟨rfl, rfl, rfl⟩⟩
  · intro j hj
    obtain ⟨rfl, hcost, -⟩ := ofLegs_eq_ok_iff.1 hj
    have hcomplete := check_eq_ok_iff_complete.1 j.checked
    exact ⟨⟨rfl, hcost⟩, hcomplete.ordered, j.rideCount_eq, rfl, forall₂_boards hcomplete.sound,
      j.exists_firstStop?, j.exists_lastStop?⟩

/-- Two rides with a walk between them. -/
def changeLegs : List Leg :=
  [{ kind := .access, fromPlace := .origin, toPlace := .stop ⟨1⟩
     start := .ofHms 9 55 0, finish := .ofHms 10 0 0, cost := none },
   { kind := .ride ⟨⟨"A"⟩, ⟨⟨0⟩, 0⟩, 0, 1, Span.zero, Span.zero, none⟩
     fromPlace := .stop ⟨1⟩, toPlace := .stop ⟨2⟩
     start := .ofHms 10 0 0, finish := .ofHms 10 20 0, cost := none },
   { kind := .transfer, fromPlace := .stop ⟨2⟩, toPlace := .stop ⟨3⟩
     start := .ofHms 10 20 0, finish := .ofHms 10 25 0, cost := none },
   { kind := .ride ⟨⟨"B"⟩, ⟨⟨1⟩, 0⟩, 0, 1, Span.zero, Span.zero, none⟩
     fromPlace := .stop ⟨3⟩, toPlace := .stop ⟨4⟩
     start := .ofHms 10 30 0, finish := .ofHms 10 50 0, cost := none },
   { kind := .egress, fromPlace := .stop ⟨4⟩, toPlace := .destination
     start := .ofHms 10 50 0, finish := .ofHms 10 52 0, cost := none }]

/-- The two rides are taken as a journey with two boardings. -/
theorem ofLegs_takes_complete_change :
    Complete changeLegs ∧ ∃ j, ofLegs changeLegs none = .ok j ∧
      j.boardings = [⟨⟨"A"⟩, ⟨1⟩⟩, ⟨⟨"B"⟩, ⟨3⟩⟩] ∧ j.rideLegs.length = 2 ∧
      changeLegs.Pairwise fun a b => a.finish ≤ b.start := by
  have hfound : boardings <$> ofLegs changeLegs none = .ok [⟨⟨"A"⟩, ⟨1⟩⟩, ⟨⟨"B"⟩, ⟨3⟩⟩] := rfl
  obtain ⟨j, hj, hboardings⟩ := map_eq_ok_iff.1 hfound
  obtain ⟨htakes, hreads⟩ := ofLegs_takes_complete changeLegs none
  obtain ⟨-, hordered, hcount, hlength, -⟩ := hreads j hj
  refine ⟨htakes.1 ⟨j, hj⟩, j, hj, hboardings, ?_, hordered⟩
  rw [← hcount, ← hlength, hboardings]
  rfl

end Journey

end Journeys
