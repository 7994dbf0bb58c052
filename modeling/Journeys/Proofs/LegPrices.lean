import Journeys.Proofs.CompleteJourneys
import Journeys.Proofs.Prices

/-!
# Proofs: what each leg is charged

Legs are priced in one pass, which keeps three things of the legs behind it: what they cost, whether
there was a ride among them, and when the last one ended. What they cost is only ever added to
(`Tariff.price_eq`). `Tariff.Remembers` ties the other two to the legs themselves, so what a leg is
charged can be said by its place in the list (`Tariff.Charges`).

A tariff is a function, so how often it is asked does not show in what it charges. A second version
of the pass, `priceLegsAsking`, writes down what is asked about boardings, and prices the same legs.
-/

namespace Journeys

namespace Cost

/-- The order of costs makes no difference to their sum, not even where it stops at its bound. -/
theorem sum_eq_of_perm {costs costs' : List Cost} (h : costs.Perm costs') :
    sum costs = sum costs' := by
  ext
  rw [value_sum, value_sum, (h.map value).sum_nat]

end Cost

/-- What a tariff is asked about a boarding. -/
structure Inquiry where
  /-- Whether it is the first one. -/
  first : Bool
  /-- The wait before it. -/
  wait : Span
  /-- The ride that is boarded. -/
  leg : Leg
deriving DecidableEq, Repr

/-- The ride at a place among legs is asked about: it is the first one if no leg before it is a
ride, and the wait is the time since the leg before it ended, unless that is negative. -/
structure Inquiry.Concerns (q : Inquiry) (legs : List Leg) (i : Nat) : Prop where
  leg : legs[i]? = some q.leg
  isRide : q.leg.isRide = true
  first : q.first = true ↔ ∀ earlier ∈ legs.take i, earlier.isRide = false
  start : i = 0 → q.wait = Span.zero
  wait : ∀ k previous, i = k + 1 → legs[k]? = some previous →
    q.wait.nanos = max 0 ((q.leg.start.seconds - previous.finish.seconds) * 1000000000)

/-- The places of the rides among legs. -/
def ridePlaces (legs : List Leg) : List Nat :=
  (List.range legs.length).filter fun i => legs[i]?.any Leg.isRide

namespace Tariff

variable (tariff : Tariff)

/-- A leg at a place among legs costs what it costs to travel it, and to board it if it is a
ride. -/
structure Charges (legs : List Leg) (i : Nat) (leg : Leg) (cost : Cost) : Prop where
  other : leg.isRide = false → cost = tariff.leg leg
  ride : leg.isRide = true → ∃ q : Inquiry, q.Concerns legs i ∧ cost.value =
    min ((tariff.leg leg).value + (tariff.boarding q.first q.wait leg).value) (2 ^ 64 - 1)

/-! ## Writing down what is asked -/

/-- Asks about a boarding, and writes down what was asked. -/
def ask (q : Inquiry) : StateM (List Inquiry) Cost := do
  modify (· ++ [q])
  return tariff.boarding q.first q.wait q.leg

/-- `costOf`, which writes down what it asks. -/
def costOfAsking (first : Bool) (previousFinish : Option Time) (leg : Leg) :
    StateM (List Inquiry) Cost :=
  if leg.isRide then do
    let boarding ← tariff.ask ⟨first, waitBefore previousFinish leg, leg⟩
    return tariff.leg leg + boarding
  else
    return tariff.leg leg

/-- `priceLegs`, which writes down what it asks. -/
def priceLegsAsking : Bool → Option Time → List Leg → StateM (List Inquiry) (List Leg)
  | _, _, [] => return []
  | first, previousFinish, leg :: rest => do
    let cost ← tariff.costOfAsking first previousFinish leg
    let pricedRest ← priceLegsAsking (first && !leg.isRide) (some leg.finish) rest
    return leg.priced cost :: pricedRest

variable {earlier later legs : List Leg} {leg : Leg} {first : Bool} {previousFinish : Option Time}
  {log : List Inquiry}

theorem run_costOfAsking_of_ride (h : leg.isRide = true) :
    (tariff.costOfAsking first previousFinish leg).run log =
      (tariff.costOf first previousFinish leg,
        log ++ [⟨first, waitBefore previousFinish leg, leg⟩]) := by
  rw [costOfAsking, costOf, if_pos h, if_pos h]
  rfl

theorem run_costOfAsking_of_not_ride (h : leg.isRide = false) :
    (tariff.costOfAsking first previousFinish leg).run log =
      (tariff.costOf first previousFinish leg, log) := by
  rw [costOfAsking, costOf, h]
  rfl

theorem run_priceLegsAsking_cons {cost : Cost} {log' log'' : List Inquiry} {priced : List Leg}
    (hcost : (tariff.costOfAsking first previousFinish leg).run log = (cost, log'))
    (hrest : (tariff.priceLegsAsking (first && !leg.isRide) (some leg.finish) later).run log' =
      (priced, log'')) :
    (tariff.priceLegsAsking first previousFinish (leg :: later)).run log =
      (leg.priced cost :: priced, log'') := by
  rw [priceLegsAsking, StateT.run_bind, hcost]
  show (tariff.priceLegsAsking (first && !leg.isRide) (some leg.finish) later >>=
    fun pricedRest => pure (leg.priced cost :: pricedRest)).run log' = _
  rw [StateT.run_bind, hrest]
  rfl

/-! ## One leg -/

/-- What is kept of the legs that came before. -/
structure Remembers (earlier : List Leg) (first : Bool) (previousFinish : Option Time) : Prop where
  first : first = true ↔ ∀ leg ∈ earlier, leg.isRide = false
  finish : previousFinish = earlier.getLast?.map Leg.finish

theorem remembers_nil : Remembers [] true none := ⟨by simp, rfl⟩

theorem Remembers.snoc (h : Remembers earlier first previousFinish) (leg : Leg) :
    Remembers (earlier ++ [leg]) (first && !leg.isRide) (some leg.finish) := by
  refine ⟨?_, by simp⟩
  simp [h.first, or_imp, forall_and]

theorem Remembers.concerns (h : Remembers earlier first previousFinish)
    (hride : leg.isRide = true) :
    (⟨first, waitBefore previousFinish leg, leg⟩ : Inquiry).Concerns (earlier ++ leg :: later)
      earlier.length := by
  refine ⟨by simp, hride, by simp [h.first], ?_, ?_⟩
  · intro hzero
    obtain rfl := List.length_eq_zero_iff.1 hzero
    rw [h.finish]
    rfl
  · intro k previous hk hprevious
    have hlast : earlier.getLast? = some previous := by
      rw [List.getElem?_append_left (by omega)] at hprevious
      rw [List.getLast?_eq_getElem?, hk, Nat.add_sub_cancel, hprevious]
    rw [h.finish, hlast]
    show (leg.start.since previous.finish).clampNonneg.nanos = _
    rw [Span.nanos_clampNonneg, Time.nanos_since, max_comm]

theorem Remembers.charges (h : Remembers earlier first previousFinish) :
    tariff.Charges (earlier ++ leg :: later) earlier.length leg
      (tariff.costOf first previousFinish leg) := by
  constructor
  · intro hride
    rw [costOf, hride]
    rfl
  · intro hride
    refine ⟨_, h.concerns hride, ?_⟩
    rw [costOf, if_pos hride, Cost.value_add]
    rfl

/-! ## All legs -/

theorem map_cost_zipWith_priced {costs : List Cost} (h : costs.length = legs.length) :
    (List.zipWith Leg.priced legs costs).map Leg.cost = costs.map some := by
  calc (List.zipWith Leg.priced legs costs).map Leg.cost
      = ((legs.zip costs).map Prod.snd).map some := by
        rw [← List.map_uncurry_zip_eq_zipWith, List.map_map, List.map_map]
        rfl
    _ = costs.map some := by rw [List.map_snd_zip h.le]

theorem Remembers.exists_costs (h : Remembers earlier first previousFinish) (legs : List Leg) :
    ∃ costs : List Cost, costs.length = legs.length ∧
      tariff.priceLegs first previousFinish legs = List.zipWith Leg.priced legs costs ∧
      ∀ i leg cost, legs[i]? = some leg → costs[i]? = some cost →
        tariff.Charges (earlier ++ legs) (earlier.length + i) leg cost := by
  induction legs generalizing earlier first previousFinish with
  | nil => exact ⟨[], rfl, rfl, fun _ _ _ hleg => nomatch hleg⟩
  | cons leg rest ih =>
    obtain ⟨costs, hlength, hpriced, hcharges⟩ := ih (h.snoc leg)
    refine ⟨tariff.costOf first previousFinish leg :: costs, by simp [hlength], ?_, ?_⟩
    · rw [priceLegs, hpriced]
      rfl
    · intro i leg' cost hleg hcost
      cases i with
      | zero =>
        obtain rfl := Option.some.inj hleg
        obtain rfl := Option.some.inj hcost
        exact h.charges tariff
      | succ i =>
        have hcharge := hcharges i leg' cost hleg hcost
        rwa [List.append_assoc, List.length_append, Nat.add_assoc, Nat.add_comm _ i] at hcharge

theorem Remembers.exists_asked (h : Remembers earlier first previousFinish) (legs : List Leg)
    (log : List Inquiry) :
    ∃ asked, (tariff.priceLegsAsking first previousFinish legs).run log =
        (tariff.priceLegs first previousFinish legs, log ++ asked) ∧
      List.Forall₂ (fun i q => q.Concerns (earlier ++ legs) i)
        ((List.range' earlier.length legs.length).filter
          fun i => (earlier ++ legs)[i]?.any Leg.isRide) asked := by
  induction legs generalizing earlier first previousFinish log with
  | nil => exact ⟨[], by rw [List.append_nil]; rfl, .nil⟩
  | cons leg rest ih =>
    have hsnoc : earlier ++ [leg] ++ rest = earlier ++ leg :: rest := (List.append_cons ..).symm
    -- a ride is asked about ahead of the rest, and no other leg is
    cases hride : leg.isRide with
    | false =>
      obtain ⟨asked, hrun, hconcerns⟩ := ih (h.snoc leg) log
      rw [hsnoc, List.length_append] at hconcerns
      refine ⟨asked, ?_, ?_⟩
      · exact tariff.run_priceLegsAsking_cons (tariff.run_costOfAsking_of_not_ride hride) hrun
      · rw [List.length_cons, List.range'_succ, List.filter_cons_of_neg (by simp [hride])]
        exact hconcerns
    | true =>
      obtain ⟨asked, hrun, hconcerns⟩ :=
        ih (h.snoc leg) (log ++ [⟨first, waitBefore previousFinish leg, leg⟩])
      rw [hsnoc, List.length_append] at hconcerns
      refine ⟨⟨first, waitBefore previousFinish leg, leg⟩ :: asked, ?_, ?_⟩
      · rw [← List.append_cons] at hrun
        exact tariff.run_priceLegsAsking_cons (tariff.run_costOfAsking_of_ride hride) hrun
      · rw [List.length_cons, List.range'_succ, List.filter_cons_of_pos (by simp [hride])]
        exact .cons (h.concerns hride) hconcerns

/-- Legs come back in order, each with a cost and otherwise as it was. The cost is that of the leg
at its place, all costs add up to the total in whatever order they are taken, and the tariff is
asked about the boarding of every ride once. Costs stop at the greatest one. -/
theorem price_charges_each_leg (legs : List Leg) :
    ∃ costs : List Cost, costs.length = legs.length ∧
      (tariff.price legs).1 = List.zipWith Leg.priced legs costs ∧
      (∀ i leg cost, legs[i]? = some leg → costs[i]? = some cost →
        tariff.Charges legs i leg cost) ∧
      (tariff.price legs).2.value = min (costs.map Cost.value).sum (2 ^ 64 - 1) ∧
      (∀ reordered : List Cost, reordered.Perm costs →
        Cost.sum reordered = (tariff.price legs).2) ∧
      ∃ asked, (tariff.priceLegsAsking true none legs).run [] = ((tariff.price legs).1, asked) ∧
        List.Forall₂ (fun i q => q.Concerns legs i) (ridePlaces legs) asked := by
  obtain ⟨costs, hlength, hpriced, hcharges⟩ := remembers_nil.exists_costs tariff legs
  obtain ⟨asked, hrun, hconcerns⟩ := remembers_nil.exists_asked tariff legs []
  have htotal : (tariff.price legs).2 = Cost.sum costs :=
    total_eq_sum (hpriced ▸ map_cost_zipWith_priced hlength)
  rw [← fst_price] at hpriced hrun
  refine ⟨costs, hlength, hpriced, ?_, ?_, ?_, asked, hrun, ?_⟩
  · intro i leg cost hleg hcost
    have hcharge := hcharges i leg cost hleg hcost
    rwa [List.nil_append, List.length_nil, Nat.zero_add] at hcharge
  · rw [htotal, Cost.value_sum]
  · intro reordered hperm
    rw [htotal, Cost.sum_eq_of_perm hperm]
  · rw [ridePlaces, List.range_eq_range']
    exact hconcerns

/-- A hundred for every leg, nearly as much as there is for the first boarding, and a unit for every
millisecond of the wait before the others. -/
def steep : Tariff where
  leg _ := Cost.ofNat 100
  boarding first wait _ := Cost.ofNat (if first then 2 ^ 64 - 50 else wait.millis.toNat)

/-- The first of two rides costs as much as there is, and so do all legs together; the second one is
boarded after five minutes. -/
theorem price_charges_each_leg_steep :
    (steep.price Journey.changeLegs).1.map Leg.cost =
        [100, 2 ^ 64 - 1, 100, 300100, 100].map (fun n => some (Cost.ofNat n)) ∧
      (steep.price Journey.changeLegs).2 = Cost.ofNat (2 ^ 64 - 1) ∧
      ridePlaces Journey.changeLegs = [1, 3] ∧
      ∃ asked, (steep.priceLegsAsking true none Journey.changeLegs).run [] =
          ((steep.price Journey.changeLegs).1, asked) ∧ asked.length = 2 := by
  obtain ⟨costs, hlength, hpriced, hcharges, htotal, hreordered, asked, hrun, hconcerns⟩ :=
    price_charges_each_leg steep Journey.changeLegs
  exact ⟨by decide, by decide, by decide, asked, hrun, hconcerns.length_eq.symm⟩

end Tariff

end Journeys
