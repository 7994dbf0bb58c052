import Journeys.Proofs.RepeatedOffers
import Mathlib.Algebra.Ring.Nat

/-!
# Proofs: the prices of the journeys that are kept

A tariff prices every leg, and the cost of a journey is what its legs cost together. Without one,
legs stay as they were placed, without a price. Which of the two holds of the journeys of a search
is what its criteria say, however the search came by its result set.
-/

namespace Journeys

namespace Cost

/-- Adding up stops at the greatest cost once, at whatever point that is reached. -/
theorem value_foldl_add (costs : List Cost) (c : Cost) :
    (costs.foldl (· + ·) c).value = min (c.value + (costs.map value).sum) (2 ^ 64 - 1) := by
  induction costs generalizing c with
  | nil =>
    have hle := c.le_max
    rw [List.foldl_nil, List.map_nil, List.sum_nil]
    omega
  | cons d costs ih =>
    have hadd := value_add c d
    rw [List.foldl_cons, ih, List.map_cons, List.sum_cons]
    omega

theorem value_sum (costs : List Cost) :
    (sum costs).value = min (costs.map value).sum (2 ^ 64 - 1) := by
  rw [sum, value_foldl_add, value_zero, Nat.zero_add]

end Cost

namespace Journey

/-- Every leg has a cost, and the journey has what they add up to, as far as a cost can go. -/
def AddsUp (j : Journey) : Prop :=
  ∃ (total : Cost) (costs : List Cost), j.cost = some total ∧ j.legs.map Leg.cost = costs.map some ∧
    total.value = min (costs.map Cost.value).sum (2 ^ 64 - 1)

/-- Neither the journey nor any of its legs has a cost. -/
def Unpriced (j : Journey) : Prop := j.cost = none ∧ ∀ leg ∈ j.legs, leg.cost = none

end Journey

namespace Tariff

theorem exists_costs_priceLegs (tariff : Tariff) (first : Bool) (previousFinish : Option Time)
    (legs : List Leg) :
    ∃ costs : List Cost,
      (tariff.priceLegs first previousFinish legs).map Leg.cost = costs.map some := by
  induction legs generalizing first previousFinish with
  | nil => exact ⟨[], rfl⟩
  | cons leg legs ih =>
    obtain ⟨costs, hcosts⟩ := ih (first && !leg.isRide) (some leg.finish)
    refine ⟨tariff.costOf first previousFinish leg :: costs, ?_⟩
    rw [priceLegs, List.map_cons, hcosts]
    rfl

/-- The total is what the costs of the legs add up to. -/
theorem total_eq_sum {tariff : Tariff} {legs : List Leg} {costs : List Cost}
    (hcosts : (tariff.priceLegs true none legs).map Leg.cost = costs.map some) :
    (tariff.price legs).2 = Cost.sum costs := by
  have hvalues : (tariff.priceLegs true none legs).map (fun leg => leg.cost.getD Cost.zero) =
      costs := by
    calc (tariff.priceLegs true none legs).map (fun leg => leg.cost.getD Cost.zero)
        = ((tariff.priceLegs true none legs).map Leg.cost).map (fun x => x.getD Cost.zero) := by
          rw [List.map_map, Function.comp_def]
      _ = (costs.map some).map (fun x => x.getD Cost.zero) := by rw [hcosts]
      _ = costs := by rw [List.map_map, Function.comp_def]; exact List.map_id' costs
  rw [price_eq, hvalues]

theorem addsUp_of_price {tariff : Tariff} {legs : List Leg} {j : Journey}
    (hlegs : j.legs = (tariff.price legs).1) (hcost : j.cost = some (tariff.price legs).2) :
    j.AddsUp := by
  obtain ⟨costs, hcosts⟩ := tariff.exists_costs_priceLegs true none legs
  rw [fst_price] at hlegs
  refine ⟨_, costs, hcost, hlegs ▸ hcosts, ?_⟩
  rw [total_eq_sum hcosts, Cost.value_sum]

end Tariff

namespace Reconstruction

variable {c : Reconstruction} {table : Arrivals} {arrival : FinalArrival} {j : Journey}

/-- A tariff prices a journey whole, and without one nothing of it is priced. -/
theorem prices_of_journey (h : c.journey table arrival = .ok j) :
    if c.isPriced then j.AddsUp else j.Unpriced := by
  obtain ⟨recorded, settled, legs, -, hplaced, hlegs, hcost, -⟩ := exists_madeOf_of_journey h
  unfold isPriced
  cases htariff : c.tariff with
  | none =>
    rw [htariff] at hlegs hcost
    refine ⟨hcost, ?_⟩
    rw [hlegs]
    exact Placement.cost_of_mem_legs hplaced
  | some tariff =>
    rw [htariff] at hlegs hcost
    exact Tariff.addsUp_of_price hlegs hcost

end Reconstruction

/-- In every set that a search created, and at any time of a run: if costs are compared, all
journeys and all their legs have one, and those of the legs add up to that of the journey; otherwise
there is no cost anywhere. -/
theorem Search.prices_of_kept {c : Search} {s : ResultSet} (hs : c.Creates s)
    (actions : List ResultSet.Action) :
    ∀ j ∈ (s.run actions).journeys,
      if (s.run actions).criteria.usesCost then j.AddsUp else j.Unpriced := by
  intro j hj
  have hfresh := hs.fresh
  obtain ⟨tariff, hrebuild, huses⟩ := hfresh.rebuild
  have hoffered := ResultSet.mem_offered_of_mem_journeys hfresh.journeys hj
  obtain ⟨table, arrival, found, hfound, hlegs, hcost⟩ :=
    ResultSet.exists_rebuild_of_mem_offered hoffered
  rw [hrebuild] at hfound
  have hprices := Reconstruction.prices_of_journey hfound
  have hpriced : (c.reconstruction tariff).isPriced = s.criteria.usesCost := huses.symm
  rw [ResultSet.criteria_run, ← hpriced]
  -- a kept journey is the one found but for the iteration, which has no part in prices
  unfold Journey.AddsUp Journey.Unpriced at hprices ⊢
  rw [hlegs, hcost]
  exact hprices

/-- The charge for the four legs of the journey with a connection is its cost. -/
theorem Search.prices_of_kept_feeder :
    let s := chargedSet.run [.offer feederTable feederArrival]
    chargedSearch.Creates chargedSet ∧ s.criteria.usesCost = true ∧
      s.journeys.map (fun j => (j.cost, j.legs.length)) = [(some (Cost.ofNat 400), 4)] ∧
      ∀ j ∈ s.journeys, j.AddsUp := by
  intro s
  have hcreates : chargedSearch.Creates chargedSet := .results rfl
  exact ⟨hcreates, rfl, by decide, Search.prices_of_kept hcreates _⟩

end Journeys
