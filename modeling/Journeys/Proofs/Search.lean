import Journeys.Proofs.Reconstruction
import Journeys.Proofs.ResultSet
import Journeys.Settings

/-!
# Proofs: the result sets of a search

However a search comes by its result set, criteria and reconstruction fit together: costs are
compared exactly if there is a tariff to compute them (`Search.Fresh`). So the journeys that such a
set is offered can be compared, given that no factor takes a cost below itself.
-/

namespace Journeys

namespace CriteriaFlags

variable {o : CriteriaFlags} {criteria : Criteria}

theorem usesCost_of_ofFlags (h : Criteria.ofFlags o = .ok criteria) :
    criteria.usesCost = o.includeCost := by
  obtain ⟨cost, hcost, rfl⟩ := map_eq_ok_iff.1 h
  unfold costComparison at hcost
  split at hcost
  · split at hcost
    · cases hcost
    · rename_i hinclude
      split at hcost
      · cases hcost
      · cases hcost
        simpa [Criteria.usesCost] using hinclude
  · cases hcost
    by_cases hinclude : o.includeCost = true
    · simp [Criteria.usesCost, hinclude]
    · simp [Criteria.usesCost, hinclude]

end CriteriaFlags

namespace Reconstruction

/-- A journey has a cost exactly if there is a tariff. -/
theorem isSome_cost_of_journey {c : Reconstruction} {table : Arrivals} {arrival : FinalArrival}
    {j : Journey} (h : c.journey table arrival = .ok j) : j.cost.isSome = c.isPriced := by
  obtain ⟨-, -, legs, -, -, hmade⟩ := exists_madeOf_of_journey h
  rw [hmade.cost, Option.isSome_map, isPriced]

end Reconstruction

namespace Search

variable {c : Search} {s : ResultSet}

/-- A result set that a search created in one of the three ways, whoever came to listen. -/
inductive Creates (c : Search) : ResultSet → Prop where
  | results {s : ResultSet} (h : c.results = .ok s) : c.Creates s
  | priced {s : ResultSet} (h : c.pricedResults = .ok s) : c.Creates s
  | unpriced {s : ResultSet} (h : c.unpricedResults = .ok s) : c.Creates s
  | listen {s : ResultSet} (h : c.Creates s) : c.Creates s.listen
  | subscribe {s : ResultSet} (h : c.Creates s) : c.Creates s.subscribe

/-- What a search hands out: nothing has happened yet, and journeys are priced exactly if their
costs are compared. -/
structure Fresh (c : Search) (s : ResultSet) : Prop where
  journeys : s.journeys = []
  reached : s.reached = false
  iteration : s.iteration = none
  limit : s.limit = c.settings.limit
  rebuild : ∃ tariff, s.rebuild = (c.reconstruction tariff).journey ∧
    s.criteria.usesCost = tariff.isSome

theorem fresh_of_resultSet {flags : CriteriaFlags} {tariff : Option Tariff}
    (h : c.resultSet flags tariff = .ok s) (hflags : flags.includeCost = tariff.isSome) :
    c.Fresh s := by
  obtain ⟨criteria, hcriteria, h⟩ := bind_eq_ok_iff.1 h
  cases h
  have huses := CriteriaFlags.usesCost_of_ofFlags hcriteria
  exact ⟨rfl, rfl, rfl, rfl, tariff, rfl, huses.trans hflags⟩

theorem fresh_of_pricedResults (h : c.pricedResults = .ok s) : c.Fresh s := by
  unfold pricedResults at h
  split at h
  · cases h
  · exact fresh_of_resultSet h rfl

theorem fresh_of_unpricedResults (h : c.unpricedResults = .ok s) : c.Fresh s :=
  fresh_of_resultSet h rfl

theorem Creates.fresh (h : c.Creates s) : c.Fresh s := by
  induction h with
  | results h =>
    obtain ⟨-, -, h⟩ := bind_eq_ok_iff.1 h
    split at h
    · exact fresh_of_pricedResults h
    · exact fresh_of_unpricedResults h
  | priced h => exact fresh_of_pricedResults h
  | unpriced h => exact fresh_of_unpricedResults h
  | listen _ ih => exact ⟨ih.journeys, ih.reached, ih.iteration, ih.limit, ih.rebuild⟩
  | subscribe _ ih => exact ⟨ih.journeys, ih.reached, ih.iteration, ih.limit, ih.rebuild⟩

/-- What a set of a search is offered can be compared, as far as no factor takes its cost below
itself. -/
theorem Fresh.compares (h : c.Fresh s) {actions : List ResultSet.Action} {j : Journey}
    (hj : j ∈ s.offered actions)
    (hgrows : ∀ factor, s.criteria.cost = .relaxed factor →
      ∀ x, j.cost = some x → x ≤ x.scale factor) : s.criteria.Compares j := by
  obtain ⟨tariff, hrebuild, huses⟩ := h.rebuild
  obtain ⟨table, arrival, found, hfound, -, hcost⟩ := ResultSet.exists_rebuild_of_mem_offered hj
  rw [hrebuild] at hfound
  have hpriced : j.cost.isSome = s.criteria.usesCost := by
    rw [hcost, Reconstruction.isSome_cost_of_journey hfound, huses]
    rfl
  unfold Criteria.Compares CostComparison.Compares
  unfold Criteria.usesCost at hpriced
  cases hc : s.criteria.cost with
  | ignored => trivial
  | exact =>
    rw [hc] at hpriced
    exact Option.isSome_iff_exists.1 hpriced
  | relaxed factor =>
    rw [hc] at hpriced
    obtain ⟨x, hx⟩ := Option.isSome_iff_exists.1 hpriced
    exact ⟨x, hx, hgrows factor hc x hx⟩

end Search

end Journeys
