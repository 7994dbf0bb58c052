import Journeys.Proofs.Reconstruction
import Journeys.Proofs.Replay

/-!
# Proofs: what a result set remembers of a run

A result set remembers three things: whether the round has reached anything, the departure of the
iteration, and the journeys it keeps. Each of them is read off the actions so far. The flag tells of
the offers since the last start of a round; the departure is that of the last start of an iteration;
and every kept journey goes back to one accepted offer, from which on it has been kept as it is. An
offer that is not accepted is not remembered at all.
-/

namespace Journeys

namespace ResultSet

variable {s : ResultSet} {table : Arrivals} {arrival : FinalArrival} {j : Journey}
  {action : Action} {actions : List Action}

/-! ## One action -/

/-- The arrival would be accepted if it were offered now. -/
def Accepts (s : ResultSet) (table : Arrivals) (arrival : FinalArrival) : Prop :=
  ∃ evicted, (s.consider table arrival).2.outcome = .ok (.accepted evicted)

theorem accepts_iff :
    s.Accepts table arrival ↔
      ∃ j, s.candidate? table arrival = some j ∧ s.front.admits j = true := by
  constructor
  · rintro ⟨evicted, houtcome⟩
    cases hput : s.candidate? table arrival with
    | some j => exact ⟨j, rfl, (isAccepted_consider_iff hput).1 ⟨evicted, houtcome⟩⟩
    | none =>
      exfalso
      unfold candidate? at hput
      unfold consider at houtcome
      split at hput
      · rename_i hadm
        rw [if_pos hadm] at houtcome
        split at hput
        · cases hput
        · rename_i e he
          rw [he] at houtcome
          cases e <;> cases houtcome
      · rename_i hadm
        rw [if_neg hadm] at houtcome
        cases houtcome
  · rintro ⟨j, hput, hadm⟩
    exact (isAccepted_consider_iff hput).2 hadm

/-- An offer that is not accepted leaves the set as it is. -/
theorem consider_of_not_accepts (h : ¬s.Accepts table arrival) :
    (s.consider table arrival).1 = s := by
  cases hput : s.candidate? table arrival with
  | none => exact consider_of_no_candidate hput
  | some j =>
    have hadm : s.front.admits j = false := by
      by_contra hadm
      exact h (accepts_iff.2 ⟨j, hput, by simpa using hadm⟩)
    rw [consider_of_candidate hput, store, Front.offer, hadm, Bool.or_false]
    rfl

theorem reached_consider :
    (s.consider table arrival).1.reached = true ↔
      s.reached = true ∨ s.Accepts table arrival := by
  by_cases haccepts : s.Accepts table arrival
  · obtain ⟨j, hput, hadm⟩ := accepts_iff.1 haccepts
    have hreached : (s.store j).reached = true := by rw [store, hadm, Bool.or_true]
    rw [consider_of_candidate hput]
    exact ⟨fun _ => .inr haccepts, fun _ => hreached⟩
  · rw [consider_of_not_accepts haccepts]
    exact ⟨.inl, fun h => h.resolve_right haccepts⟩

theorem iteration_consider : (s.consider table arrival).1.iteration = s.iteration := by
  cases hput : s.candidate? table arrival with
  | none => rw [consider_of_no_candidate hput]
  | some j =>
    rw [consider_of_candidate hput]
    rfl

theorem iteration_stamp (s : ResultSet) (found : Journey) :
    (s.stamp found).iteration = s.iteration.or found.iteration := by
  unfold stamp
  cases s.iteration <;> rfl

/-- A journey that is kept after an action was kept before, or comes from an accepted offer and was
not kept before. -/
theorem mem_journeys_act (hj : j ∈ (s.act action).journeys) :
    j ∈ s.journeys ∨ ∃ table arrival, action = .offer table arrival ∧ s.Accepts table arrival ∧
      s.candidate? table arrival = some j ∧ j ∉ s.journeys := by
  cases action with
  | pass progress => cases progress <;> exact .inl hj
  | offer table arrival =>
    have hact : s.act (.offer table arrival) = (s.consider table arrival).1 := rfl
    rw [hact] at hj
    cases hput : s.candidate? table arrival with
    | none =>
      rw [consider_of_no_candidate hput] at hj
      exact .inl hj
    | some k =>
      rw [consider_of_candidate hput] at hj
      rcases Front.mem_elements_offer.1 hj with ⟨hold, -⟩ | ⟨rfl, hadm⟩
      · exact .inl hold
      · exact .inr ⟨table, arrival, rfl, accepts_iff.2 ⟨j, hput, hadm⟩, hput,
          Front.not_mem_of_admits hadm (s.criteria.better_self j)⟩

/-! ## The actions so far -/

/-- The departure of an iteration, if the action starts one. -/
def Action.departure? : Action → Option Time
  | .pass (.iterationStart departure) => some departure
  | _ => none

/-- The departure of the last iteration that the actions start. -/
def lastDeparture? (actions : List Action) : Option Time :=
  (actions.filterMap Action.departure?).getLast?

theorem lastDeparture?_concat (actions : List Action) (action : Action) :
    lastDeparture? (actions ++ [action]) = action.departure?.or (lastDeparture? actions) := by
  unfold lastDeparture?
  rw [List.filterMap_append]
  cases h : action.departure? with
  | none => simp [h]
  | some departure => simp [h]

/-- An offer was accepted and no round has started since. -/
def AcceptedInRound (s : ResultSet) (actions : List Action) : Prop :=
  ∃ before table arrival after, actions = before ++ .offer table arrival :: after ∧
    (∀ round, .pass (.roundStart round) ∉ after) ∧ (s.run before).Accepts table arrival

theorem run_concat (s : ResultSet) (actions : List Action) (action : Action) :
    s.run (actions ++ [action]) = (s.run actions).act action := by
  rw [run_append]
  rfl

theorem acceptedInRound_concat :
    s.AcceptedInRound (actions ++ [action]) ↔
      (∃ table arrival, action = .offer table arrival ∧ (s.run actions).Accepts table arrival) ∨
        ((∀ round, action ≠ .pass (.roundStart round)) ∧ s.AcceptedInRound actions) := by
  constructor
  · rintro ⟨before, table, arrival, after, hactions, hround, haccepts⟩
    rcases List.eq_nil_or_concat after with rfl | ⟨earlier, last, rfl⟩
    · obtain ⟨rfl, haction⟩ := List.append_inj' hactions rfl
      cases haction
      exact .inl ⟨table, arrival, rfl, haccepts⟩
    · rw [List.concat_eq_append, ← List.cons_append, ← List.append_assoc] at hactions
      obtain ⟨rfl, haction⟩ := List.append_inj' hactions rfl
      cases haction
      simp only [List.concat_eq_append, List.mem_append, List.mem_singleton, not_or] at hround
      exact .inr ⟨fun round h => (hround round).2 h.symm, before, table, arrival, earlier, rfl,
        fun round => (hround round).1, haccepts⟩
  · rintro (⟨table, arrival, rfl, haccepts⟩ | ⟨hround, before, table, arrival, after, rfl, hafter,
      haccepts⟩)
    · exact ⟨actions, table, arrival, [], rfl, fun _ => by simp, haccepts⟩
    · refine ⟨before, table, arrival, after ++ [action], by simp, fun round hmem => ?_, haccepts⟩
      rcases List.mem_append.1 hmem with hmem | hmem
      · exact hafter round hmem
      · exact hround round (List.mem_singleton.1 hmem).symm

/-- The flag tells whether an offer was accepted in this round. -/
theorem reached_run (hs : s.reached = false) (actions : List Action) :
    (s.run actions).reached = true ↔ s.AcceptedInRound actions := by
  induction actions using List.reverseRecOn with
  | nil =>
    constructor
    · intro h
      exact absurd h (by rw [run, List.foldl_nil, hs]; exact Bool.false_ne_true)
    · rintro ⟨before, table, arrival, after, hactions, -, -⟩
      simp at hactions
  | append_singleton actions action ih =>
    rw [run_concat, acceptedInRound_concat, ← ih]
    cases action with
    | offer table arrival =>
      have hact : ((s.run actions).act (.offer table arrival)).reached = true ↔
          (s.run actions).reached = true ∨ (s.run actions).Accepts table arrival :=
        reached_consider
      simp [hact, or_comm]
    | pass progress =>
      cases progress with
      | roundStart round =>
        have hact : ((s.run actions).act (.pass (.roundStart round))).reached = false := rfl
        simp [hact]
      | iterationStart departure => simp [act, pass]
      | roundEnd round => simp [act, pass]
      | searchComplete => simp [act, pass]

theorem iteration_run (hs : s.iteration = none) (actions : List Action) :
    (s.run actions).iteration = lastDeparture? actions := by
  induction actions using List.reverseRecOn with
  | nil => exact hs
  | append_singleton actions action ih =>
    rw [run_concat, lastDeparture?_concat, ← ih]
    cases action with
    | offer table arrival => exact iteration_consider
    | pass progress => cases progress <;> rfl

/-! ## The offer behind a journey -/

/-- The journey was stored by the offer of an arrival after some actions, and has been kept through
the actions behind it. It is what was found for the arrival, marked with the departure of its
iteration if there was one. -/
structure StoredBy (s : ResultSet) (j : Journey) (before : List Action) (table : Arrivals)
    (arrival : FinalArrival) (after : List Action) (found : Journey) : Prop where
  rebuilt : s.rebuild table arrival = .ok found
  legs : j.legs = found.legs
  cost : j.cost = found.cost
  iteration : j.iteration = (lastDeparture? before).or found.iteration
  accepted : (s.run before).Accepts table arrival
  new : j ∉ (s.run before).journeys
  kept : ∀ meanwhile, meanwhile <+: after →
    j ∈ (s.run (before ++ .offer table arrival :: meanwhile)).journeys

/-- A journey that outlasts one more action has been kept through all of them. -/
theorem StoredBy.concat {before after : List Action} {found : Journey}
    (h : s.StoredBy j before table arrival after found)
    (hj : j ∈ (s.run (before ++ .offer table arrival :: (after ++ [action]))).journeys) :
    s.StoredBy j before table arrival (after ++ [action]) found := by
  refine { h with kept := fun meanwhile hprefix => ?_ }
  rcases List.prefix_concat_iff.1 hprefix with rfl | hprefix
  · exact hj
  · exact h.kept meanwhile hprefix

/-- An offer that puts up a journey and is accepted stores it. -/
theorem storedBy_of_candidate (hs : s.iteration = none)
    (hput : (s.run actions).candidate? table arrival = some j)
    (haccepts : (s.run actions).Accepts table arrival) (hnew : j ∉ (s.run actions).journeys)
    (hj : j ∈ ((s.run actions).act (.offer table arrival)).journeys) :
    ∃ found, s.StoredBy j actions table arrival [] found := by
  obtain ⟨-, found, hfound, rfl⟩ := candidate?_eq_some_iff.1 hput
  refine ⟨found, ?_, legs_stamp _ _, cost_stamp _ _, ?_, haccepts, hnew, ?_⟩
  · rw [← (s.sameSearch_run actions).2.1]
    exact hfound
  · rw [iteration_stamp, iteration_run hs]
  · intro meanwhile hprefix
    rw [List.prefix_nil.1 hprefix, run_concat]
    exact hj

theorem exists_storedBy (hs : s.journeys = []) (hiteration : s.iteration = none)
    (hj : j ∈ (s.run actions).journeys) :
    ∃ before table arrival after found, actions = before ++ .offer table arrival :: after ∧
      s.StoredBy j before table arrival after found := by
  induction actions using List.reverseRecOn with
  | nil =>
    have hnone : j ∈ s.journeys := hj
    rw [hs] at hnone
    cases hnone
  | append_singleton actions action ih =>
    rw [run_concat] at hj
    rcases mem_journeys_act hj with hold | ⟨table, arrival, rfl, haccepts, hput, hnew⟩
    · obtain ⟨before, table, arrival, after, found, rfl, hstored⟩ := ih hold
      rw [← run_concat, List.append_assoc, List.cons_append] at hj
      exact ⟨before, table, arrival, after ++ [action], found, by simp, hstored.concat hj⟩
    · obtain ⟨found, hstored⟩ := storedBy_of_candidate hiteration hput haccepts hnew hj
      exact ⟨actions, table, arrival, [], found, rfl, hstored⟩

end ResultSet

/-- Reconstruction knows of no iterations. -/
theorem Reconstruction.iteration_of_journey {c : Reconstruction} {table : Arrivals}
    {arrival : FinalArrival} {j : Journey} (h : c.journey table arrival = .ok j) :
    j.iteration = none := by
  obtain ⟨-, -, legs, -, -, hmade⟩ := exists_madeOf_of_journey h
  exact hmade.iteration

/-- At any time of a run, from a new result set on: the flag tells whether an offer was accepted
since the last start of a round; every kept journey goes back to an accepted offer, has been kept
since as it is, and bears the departure of the last iteration that started before that offer, or
else what it bore when it was found, which is nothing for a reconstructed one; and an offer that is
not accepted leaves the set as it is. -/
theorem run_remembers (criteria : Criteria) (rebuild : Rebuilder) (limit : Option TimeBound)
    (listened : Bool) (observers : Nat) (actions : List ResultSet.Action) :
    let s : ResultSet := { criteria, rebuild, limit, listened, observers }
    ((s.run actions).reached = true ↔ s.AcceptedInRound actions) ∧
    (∀ j ∈ (s.run actions).journeys, ∃ before table arrival after found,
      actions = before ++ .offer table arrival :: after ∧
        s.StoredBy j before table arrival after found ∧
        ∀ c : Reconstruction, rebuild = c.journey →
          j.iteration = ResultSet.lastDeparture? before) ∧
    ∀ table arrival, ¬(s.run actions).Accepts table arrival →
      ((s.run actions).consider table arrival).1 = s.run actions := by
  intro s
  refine ⟨ResultSet.reached_run rfl actions, fun j hj => ?_,
    fun table arrival => ResultSet.consider_of_not_accepts⟩
  obtain ⟨before, table, arrival, after, found, hactions, hstored⟩ :=
    ResultSet.exists_storedBy rfl rfl hj
  refine ⟨before, table, arrival, after, found, hactions, hstored, fun c hc => ?_⟩
  have hfound : c.journey table arrival = .ok found := hc ▸ hstored.rebuilt
  rw [hstored.iteration, Reconstruction.iteration_of_journey hfound, Option.or_none]

/-- A journey that bears a departure when it is found keeps it in a run without iterations. -/
theorem found_departure_is_kept :
    ¬∀ (criteria : Criteria) (rebuild : Rebuilder) (actions : List ResultSet.Action),
      let s : ResultSet := { criteria, rebuild }
      ∀ j ∈ (s.run actions).journeys, ∃ before table arrival after,
        actions = before ++ .offer table arrival :: after ∧
          (s.run before).Accepts table arrival ∧
          j.iteration = ResultSet.lastDeparture? before := by
  intro hclaim
  let early : Journey := (stroll (.ofHms 8 30 0) Cost.zero).atIteration (.ofHms 7 50 0)
  let s : ResultSet := preparedSet ⟨.nothing, .ignored⟩ [early]
  have hkept : (s.run (offersOf [0])).journeys = [early] := by decide
  obtain ⟨before, table, arrival, after, hactions, -, hiteration⟩ :=
    hclaim s.criteria s.rebuild (offersOf [0]) early (hkept ▸ List.mem_singleton_self early)
  have hnone : before = [] := by
    have hlength := congrArg List.length hactions
    simp [offersOf] at hlength
    exact List.length_eq_zero_iff.1 (by omega)
  rw [hnone] at hiteration
  cases hiteration

end Journeys
