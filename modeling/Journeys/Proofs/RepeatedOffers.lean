import Journeys.Proofs.Search
import Journeys.Proofs.Verdict

/-!
# Proofs: labels of offers, and offers made again

What an offer is told depends on the first stored journey that it fails to beat. In a set that a
search created it is true of the whole set all the same. An arrival that comes back finds a stored
journey that is at least as good as its own, be it that its own one is still there or that it left
for a better one; so it is turned away and nothing changes.
-/

namespace Journeys

/-- The label that a journey gets is true of all the journeys that are kept. -/
structure TrueLabel (better : Journey → Journey → Bool) (kept : List Journey) (j : Journey)
    (outcome : Except JourneyError Outcome) : Prop where
  dominated_iff : outcome = .ok .dominated ↔ ∃ e ∈ kept, dominates better e j = true
  duplicate_iff : outcome = .ok .duplicate ↔ ∃ e ∈ kept, ties better e j = true
  exclusive : ¬((∃ e ∈ kept, dominates better e j = true) ∧ ∃ e ∈ kept, ties better e j = true)
  accepted : (∀ e ∈ kept, dominates better e j = false ∧ ties better e j = false) →
    outcome = .ok (.accepted (kept.countP fun e => dominates better j e))

/-- What an arrival may be told that is offered again: it is turned away if it led to a journey
before, and else told the same as before. -/
def Outcome.Repeats : Except JourneyError Outcome → Except JourneyError Outcome → Prop
  | .ok (.accepted _), again => again = .ok .dominated ∨ again = .ok .duplicate
  | .ok .dominated, again => again = .ok .dominated ∨ again = .ok .duplicate
  | .ok .duplicate, again => again = .ok .dominated ∨ again = .ok .duplicate
  | .ok .outsideTimeLimit, again => again = .ok .outsideTimeLimit
  | .ok (.dropped error), again => again = .ok (.dropped error)
  | .error error, again => again = .error error

theorem Outcome.Repeats.of_ofVerdict {verdict : Verdict Journey}
    {again : Except JourneyError Outcome} (h : again = .ok .dominated ∨ again = .ok .duplicate) :
    Outcome.Repeats (.ok (.ofVerdict verdict)) again := by
  cases verdict <;> exact h

namespace Criteria

variable {c : Criteria} {j : Journey}

theorem unbeatenThrough (hj : c.Compares j) : UnbeatenThrough c.better j :=
  fun _ _ hja hbj => better_trans hj hbj hja

/-- The iteration that found a journey does not count. -/
theorem better_stamp (s : ResultSet) (j e : Journey) : c.better (s.stamp j) e = c.better j e := by
  unfold ResultSet.stamp
  cases s.iteration <;> rfl

end Criteria

namespace ResultSet

variable {s s' : ResultSet} {table : Arrivals} {arrival : FinalArrival} {j : Journey}

theorem trueLabel (hbal : s.front.Balanced) (hput : s.candidate? table arrival = some j)
    (hj : s.criteria.Compares j) :
    TrueLabel s.criteria.better s.journeys j (s.consider table arrival).2.outcome := by
  have hthrough := Criteria.unbeatenThrough hj
  have hdominated : (s.consider table arrival).2.outcome = .ok .dominated ↔
      ∃ e ∈ s.journeys, dominates s.criteria.better e j = true := by
    rw [outcome_of_candidate hput, Except.ok.injEq, Outcome.ofVerdict_eq_dominated_iff]
    exact Front.judge_eq_dominated_iff hbal hthrough
  have hduplicate : (s.consider table arrival).2.outcome = .ok .duplicate ↔
      ∃ e ∈ s.journeys, ties s.criteria.better e j = true := by
    rw [outcome_of_candidate hput, Except.ok.injEq, Outcome.ofVerdict_eq_duplicate_iff]
    exact Front.judge_eq_duplicate_iff hbal hthrough
  refine ⟨hdominated, hduplicate, ?_, ?_⟩
  · rintro ⟨hdom, hties⟩
    have hboth := (hdominated.2 hdom).symm.trans (hduplicate.2 hties)
    cases hboth
  · intro hfree
    rw [outcome_of_candidate hput, Front.judge_of_unchallenged hfree, List.countP_eq_length_filter]
    rfl

theorem SameSearch.stamps (h : s.SameSearch s') (hput : s'.candidate? table arrival = some j) :
    ∃ found, s'.stamp found = j ∧ s.candidate? table arrival = some (s.stamp found) := by
  obtain ⟨-, hrebuild, hlimit⟩ := h
  obtain ⟨hadm, found, hfound, rfl⟩ := candidate?_eq_some_iff.1 hput
  refine ⟨found, rfl, candidate?_eq_some_iff.2 ⟨?_, found, ?_, rfl⟩⟩
  · unfold admits at hadm ⊢
    rw [← hlimit]
    exact hadm
  · rw [← hrebuild]
    exact hfound

/-- An arrival that puts up nothing is told the same at any time of a search. -/
theorem SameSearch.repeats_of_no_candidate (h : s.SameSearch s')
    (hput : s'.candidate? table arrival = none) :
    Outcome.Repeats (s.consider table arrival).2.outcome
      (s'.consider table arrival).2.outcome := by
  obtain ⟨-, hrebuild, hlimit⟩ := h
  have hadmits : s'.admits arrival = s.admits arrival := by
    unfold admits
    rw [hlimit]
  unfold candidate? at hput
  unfold consider
  rw [hadmits, hrebuild] at hput ⊢
  split
  · rename_i hadm
    rw [if_pos hadm] at hput
    cases hfound : s.rebuild table arrival with
    | ok found =>
      rw [hfound] at hput
      cases hput
    | error e => cases e <;> rfl
  · rfl

/-- A journey that some stored one is at least as good as changes nothing. -/
theorem consider_of_covered (hbal : s.front.Balanced)
    (hput : s.candidate? table arrival = some j) (hj : s.criteria.Compares j)
    (hcovered : s.front.Covers j) :
    (s.consider table arrival).1 = s ∧
      ((s.consider table arrival).2.outcome = .ok .dominated ∨
        (s.consider table arrival).2.outcome = .ok .duplicate) := by
  obtain ⟨e, he, hje⟩ := hcovered
  constructor
  · have hadm : s.front.admits j = false := by
      rw [Bool.eq_false_iff, ne_eq, Front.admits_iff]
      intro hall
      rw [hall e he] at hje
      cases hje
    rw [consider_of_candidate hput]
    simp only [store, Front.offer, hadm, Bool.or_false, Bool.false_eq_true, if_false]
  · rw [outcome_of_candidate hput,
      Front.judge_of_loses hbal (Criteria.unbeatenThrough hj) he hje]
    by_cases hej : s.criteria.better e j = true
    · left
      rw [if_pos hej]
      rfl
    · right
      rw [if_neg hej]
      rfl

/-- What was put up once is covered from then on, whichever iteration finds it again. -/
theorem covers_stamp {actions : List Action} {before now : ResultSet} {found : Journey}
    (hs : s.journeys = []) (hcompares : ∀ j ∈ s.offered actions, s.criteria.Compares j)
    (hmem : before.stamp found ∈ s.offered actions) :
    (s.run actions).front.Covers (now.stamp found) := by
  obtain ⟨e, he, hloses⟩ := s.criteria.unbeatenAmong.covers_ofList hcompares hmem
  rw [← journeys_run hs] at he
  rw [Criteria.better_stamp] at hloses
  refine ⟨e, he, ?_⟩
  rw [criteria_run, Criteria.better_stamp]
  exact hloses

end ResultSet

/-- In every set that a search created, and at any time of a run, the label of an offer is true of
all stored journeys; and an arrival that was offered before changes nothing and is turned away, or
told the same if there is no journey for it. Of factors it is only used that they take the cost of
no offered journey below itself. -/
theorem offers_labelled_and_repeatable {c : Search} {s : ResultSet} (hs : c.Creates s)
    (actions : List ResultSet.Action) (table : Arrivals) (arrival : FinalArrival)
    (hgrows : ∀ factor, s.criteria.cost = .relaxed factor →
      ∀ j ∈ s.offered (actions ++ [.offer table arrival]),
        ∀ x, j.cost = some x → x ≤ x.scale factor) :
    (∀ j, (s.run actions).candidate? table arrival = some j →
        TrueLabel s.criteria.better (s.run actions).journeys j
          ((s.run actions).consider table arrival).2.outcome) ∧
      ∀ before after, actions = before ++ .offer table arrival :: after →
        ((s.run actions).consider table arrival).1 = s.run actions ∧
          Outcome.Repeats ((s.run before).consider table arrival).2.outcome
            ((s.run actions).consider table arrival).2.outcome := by
  have hfresh := hs.fresh
  have hbal : (s.run actions).front.Balanced :=
    ResultSet.balanced_run (ResultSet.balanced_of_no_journeys hfresh.journeys) actions
  have hcompares : ∀ j ∈ s.offered (actions ++ [.offer table arrival]), s.criteria.Compares j :=
    fun j hj => hfresh.compares hj fun factor hc => hgrows factor hc j hj
  have hearlier : ∀ j ∈ s.offered actions, s.criteria.Compares j := by
    intro j hj
    refine hcompares j ?_
    rw [ResultSet.offered_append]
    exact List.mem_append_left _ hj
  have hnext : ∀ j, (s.run actions).candidate? table arrival = some j →
      (s.run actions).criteria.Compares j := by
    intro j hput
    rw [ResultSet.criteria_run]
    exact hcompares j (ResultSet.mem_offered_iff.2 ⟨actions, table, arrival, [], rfl, hput⟩)
  refine ⟨fun j hput => ?_, ?_⟩
  · rw [← ResultSet.criteria_run s actions]
    exact ResultSet.trueLabel hbal hput (hnext j hput)
  · rintro before after hactions
    have hsame : (s.run before).SameSearch (s.run actions) := by
      rw [hactions, ResultSet.run_append]
      exact ResultSet.sameSearch_run _ _
    cases hput : (s.run actions).candidate? table arrival with
    | none => exact ⟨ResultSet.consider_of_no_candidate hput, hsame.repeats_of_no_candidate hput⟩
    | some j =>
      obtain ⟨found, rfl, hfirst⟩ := hsame.stamps hput
      have hmem : (s.run before).stamp found ∈ s.offered actions :=
        ResultSet.mem_offered_iff.2 ⟨before, table, arrival, after, hactions, hfirst⟩
      -- the journey of then may be gone, but what covers it covers the journey of now
      have hcovered : (s.run actions).front.Covers ((s.run actions).stamp found) :=
        ResultSet.covers_stamp hfresh.journeys hearlier hmem
      obtain ⟨hset, houtcome⟩ :=
        ResultSet.consider_of_covered hbal hput (hnext _ hput) hcovered
      refine ⟨hset, ?_⟩
      rw [ResultSet.outcome_of_candidate hfirst]
      exact Outcome.Repeats.of_ofVerdict houtcome

/-- The search over the feeder and its connections, with a charge for every leg. -/
def chargedSearch : Search :=
  { settings := { includeCost := true, relax := some 1.25 }
    network := Network.ofPatterns [feederPattern, onwardPattern]
    slack := UniformSlack.zero.policy
    tariff := some (Tariff.flat (Cost.ofNat 100)) }

/-- The result set of that search. -/
def chargedSet : ResultSet :=
  { criteria := ⟨.nothing, .relaxed 1.25⟩
    rebuild := (chargedSearch.reconstruction chargedSearch.tariff).journey }

/-- The arrival behind the feeder alone. -/
def shortArrival : FinalArrival :=
  { previous := ⟨1⟩, egress := ⟨⟨2⟩, minute⟩, time := .ofHms 8 11 0, round := 1 }

/-- The journey with a connection is stored, leaves for the one without, and is turned away when its
arrival comes back. -/
theorem offers_labelled_and_repeatable_feeder :
    let actions : List ResultSet.Action :=
      [.offer feederTable feederArrival, .offer feederTable shortArrival]
    let now := chargedSet.run actions
    chargedSearch.Creates chargedSet ∧
      (chargedSet.consider feederTable feederArrival).2.outcome = .ok (.accepted 0) ∧
      ((chargedSet.run [.offer feederTable feederArrival]).consider feederTable
        shortArrival).2.outcome = .ok (.accepted 1) ∧
      (∃ j, now.candidate? feederTable feederArrival = some j ∧
        TrueLabel chargedSet.criteria.better now.journeys j (.ok .dominated)) ∧
      (now.consider feederTable feederArrival).1 = now := by
  intro actions now
  have hcreates : chargedSearch.Creates chargedSet := .results rfl
  have hcosts : ∀ j ∈ chargedSet.offered (actions ++ [.offer feederTable feederArrival]),
      j.cost = some (Cost.ofNat 400) ∨ j.cost = some (Cost.ofNat 300) := by decide
  have hgrows : ∀ factor, chargedSet.criteria.cost = .relaxed factor →
      ∀ j ∈ chargedSet.offered (actions ++ [.offer feederTable feederArrival]),
        ∀ x, j.cost = some x → x ≤ x.scale factor := by
    intro factor hfactor j hj x hx
    cases hfactor
    rcases hcosts j hj with h | h
    · cases h.symm.trans hx
      decide
    · cases h.symm.trans hx
      decide
  obtain ⟨hlabel, hrepeat⟩ :=
    offers_labelled_and_repeatable hcreates actions feederTable feederArrival hgrows
  obtain ⟨j, hput⟩ : ∃ j, now.candidate? feederTable feederArrival = some j :=
    Option.isSome_iff_exists.1 (by decide)
  have houtcome : (now.consider feederTable feederArrival).2.outcome = .ok .dominated := by decide
  refine ⟨hcreates, by decide, by decide, ⟨j, hput, ?_⟩, ?_⟩
  · rw [← houtcome]
    exact hlabel j hput
  · exact (hrepeat [] [.offer feederTable shortArrival] rfl).1

end Journeys
