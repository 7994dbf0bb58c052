import Journeys.Proofs.ResultSet
import Journeys.Proofs.Verdict

/-!
# Proofs: a run as its listener hears it

One who listens to the decisions of a result set can keep its own list of journeys: it adds what was
accepted and takes out what was evicted, one by one. A front does the same in one go. It goes
through its elements once and puts the new one behind those that stay. That both lists agree after
every offer rests on the front: no journey is in it twice, and one that joins is not in it yet.
-/

namespace Journeys

/-! ## One candidate -/

namespace Front

variable {α : Type} {better : α → α → Bool} {front : Front better} {c : α}

theorem not_mem_of_admits (hadm : front.admits c = true) (hself : better c c = false) :
    c ∉ front.elements := by
  intro hmem
  have hbeats := admits_iff.1 hadm c hmem
  rw [hself] at hbeats
  cases hbeats

/-- With the candidate behind its elements, a front loses those that the candidate drives out, one
by one, and is left with what it holds afterwards. -/
theorem diff_evicted [DecidableEq α] (hbal : front.Balanced) (hself : ∀ a, better a a = false)
    (hadm : front.admits c = true) :
    (front.elements ++ [c]).diff (front.elements.filter fun e => !better e c) =
      (front.join c).elements := by
  have hnew := not_mem_of_admits hadm (hself c)
  have hnodup : (front.elements ++ [c]).Nodup := by
    rw [← List.concat_eq_append]
    exact (List.nodup_concat _ _).2 ⟨hnew, hbal.nodup hself⟩
  rw [hnodup.sdiff_eq_filter, List.filter_append]
  have hstays : (front.elements.filter
      fun e => decide (e ∉ front.elements.filter fun e => !better e c)) =
        front.elements.filter fun e => better e c := by
    refine List.filter_congr fun e he => ?_
    simp [he]
  have hjoins : ([c].filter
      fun e => decide (e ∉ front.elements.filter fun e => !better e c)) = [c] := by
    simp [hnew]
  rw [hstays, hjoins]
  rfl

end Front

/-! ## Listening -/

/-- One who listens to decisions, with a list of its own. -/
structure Listener where
  /-- The journeys that are in the list. -/
  kept : List Journey := []
  /-- The journey that was accepted last, until something else is decided than an eviction. -/
  newcomer : Option Journey := none

namespace Listener

/-- Keeps the list up to date with a decision. It makes no sense to evict a journey that is not in
the list, or in favour of another one than was just accepted. -/
def hear (l : Listener) : Decision → Option Listener
  | .accepted journey => some { kept := l.kept ++ [journey], newcomer := some journey }
  | .rejected _ _ => some { l with newcomer := none }
  | .evicted journey newcomer =>
    if journey ∈ l.kept ∧ l.newcomer = some newcomer then
      some { l with kept := l.kept.erase journey }
    else
      none
  | .dropped _ _ => some { l with newcomer := none }

/-- Keeps the list up to date with a list of decisions, in their order. -/
def replay (l : Listener) (decisions : List Decision) : Option Listener := decisions.foldlM hear l

theorem replay_append {l l' : Listener} {decisions more : List Decision}
    (h : l.replay decisions = some l') : l.replay (decisions ++ more) = l'.replay more := by
  rw [replay, List.foldlM_append, show decisions.foldlM hear l = some l' from h]
  rfl

theorem replay_cons_accepted (l : Listener) (journey : Journey) (more : List Decision) :
    l.replay (.accepted journey :: more) =
      replay ⟨l.kept ++ [journey], some journey⟩ more := rfl

theorem replay_evicted {kept evicted : List Journey} (h : evicted.Subperm kept)
    (newcomer : Journey) :
    replay ⟨kept, some newcomer⟩ (evicted.map fun old => .evicted old newcomer) =
      some ⟨kept.diff evicted, some newcomer⟩ := by
  induction evicted generalizing kept with
  | nil => rfl
  | cons old evicted ih =>
    have hold : old ∈ kept := h.subset List.mem_cons_self
    have hrest : evicted.Subperm (kept.erase old) := by
      have herase := h.erase old
      rwa [List.erase_cons_head] at herase
    have hhear : hear ⟨kept, some newcomer⟩ (.evicted old newcomer) =
        some ⟨kept.erase old, some newcomer⟩ := if_pos ⟨hold, rfl⟩
    rw [List.map_cons, replay, List.foldlM_cons, hhear, List.diff_cons]
    exact ih hrest

end Listener

/-- The decision of an event, if it is told of one. -/
def Event.decision? : Event → Option Decision
  | .decision told => some told
  | .progress _ _ => none

namespace ResultSet

variable {s : ResultSet} {table : Arrivals} {arrival : FinalArrival} {j : Journey}

/-- The decisions that the one who listens is told in a run. -/
def told (s : ResultSet) (actions : List Action) : List Decision :=
  (s.runEvents actions).filterMap Event.decision?

theorem told_cons (s : ResultSet) (action : Action) (actions : List Action) :
    s.told (action :: actions) = s.told [action] ++ (s.act action).told actions := by
  simp [told, runEvents, List.filterMap_append]

theorem told_pass (s : ResultSet) (progress : Progress) : s.told [.pass progress] = [] := by
  simp [told, runEvents, events, report, Event.decision?]

theorem told_offer (hl : s.listened = true) (table : Arrivals) (arrival : FinalArrival) :
    s.told [.offer table arrival] = (s.consider table arrival).2.decisions := by
  simp [told, runEvents, events, announce, hl, List.filterMap_map, Function.comp_def,
    Event.decision?]

/-- What is told of an offer is in keeping with its outcome. -/
def Explains (s : ResultSet) (table : Arrivals) (arrival : FinalArrival)
    (decisions : List Decision) : Except JourneyError Outcome → Prop
  | .ok (.accepted count) => ∃ (journey : Journey) (evicted : List Journey),
      s.candidate? table arrival = some journey ∧ evicted.length = count ∧
        decisions = .accepted journey :: evicted.map fun old => .evicted old journey
  | .ok .dominated => ∃ journey, s.candidate? table arrival = some journey ∧
      decisions = [.rejected (some journey) .dominated]
  | .ok .duplicate => ∃ journey, s.candidate? table arrival = some journey ∧
      decisions = [.rejected (some journey) .duplicate]
  | .ok .outsideTimeLimit => decisions = [.rejected none .outsideTimeLimit]
  | .ok (.dropped error) => decisions = [.dropped arrival error]
  | .error _ => decisions = []

theorem explains_consider (s : ResultSet) (table : Arrivals) (arrival : FinalArrival) :
    s.Explains table arrival (s.consider table arrival).2.decisions
      (s.consider table arrival).2.outcome := by
  cases hput : s.candidate? table arrival with
  | some journey =>
    rw [consider_of_candidate hput]
    unfold judge
    split
    · exact ⟨journey, _, hput, rfl, rfl⟩
    · exact ⟨journey, hput, rfl⟩
    · exact ⟨journey, hput, rfl⟩
  | none =>
    unfold candidate? at hput
    unfold consider
    split
    · rename_i hadm
      rw [if_pos hadm] at hput
      split
      · rename_i found hfound
        rw [hfound] at hput
        cases hput
      · exact rfl
      · exact rfl
    · exact rfl

/-! ## What a listener keeps -/

theorem decisions_judge_of_admits (hadm : s.front.admits j = true) :
    (s.judge j).decisions = .accepted j ::
      (s.journeys.filter fun e => !s.criteria.better e j).map fun old => .evicted old j := by
  rw [judge, Front.judge_of_admits hadm]
  rfl

theorem exists_rejected_of_not_admits (hadm : s.front.admits j = false) :
    ∃ reason, (s.judge j).decisions = [.rejected (some j) reason] := by
  rw [← Front.isAccepted_judge] at hadm
  unfold judge
  split
  · rename_i evicted hverdict
    rw [hverdict] at hadm
    cases hadm
  · exact ⟨_, rfl⟩
  · exact ⟨_, rfl⟩

/-- After a candidate was judged, the list of the listener is that of the set. -/
theorem exists_replay_judge (hbal : s.front.Balanced) (j : Journey) {l : Listener}
    (hkept : l.kept = s.journeys) :
    ∃ l', l.replay (s.judge j).decisions = some l' ∧ l'.kept = (s.store j).journeys := by
  cases hadm : s.front.admits j with
  | true =>
    -- those driven out are still in the list of the listener, with the newcomer behind them
    have hjoin : (s.store j).journeys = (s.front.join j).elements := by
      rw [store, journeys, Front.offer, if_pos hadm]
    have hevicted : (s.journeys.filter fun e => !s.criteria.better e j).Subperm
        (s.journeys ++ [j]) :=
      (List.filter_sublist.trans (List.sublist_append_left _ _)).subperm
    have hheard : l.replay (s.judge j).decisions = some ⟨(s.journeys ++ [j]).diff
        (s.journeys.filter fun e => !s.criteria.better e j), some j⟩ := by
      rw [decisions_judge_of_admits hadm, Listener.replay_cons_accepted, hkept]
      exact Listener.replay_evicted hevicted j
    refine ⟨_, hheard, ?_⟩
    rw [hjoin]
    exact Front.diff_evicted hbal s.criteria.better_self hadm
  | false =>
    obtain ⟨reason, hdecisions⟩ := exists_rejected_of_not_admits hadm
    have hstays : (s.store j).journeys = s.journeys := by
      rw [store, journeys, Front.offer, hadm]
      rfl
    refine ⟨{ l with newcomer := none }, ?_, ?_⟩
    · rw [hdecisions]
      rfl
    · rw [hstays]
      exact hkept

theorem exists_replay_consider (hbal : s.front.Balanced) (table : Arrivals)
    (arrival : FinalArrival) {l : Listener} (hkept : l.kept = s.journeys) :
    ∃ l', l.replay (s.consider table arrival).2.decisions = some l' ∧
      l'.kept = (s.consider table arrival).1.journeys := by
  cases hput : s.candidate? table arrival with
  | some j =>
    rw [consider_of_candidate hput]
    exact exists_replay_judge hbal j hkept
  | none =>
    -- without a candidate nothing is said that changes the list
    have hexplains := s.explains_consider table arrival
    rw [consider_of_no_candidate hput]
    unfold Explains at hexplains
    rw [hput] at hexplains
    split at hexplains
    · obtain ⟨journey, evicted, hnone, -⟩ := hexplains
      cases hnone
    · obtain ⟨journey, hnone, -⟩ := hexplains
      cases hnone
    · obtain ⟨journey, hnone, -⟩ := hexplains
      cases hnone
    · rw [hexplains]
      exact ⟨{ l with newcomer := none }, rfl, hkept⟩
    · rw [hexplains]
      exact ⟨{ l with newcomer := none }, rfl, hkept⟩
    · rw [hexplains]
      exact ⟨l, rfl, hkept⟩

theorem listened_act (s : ResultSet) (action : Action) :
    (s.act action).listened = s.listened := by
  cases action with
  | offer table arrival =>
    show (s.consider table arrival).1.listened = s.listened
    cases hput : s.candidate? table arrival with
    | some j =>
      rw [consider_of_candidate hput]
      rfl
    | none => rw [consider_of_no_candidate hput]
  | pass progress => cases progress <;> rfl

theorem listened_run (s : ResultSet) (actions : List Action) :
    (s.run actions).listened = s.listened := by
  induction actions generalizing s with
  | nil => rfl
  | cons action actions ih => rw [run_cons, ih, listened_act]

/-- One who starts with the journeys of a set ends with those that it keeps after a run. -/
theorem exists_replay_told (hbal : s.front.Balanced) (hl : s.listened = true)
    (actions : List Action) {l : Listener} (hkept : l.kept = s.journeys) :
    ∃ l', l.replay (s.told actions) = some l' ∧ l'.kept = (s.run actions).journeys := by
  induction actions generalizing s l with
  | nil => exact ⟨l, rfl, hkept⟩
  | cons action actions ih =>
    have hnext : ∃ l', l.replay (s.told [action]) = some l' ∧
        l'.kept = (s.act action).journeys := by
      cases action with
      | offer table arrival =>
        rw [told_offer hl]
        exact exists_replay_consider hbal table arrival hkept
      | pass progress =>
        rw [told_pass]
        refine ⟨l, rfl, hkept.trans ?_⟩
        cases progress <;> rfl
    obtain ⟨l', hl', hkept'⟩ := hnext
    rw [told_cons, Listener.replay_append hl', run_cons]
    exact ih (balanced_act hbal action) ((s.listened_act action).trans hl) hkept'

/-! ## Without a listener -/

/-- The set without anyone who listens to it. -/
def unheard (s : ResultSet) : ResultSet := { s with listened := false, observers := 0 }

theorem consider_unheard (s : ResultSet) (table : Arrivals) (arrival : FinalArrival) :
    s.unheard.consider table arrival =
      ((s.consider table arrival).1.unheard, (s.consider table arrival).2) := by
  have hadmits : s.unheard.admits arrival = s.admits arrival := rfl
  have hrebuild : s.unheard.rebuild table arrival = s.rebuild table arrival := rfl
  unfold consider
  rw [hadmits, hrebuild]
  split
  · split <;> rfl
  · rfl

theorem run_unheard (s : ResultSet) (actions : List Action) :
    s.unheard.run actions = (s.run actions).unheard := by
  induction actions generalizing s with
  | nil => rfl
  | cons action actions ih =>
    have hact : s.unheard.act action = (s.act action).unheard := by
      cases action with
      | offer table arrival => exact congrArg Prod.fst (s.consider_unheard table arrival)
      | pass progress => cases progress <;> rfl
    rw [run_cons, hact, ih, run_cons]

/-- Over any run, the decisions that a set makes known replay to the journeys that it keeps, in
their order; what is told of an offer is in keeping with its outcome; and journeys and outcomes are
those of a set to which no one listens. -/
theorem decisions_replay_to_journeys {s : ResultSet} (hs : s.journeys = [])
    (hl : s.listened = true) (actions : List Action) :
    (∃ l, Listener.replay {} (s.told actions) = some l ∧ l.kept = (s.run actions).journeys) ∧
      (∀ before table arrival after, actions = before ++ .offer table arrival :: after →
        (s.run before).Explains table arrival ((s.run before).told [.offer table arrival])
          ((s.run before).consider table arrival).2.outcome) ∧
      (s.unheard.run actions).journeys = (s.run actions).journeys ∧
      ∀ before table arrival after, actions = before ++ .offer table arrival :: after →
        ((s.unheard.run before).consider table arrival).2.outcome =
          ((s.run before).consider table arrival).2.outcome := by
  refine ⟨?_, ?_, ?_, ?_⟩
  · exact exists_replay_told (balanced_of_no_journeys hs) hl actions hs.symm
  · rintro before table arrival after -
    rw [told_offer ((s.listened_run before).trans hl)]
    exact (s.run before).explains_consider table arrival
  · rw [run_unheard]
    rfl
  · rintro before table arrival after -
    rw [run_unheard, consider_unheard]

/-- A journey without a cost drives out a cheap one, is turned away when it comes again, and is
driven out by a dear one, which the cheap one then joins. -/
theorem decisions_replay_to_journeys_strolls :
    let cheap := stroll (.ofHms 8 40 0) (Cost.ofNat 500)
    let unpriced : Journey := { stroll (.ofHms 8 30 0) Cost.zero with cost := none }
    let dear := stroll (.ofHms 8 20 0) (Cost.ofNat 900)
    let s := (preparedSet ⟨.nothing, .exact⟩ [cheap, unpriced, dear]).listen.subscribe
    let actions := offersOf [0, 1, 1] ++ .pass (.roundStart 2) :: offersOf [2, 0]
    s.journeys = [] ∧ s.listened = true ∧
      s.told actions = [.accepted cheap, .accepted unpriced, .evicted cheap unpriced,
        .rejected (some unpriced) .duplicate, .accepted dear, .evicted unpriced dear,
        .accepted cheap] ∧
      ∃ l, Listener.replay {} (s.told actions) = some l ∧ l.kept = [dear, cheap] := by
  intro cheap unpriced dear s actions
  have hnone : s.journeys = [] := rfl
  have htold : s.told actions = [.accepted cheap, .accepted unpriced, .evicted cheap unpriced,
      .rejected (some unpriced) .duplicate, .accepted dear, .evicted unpriced dear,
      .accepted cheap] := by decide
  have hkept : (s.run actions).journeys = [dear, cheap] := by decide
  obtain ⟨⟨l, hreplay, hl⟩, -⟩ := decisions_replay_to_journeys hnone rfl actions
  exact ⟨hnone, rfl, htold, l, hreplay, hl.trans hkept⟩

end ResultSet

end Journeys
