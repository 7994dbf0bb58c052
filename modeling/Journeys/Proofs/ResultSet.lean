import Journeys.Proofs.Criteria
import Journeys.Proofs.ParetoFront
import Journeys.Results

/-!
# Proofs: a result set over a run

Seen from the front, a run of a search is a stream: some offers put up a journey, the others and all
boundaries put up nothing. `ResultSet.offered` is this stream, and what is known of the front of a
stream holds of the journeys that a result set keeps (`ResultSet.journeys_run`).
-/

namespace Journeys

/-- What a verdict means for the arrival behind the candidate. -/
def Outcome.ofVerdict : Verdict Journey → Outcome
  | .accepted evicted => .accepted evicted.length
  | .dominated => .dominated
  | .duplicate => .duplicate

theorem Outcome.ofVerdict_eq_dominated_iff {verdict : Verdict Journey} :
    ofVerdict verdict = .dominated ↔ verdict = .dominated := by
  cases verdict <;> simp [ofVerdict]

theorem Outcome.ofVerdict_eq_duplicate_iff {verdict : Verdict Journey} :
    ofVerdict verdict = .duplicate ↔ verdict = .duplicate := by
  cases verdict <;> simp [ofVerdict]

/-- Not being beaten orders the journeys that can be compared. -/
theorem Criteria.unbeatenAmong (c : Criteria) : UnbeatenAmong c.Compares c.better where
  refl a := c.better_self a
  trans _ b _ hab hbd := better_trans b.property hbd hab

namespace ResultSet

variable {s : ResultSet} {table : Arrivals} {arrival : FinalArrival} {j : Journey}

/-! ## What an action puts up -/

/-- The journey that an arrival puts up for the front: the time limit lets the arrival in, and the
journey could be rebuilt. -/
def candidate? (s : ResultSet) (table : Arrivals) (arrival : FinalArrival) : Option Journey :=
  if s.admits arrival then
    match s.rebuild table arrival with
    | .ok journey => some (s.stamp journey)
    | .error _ => none
  else
    none

theorem candidate?_eq_some_iff :
    s.candidate? table arrival = some j ↔
      s.admits arrival = true ∧
        ∃ found, s.rebuild table arrival = .ok found ∧ s.stamp found = j := by
  unfold candidate?
  cases s.rebuild table arrival <;> simp

theorem consider_of_candidate (h : s.candidate? table arrival = some j) :
    s.consider table arrival = (s.store j, s.judge j) := by
  obtain ⟨hadm, found, hfound, rfl⟩ := candidate?_eq_some_iff.1 h
  simp only [consider, hadm, hfound, if_true]

/-- An arrival that puts up no journey is answered with what stood in the way, and nothing else
happens. -/
theorem consider_of_no_candidate (h : s.candidate? table arrival = none) :
    (s.consider table arrival).1 = s := by
  unfold candidate? at h
  unfold consider
  split
  · rename_i hadm
    rw [if_pos hadm] at h
    split
    · rename_i found hfound
      rw [hfound] at h
      cases h
    · rfl
    · rfl
  · rfl

theorem outcome_judge (s : ResultSet) (j : Journey) :
    (s.judge j).outcome = .ok (.ofVerdict (s.front.judge j)) := by
  unfold judge
  cases s.front.judge j <;> rfl

theorem outcome_of_candidate (h : s.candidate? table arrival = some j) :
    (s.consider table arrival).2.outcome = .ok (.ofVerdict (s.front.judge j)) := by
  rw [consider_of_candidate h]
  exact s.outcome_judge j

theorem isAccepted_consider_iff (hput : s.candidate? table arrival = some j) :
    (∃ evicted, (s.consider table arrival).2.outcome = .ok (.accepted evicted)) ↔
      s.front.admits j = true := by
  rw [outcome_of_candidate hput, ← Front.isAccepted_judge]
  cases s.front.judge j <;> simp [Outcome.ofVerdict, Verdict.isAccepted]

/-- The journey that an action puts up. -/
def put? (s : ResultSet) : Action → Option Journey
  | .offer table arrival => s.candidate? table arrival
  | .pass _ => none

/-- The journeys that a list of actions puts up, each as the iteration of its time found it. -/
def offered (s : ResultSet) : List Action → List Journey
  | [] => []
  | action :: actions => (s.put? action).toList ++ (s.act action).offered actions

/-! ## What a run changes -/

/-- The criteria, the reconstruction and the limit stay as they are. -/
def SameSearch (s s' : ResultSet) : Prop :=
  s'.criteria = s.criteria ∧ s'.rebuild = s.rebuild ∧ s'.limit = s.limit

theorem sameSearch_act (s : ResultSet) (action : Action) : s.SameSearch (s.act action) := by
  cases action with
  | offer table arrival =>
    show s.SameSearch (s.consider table arrival).1
    cases h : s.candidate? table arrival with
    | some j =>
      rw [consider_of_candidate h]
      exact ⟨rfl, rfl, rfl⟩
    | none =>
      rw [consider_of_no_candidate h]
      exact ⟨rfl, rfl, rfl⟩
  | pass progress => cases progress <;> exact ⟨rfl, rfl, rfl⟩

theorem run_cons (s : ResultSet) (action : Action) (actions : List Action) :
    s.run (action :: actions) = (s.act action).run actions := rfl

theorem run_append (s : ResultSet) (actions actions' : List Action) :
    s.run (actions ++ actions') = (s.run actions).run actions' :=
  List.foldl_append

theorem sameSearch_run (s : ResultSet) (actions : List Action) : s.SameSearch (s.run actions) := by
  induction actions generalizing s with
  | nil => exact ⟨rfl, rfl, rfl⟩
  | cons action actions ih =>
    obtain ⟨hcriteria, hrebuild, hlimit⟩ := s.sameSearch_act action
    obtain ⟨hcriteria', hrebuild', hlimit'⟩ := ih (s.act action)
    rw [run_cons]
    exact ⟨hcriteria'.trans hcriteria, hrebuild'.trans hrebuild, hlimit'.trans hlimit⟩

theorem criteria_run (s : ResultSet) (actions : List Action) :
    (s.run actions).criteria = s.criteria := (s.sameSearch_run actions).1

theorem offered_append (s : ResultSet) (actions actions' : List Action) :
    s.offered (actions ++ actions') = s.offered actions ++ (s.run actions).offered actions' := by
  induction actions generalizing s with
  | nil => rfl
  | cons action actions ih =>
    rw [List.cons_append, offered, ih, offered, run_cons, List.append_assoc]

theorem mem_offered_iff {actions : List Action} :
    j ∈ s.offered actions ↔ ∃ before table arrival after,
      actions = before ++ .offer table arrival :: after ∧
        (s.run before).candidate? table arrival = some j := by
  induction actions generalizing s with
  | nil => simp [offered]
  | cons action actions ih =>
    rw [offered, List.mem_append, Option.mem_toList, ih]
    constructor
    · rintro (hput | ⟨before, table, arrival, after, rfl, hj⟩)
      · cases action with
        | offer table arrival => exact ⟨[], table, arrival, actions, rfl, hput⟩
        | pass progress => cases hput
      · exact ⟨action :: before, table, arrival, after, rfl, hj⟩
    · rintro ⟨before, table, arrival, after, hactions, hj⟩
      cases before with
      | nil =>
        cases hactions
        exact Or.inl hj
      | cons first before =>
        cases hactions
        exact Or.inr ⟨before, table, arrival, after, rfl, hj⟩

theorem legs_stamp (s : ResultSet) (j : Journey) : (s.stamp j).legs = j.legs := by
  unfold stamp
  cases s.iteration <;> rfl

theorem cost_stamp (s : ResultSet) (j : Journey) : (s.stamp j).cost = j.cost := by
  unfold stamp
  cases s.iteration <;> rfl

/-- What is put up was rebuilt from an arrival that was offered; only the iteration is added. -/
theorem exists_rebuild_of_mem_offered {actions : List Action} (hj : j ∈ s.offered actions) :
    ∃ table arrival found, s.rebuild table arrival = .ok found ∧ j.legs = found.legs ∧
      j.cost = found.cost := by
  obtain ⟨before, table, arrival, after, -, hput⟩ := mem_offered_iff.1 hj
  obtain ⟨-, found, hfound, rfl⟩ := candidate?_eq_some_iff.1 hput
  -- the reconstruction of a later set is that of the set at the start
  rw [(s.sameSearch_run before).2.1] at hfound
  exact ⟨table, arrival, found, hfound, legs_stamp _ _, cost_stamp _ _⟩

/-- The front of a run is the front of the stream that the run puts up. -/
theorem elements_front_run (s : ResultSet) (actions : List Action) :
    (s.run actions).journeys = ((s.offered actions).foldl Front.offer s.front).elements := by
  induction actions generalizing s with
  | nil => rfl
  | cons action actions ih =>
    rw [run_cons, ih, offered]
    cases action with
    | offer table arrival =>
      have hact : s.act (.offer table arrival) = (s.consider table arrival).1 := rfl
      have hput : s.put? (.offer table arrival) = s.candidate? table arrival := rfl
      rw [hact, hput]
      cases h : s.candidate? table arrival with
      | some j =>
        rw [consider_of_candidate h]
        rfl
      | none =>
        rw [consider_of_no_candidate h]
        rfl
    | pass progress => cases progress <;> rfl

/-- A set that starts without journeys keeps the front of what is put up from then on. -/
theorem journeys_run (hs : s.journeys = []) (actions : List Action) :
    (s.run actions).journeys =
      (Front.ofList (s.offered actions) : Front s.criteria.better).elements := by
  rw [elements_front_run, Front.eq_empty_of_elements hs]
  rfl

theorem mem_offered_of_mem_journeys (hs : s.journeys = []) {actions : List Action}
    (hj : j ∈ (s.run actions).journeys) : j ∈ s.offered actions := by
  rw [journeys_run hs] at hj
  exact Front.mem_of_mem_ofList hj

theorem balanced_act (h : s.front.Balanced) (action : Action) : (s.act action).front.Balanced := by
  cases action with
  | offer table arrival =>
    show (s.consider table arrival).1.front.Balanced
    cases hput : s.candidate? table arrival with
    | some j =>
      rw [consider_of_candidate hput]
      exact h.offer j
    | none =>
      rw [consider_of_no_candidate hput]
      exact h
  | pass progress => cases progress <;> exact h

theorem balanced_run (h : s.front.Balanced) (actions : List Action) :
    (s.run actions).front.Balanced := by
  induction actions generalizing s with
  | nil => exact h
  | cons action actions ih => exact ih (balanced_act h action)

theorem balanced_of_no_journeys (hs : s.journeys = []) : s.front.Balanced := by
  rw [Front.eq_empty_of_elements hs]
  exact Front.balanced_empty

end ResultSet

/-- A result set for prepared journeys: an arrival stands for the one with the number of its record,
and for none beyond the list. -/
def preparedSet (criteria : Criteria) (prepared : List Journey) : ResultSet :=
  { criteria
    rebuild := fun _ arrival =>
      match prepared[arrival.previous.number]? with
      | some j => .ok j
      | none => .error (.unusable (.dangling arrival.previous)) }

/-- The offers of prepared journeys with these numbers. -/
def offersOf (numbers : List Nat) : List ResultSet.Action :=
  numbers.map fun n =>
    .offer Arrivals.empty
      { previous := ⟨n⟩, egress := ⟨⟨1⟩, Span.zero⟩, time := Time.midnight, round := 0 }

/-- Every two elements at different places of a list beat each other somewhere, so that neither
dominates the other and they do not tie. -/
def Rivals {α : Type} (better : α → α → Bool) (xs : List α) : Prop :=
  ∀ (i j : Nat) (a b : α), i ≠ j → xs[i]? = some a → xs[j]? = some b →
    better a b = true ∧ better b a = true ∧ dominates better a b = false ∧
      dominates better b a = false ∧ ties better a b = false

theorem Front.Balanced.rivals {α : Type} {better : α → α → Bool} {front : Front better}
    (h : front.Balanced) : Rivals better front.elements := by
  intro i j a b hne ha hb
  obtain ⟨hi, rfl⟩ := List.getElem?_eq_some_iff.1 ha
  obtain ⟨hj, rfl⟩ := List.getElem?_eq_some_iff.1 hb
  have hboth : better front.elements[i] front.elements[j] = true ∧
      better front.elements[j] front.elements[i] = true := by
    rcases Nat.lt_or_gt_of_ne hne with hlt | hgt
    · exact List.pairwise_iff_getElem.1 h i j hi hj hlt
    · exact (List.pairwise_iff_getElem.1 h j i hj hi hgt).symm
  obtain ⟨hab, hba⟩ := hboth
  refine ⟨hab, hba, ?_, ?_, ?_⟩
  · simp [dominates, hba]
  · simp [dominates, hab]
  · simp [ties, hab]

/-- Whatever the relation, every two elements of a front beat each other somewhere after any offers
and clearings, and so do every two journeys of a result set after any run of a search. -/
theorem kept_are_rivals :
    (∀ (α : Type) (better : α → α → Bool) (steps : List (Front.Step α)),
        Rivals better ((Front.empty : Front better).run steps).elements) ∧
      ∀ s : ResultSet, s.journeys = [] →
        ∀ actions, Rivals s.criteria.better (s.run actions).journeys := by
  refine ⟨fun α better steps => ?_, fun s hs actions => ?_⟩
  · exact (Front.balanced_empty.run steps).rivals
  · rw [← ResultSet.criteria_run s actions]
    exact (ResultSet.balanced_run (ResultSet.balanced_of_no_journeys hs) actions).rivals

/-- A journey without a cost drives out a cheap one that is slower, and is driven out by a dear one
that is faster; offered again, the cheap one finds its place beside the dear one. -/
theorem kept_are_rivals_strolls :
    let cheap := stroll (.ofHms 8 40 0) (Cost.ofNat 500)
    let unpriced : Journey := { stroll (.ofHms 8 30 0) Cost.zero with cost := none }
    let dear := stroll (.ofHms 8 20 0) (Cost.ofNat 900)
    let s := preparedSet ⟨.nothing, .exact⟩ [cheap, unpriced, dear]
    s.journeys = [] ∧ (s.run (offersOf [0, 1])).journeys = [unpriced] ∧
      (s.run (offersOf [0, 1, 2, 0])).journeys = [dear, cheap] ∧
      s.criteria.better dear cheap = true ∧ s.criteria.better cheap dear = true := by
  intro cheap unpriced dear s
  have hnone : s.journeys = [] := rfl
  have hkept : (s.run (offersOf [0, 1, 2, 0])).journeys = [dear, cheap] := by decide
  have hrivals := kept_are_rivals.2 s hnone (offersOf [0, 1, 2, 0])
  rw [hkept] at hrivals
  obtain ⟨hdear, hcheap, -⟩ := hrivals 0 1 dear cheap (by decide) rfl rfl
  exact ⟨hnone, by decide, hkept, hdear, hcheap⟩

end Journeys
