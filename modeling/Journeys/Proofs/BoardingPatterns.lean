import Journeys.Proofs.ResultSet

/-!
# Proofs: journeys with different boardings

Where boardings count, journeys with different boardings beat each other both ways. A front then
falls apart into classes, and each class is the front of its own part of the stream
(`Separates.restrict_ofList`). If nothing else is compared but times, a class is a race that the
first of the earliest journeys wins.
-/

namespace Journeys

/-! ## Classes that do not compete -/

section Classes

variable {α κ : Type} [DecidableEq κ] {better : α → α → Bool} {key : α → κ} {c : α} {k : κ}

/-- Elements with different keys beat each other. -/
def Separates (key : α → κ) (better : α → α → Bool) : Prop :=
  ∀ a b, key a ≠ key b → better a b = true

/-- The part of a front that has this key. -/
def Front.restrict (key : α → κ) (k : κ) (front : Front better) : Front better :=
  ⟨front.elements.filter fun e => key e = k⟩

theorem Front.mem_restrict {front : Front better} {e : α} :
    e ∈ (front.restrict key k).elements ↔ e ∈ front.elements ∧ key e = k := by
  simp [restrict]

theorem Front.offer_ne_nil (front : Front better) (c : α) : (front.offer c).elements ≠ [] := by
  unfold offer
  split
  · simp [join]
  · rename_i hadm
    obtain ⟨e, he, -⟩ := exists_loses_of_not_admits hadm
    exact List.ne_nil_of_mem he

theorem Front.ofList_ne_nil {xs : List α} (hxs : xs ≠ []) :
    (ofList xs : Front better).elements ≠ [] := by
  induction xs using List.reverseRecOn with
  | nil => exact absurd rfl hxs
  | append_singleton xs c ih =>
    rw [ofList_concat]
    exact offer_ne_nil _ c

namespace Separates

/-- Whether a candidate joins is decided by those with its own key. -/
theorem admits_restrict (hsep : Separates key better) (front : Front better) (c : α) :
    (front.restrict key (key c)).admits c = front.admits c := by
  rw [Bool.eq_iff_iff, Front.admits_iff, Front.admits_iff]
  constructor
  · intro h e he
    by_cases hkey : key e = key c
    · exact h e (Front.mem_restrict.2 ⟨he, hkey⟩)
    · exact hsep c e fun h => hkey h.symm
  · intro h e he
    exact h e (Front.mem_restrict.1 he).1

theorem restrict_offer_self (hsep : Separates key better) (front : Front better) (c : α) :
    (front.offer c).restrict key (key c) = (front.restrict key (key c)).offer c := by
  unfold Front.offer
  rw [hsep.admits_restrict]
  split
  · simp only [Front.restrict, Front.join, List.filter_append, List.filter_filter,
      List.filter_cons, List.filter_nil, decide_true, if_true, Bool.and_comm]
  · rfl

/-- An offer leaves the classes of other keys alone: their elements beat the candidate. -/
theorem restrict_offer_of_ne (hsep : Separates key better) (front : Front better)
    (hne : key c ≠ k) : (front.offer c).restrict key k = front.restrict key k := by
  unfold Front.offer
  split
  · have hkeep : (front.elements.filter fun e => decide (key e = k) && better e c) =
        front.elements.filter fun e => key e = k := by
      refine List.filter_congr fun e _ => ?_
      by_cases hkey : key e = k
      · rw [hsep e c (by rw [hkey]; exact fun h => hne h.symm)]
        simp
      · simp [hkey]
    simp only [Front.restrict, Front.join, List.filter_append, List.filter_filter, hkeep,
      List.filter_cons, List.filter_nil, hne, decide_false, Bool.false_eq_true, if_false,
      List.append_nil]
  · rfl

/-- Each class of a front is the front of its own part of the stream. -/
theorem restrict_ofList (hsep : Separates key better) (xs : List α) (k : κ) :
    (Front.ofList xs : Front better).restrict key k =
      Front.ofList (xs.filter fun x => key x = k) := by
  induction xs using List.reverseRecOn with
  | nil => rfl
  | append_singleton xs c ih =>
    rw [Front.ofList_concat, List.filter_append]
    -- the last element is one more offer to its own class, and to the others it is none
    by_cases hkey : key c = k
    · obtain rfl := hkey
      simp only [List.filter_cons, List.filter_nil, decide_true, if_true]
      rw [hsep.restrict_offer_self, ih, Front.ofList_concat]
    · simp only [List.filter_cons, List.filter_nil, hkey, decide_false, Bool.false_eq_true,
        if_false, List.append_nil]
      rw [hsep.restrict_offer_of_ne _ hkey, ih]

theorem exists_mem_of_mem (hsep : Separates key better) {xs : List α} {x : α} (hx : x ∈ xs) :
    ∃ e ∈ (Front.ofList xs : Front better).elements, key e = key x := by
  have hclass : (xs.filter fun y => key y = key x) ≠ [] :=
    List.ne_nil_of_mem (List.mem_filter.2 ⟨hx, by simp⟩)
  have hne : (Front.ofList (xs.filter fun y => key y = key x) : Front better).elements ≠ [] :=
    Front.ofList_ne_nil hclass
  obtain ⟨e, he⟩ := List.exists_mem_of_ne_nil _ hne
  rw [← hsep.restrict_ofList] at he
  exact ⟨e, Front.mem_restrict.1 he⟩

end Separates

end Classes

/-! ## A race -/

/-- The first among the journeys of a list that end earliest. -/
def FirstEarliest (xs : List Journey) (x : Journey) : Prop :=
  ∃ before after, xs = before ++ x :: after ∧ (∀ y ∈ before, x.endTime < y.endTime) ∧
    ∀ y ∈ after, x.endTime ≤ y.endTime

namespace FirstEarliest

variable {xs : List Journey} {x c : Journey}

theorem le (h : FirstEarliest xs x) {y : Journey} (hy : y ∈ xs) : x.endTime ≤ y.endTime := by
  obtain ⟨before, after, rfl, hbefore, hafter⟩ := h
  rcases List.mem_append.1 hy with hy | hy
  · have hlt := hbefore y hy
    rw [Time.lt_iff] at hlt
    rw [Time.le_iff]
    omega
  · rcases List.mem_cons.1 hy with rfl | hy
    · exact Time.le_refl _
    · exact hafter y hy

theorem singleton (x : Journey) : FirstEarliest [x] x :=
  ⟨[], [], rfl, fun _ hy => absurd hy List.not_mem_nil, fun _ hy => absurd hy List.not_mem_nil⟩

theorem concat_of_le (h : FirstEarliest xs x) (hc : x.endTime ≤ c.endTime) :
    FirstEarliest (xs ++ [c]) x := by
  obtain ⟨before, after, rfl, hbefore, hafter⟩ := h
  refine ⟨before, after ++ [c], by simp, hbefore, ?_⟩
  intro y hy
  rcases List.mem_append.1 hy with hy | hy
  · exact hafter y hy
  · rw [List.mem_singleton.1 hy]
    exact hc

theorem concat_of_lt (h : FirstEarliest xs x) (hc : c.endTime < x.endTime) :
    FirstEarliest (xs ++ [c]) c := by
  refine ⟨xs, [], rfl, ?_, fun y hy => absurd hy List.not_mem_nil⟩
  intro y hy
  have hle := h.le hy
  rw [Time.lt_iff] at hc ⊢
  rw [Time.le_iff] at hle
  omega

end FirstEarliest

/-- Where only the end counts, a front holds the first of the earliest journeys and no other. -/
theorem exists_firstEarliest_of_race {better : Journey → Journey → Bool} {xs : List Journey}
    (hrace : ∀ a ∈ xs, ∀ b ∈ xs, better a b = decide (a.endTime < b.endTime)) (hxs : xs ≠ []) :
    ∃ x, FirstEarliest xs x ∧ (Front.ofList xs : Front better).elements = [x] := by
  induction xs using List.reverseRecOn with
  | nil => exact absurd rfl hxs
  | append_singleton xs c ih =>
    rw [Front.ofList_concat]
    by_cases hnil : xs = []
    · subst hnil
      exact ⟨c, .singleton c, rfl⟩
    · obtain ⟨x, hfirst, helements⟩ := ih
        (fun a ha b hb => hrace a (List.mem_append_left _ ha) b (List.mem_append_left _ hb)) hnil
      have hx : x ∈ xs := by
        obtain ⟨before, after, rfl, -, -⟩ := hfirst
        simp
      have hcx := hrace c (by simp) x (List.mem_append_left _ hx)
      have hxc := hrace x (List.mem_append_left _ hx) c (by simp)
      by_cases hlt : c.endTime < x.endTime
      · have hnot : ¬x.endTime < c.endTime := by
          rw [Time.lt_iff] at hlt ⊢
          omega
        refine ⟨c, hfirst.concat_of_lt hlt, ?_⟩
        simp [Front.offer, Front.admits, Front.join, helements, hcx, hxc, hlt, hnot]
      · refine ⟨x, hfirst.concat_of_le (Time.not_lt.1 hlt), ?_⟩
        simp [Front.offer, Front.admits, helements, hcx, hlt]

namespace Criteria

variable {c : Criteria}

theorem separates_boardings (hd : c.distinction = .boardings) :
    Separates Journey.boardings c.better := by
  intro a b hne
  simp [better, hd, Distinction.better, hne]

/-- Journeys with the same boardings have as many rides, so only their ends are compared. -/
theorem better_of_boardings_eq (hd : c.distinction = .boardings) (hc : c.cost = .ignored)
    {a b : Journey} (hab : a.boardings = b.boardings) :
    c.better a b = decide (a.endTime < b.endTime) := by
  have hcost : CostComparison.ignored.better a.cost b.cost = false := by
    cases a.cost <;> cases b.cost <;> rfl
  simp [better, hd, hc, hcost, Distinction.better, hab, Journey.rideCount]

end Criteria

/-! ## Result sets that keep boardings apart -/

namespace ResultSet

variable {s : ResultSet} {actions : List Action} {table : Arrivals} {arrival : FinalArrival}
  {j e x : Journey}

theorem filter_boardings_journeys_run (hs : s.journeys = [])
    (hd : s.criteria.distinction = .boardings) (actions : List Action) (boardings : List Boarding) :
    ((s.run actions).journeys.filter fun e => e.boardings = boardings) =
      (Front.ofList ((s.offered actions).filter fun x => x.boardings = boardings) :
        Front s.criteria.better).elements := by
  rw [journeys_run hs, ← (Criteria.separates_boardings hd).restrict_ofList]
  rfl

/-- No journey blocks one with other boardings. -/
theorem isAccepted_consider_iff_of_boardings (hd : s.criteria.distinction = .boardings)
    (hput : s.candidate? table arrival = some j) :
    (∃ evicted, (s.consider table arrival).2.outcome = .ok (.accepted evicted)) ↔
      ∀ e ∈ s.journeys, e.boardings = j.boardings → s.criteria.better j e = true := by
  rw [isAccepted_consider_iff hput, ← (Criteria.separates_boardings hd).admits_restrict,
    Front.admits_iff]
  constructor
  · intro h e he hboardings
    exact h e (Front.mem_restrict.2 ⟨he, hboardings⟩)
  · intro h e he
    obtain ⟨he, hboardings⟩ := Front.mem_restrict.1 he
    exact h e he hboardings

/-- No journey drives out one with other boardings. -/
theorem boardings_eq_of_not_mem_consider (hd : s.criteria.distinction = .boardings)
    (hput : s.candidate? table arrival = some j) (he : e ∈ s.journeys)
    (hgone : e ∉ (s.consider table arrival).1.journeys) : e.boardings = j.boardings := by
  by_contra hne
  rw [consider_of_candidate hput] at hgone
  refine hgone (Front.mem_elements_offer.2 (Or.inl ⟨he, fun _ => ?_⟩))
  exact Criteria.separates_boardings hd e j hne

theorem exists_firstEarliest_of_mem_offered (hs : s.journeys = [])
    (hd : s.criteria.distinction = .boardings) (hc : s.criteria.cost = .ignored)
    (hx : x ∈ s.offered actions) :
    ∃ e, FirstEarliest ((s.offered actions).filter fun y => y.boardings = x.boardings) e ∧
      ((s.run actions).journeys.filter fun y => y.boardings = x.boardings) = [e] := by
  have hrace : ∀ a ∈ (s.offered actions).filter fun y => y.boardings = x.boardings,
      ∀ b ∈ (s.offered actions).filter fun y => y.boardings = x.boardings,
        s.criteria.better a b = decide (a.endTime < b.endTime) := by
    intro a ha b hb
    have hax : a.boardings = x.boardings := by simpa using (List.mem_filter.1 ha).2
    have hbx : b.boardings = x.boardings := by simpa using (List.mem_filter.1 hb).2
    exact Criteria.better_of_boardings_eq hd hc (hax.trans hbx.symm)
  have hne : ((s.offered actions).filter fun y => y.boardings = x.boardings) ≠ [] :=
    List.ne_nil_of_mem (List.mem_filter.2 ⟨hx, by simp⟩)
  rw [filter_boardings_journeys_run hs hd]
  exact exists_firstEarliest_of_race hrace hne

end ResultSet

/-- Where boardings count, a set keeps at least one journey to every sequence of boardings that it
was offered. What it keeps of one sequence is the front of the offers of this sequence; a candidate
can only be turned away by journeys with its own boardings, and can only drive out such. If costs
are not compared, it keeps exactly one to every sequence, the first of those that end earliest. -/
theorem timetable_keeps_boardings {s : ResultSet} (hs : s.journeys = [])
    (hd : s.criteria.distinction = .boardings) (actions : List ResultSet.Action) :
    (∀ e ∈ (s.run actions).journeys, e ∈ s.offered actions) ∧
      (∀ x ∈ s.offered actions,
        ∃ e ∈ (s.run actions).journeys, e.boardings = x.boardings) ∧
      (∀ boardings, ((s.run actions).journeys.filter fun e => e.boardings = boardings) =
        (Front.ofList ((s.offered actions).filter fun x => x.boardings = boardings) :
          Front s.criteria.better).elements) ∧
      (∀ table arrival j, (s.run actions).candidate? table arrival = some j →
        ((∃ evicted, ((s.run actions).consider table arrival).2.outcome =
            .ok (.accepted evicted)) ↔
          ∀ e ∈ (s.run actions).journeys, e.boardings = j.boardings →
            s.criteria.better j e = true) ∧
        ∀ e ∈ (s.run actions).journeys,
          e ∉ ((s.run actions).consider table arrival).1.journeys →
            e.boardings = j.boardings) ∧
      (s.criteria.cost = .ignored → ∀ x ∈ s.offered actions,
        ∃ e, FirstEarliest ((s.offered actions).filter fun y => y.boardings = x.boardings) e ∧
          ((s.run actions).journeys.filter fun y => y.boardings = x.boardings) = [e]) := by
  have hd' : (s.run actions).criteria.distinction = .boardings := by
    rw [ResultSet.criteria_run]
    exact hd
  refine ⟨fun e he => ResultSet.mem_offered_of_mem_journeys hs he, fun x hx => ?_,
    ResultSet.filter_boardings_journeys_run hs hd actions,
    fun table arrival j hput => ⟨?_, fun e he hgone => ?_⟩, fun hc x hx => ?_⟩
  · rw [ResultSet.journeys_run hs]
    exact (Criteria.separates_boardings hd).exists_mem_of_mem hx
  · rw [← ResultSet.criteria_run s actions]
    exact ResultSet.isAccepted_consider_iff_of_boardings hd' hput
  · exact ResultSet.boardings_eq_of_not_mem_consider hd' hput he hgone
  · exact ResultSet.exists_firstEarliest_of_mem_offered hs hd hc hx

/-- The legs of a ride from one stop to another. -/
def lineLegs (trip : String) (leaves arrives : Time) : List Leg :=
  [⟨.access, .origin, .stop ⟨1⟩, leaves, .ofHms 8 10 0, none⟩,
    ⟨.ride ⟨⟨trip⟩, ⟨⟨0⟩, 0⟩, 0, 1, Span.zero, Span.zero, none⟩, .stop ⟨1⟩, .stop ⟨2⟩,
      .ofHms 8 10 0, arrives, none⟩,
    ⟨.egress, .stop ⟨2⟩, .destination, arrives, arrives, none⟩]

/-- A journey with one ride. -/
def line (trip : String) (leaves arrives : Time)
    (checked : Journey.check (lineLegs trip leaves arrives) = .ok () := by rfl) : Journey :=
  { legs := lineLegs trip leaves arrives, cost := none, iteration := none, checked }

/-- Of three journeys on the red line the first that arrives early stays, and so does the one on the
blue line, though it is slower. -/
theorem timetable_keeps_boardings_lines :
    let redLate := line "red" (.ofHms 8 0 0) (.ofHms 8 40 0)
    let blue := line "blue" (.ofHms 8 0 0) (.ofHms 8 50 0)
    let red := line "red" (.ofHms 8 0 0) (.ofHms 8 30 0)
    let redAgain := line "red" (.ofHms 8 5 0) (.ofHms 8 30 0)
    let s := preparedSet ⟨.boardings, .ignored⟩ [redLate, blue, red, redAgain]
    s.journeys = [] ∧ (s.run (offersOf [0, 1, 2, 3])).journeys = [blue, red] ∧
      FirstEarliest [redLate, red, redAgain] red := by
  intro redLate blue red redAgain s
  have hnone : s.journeys = [] := rfl
  have hkept : (s.run (offersOf [0, 1, 2, 3])).journeys = [blue, red] := by decide
  obtain ⟨-, -, -, -, hrace⟩ := timetable_keeps_boardings hnone rfl (offersOf [0, 1, 2, 3])
  have hred : redAgain ∈ s.offered (offersOf [0, 1, 2, 3]) := by decide
  obtain ⟨e, hfirst, hclass⟩ := hrace rfl redAgain hred
  have hoffered : ((s.offered (offersOf [0, 1, 2, 3])).filter
      fun y => y.boardings = redAgain.boardings) = [redLate, red, redAgain] := by decide
  have hmine : ([blue, red].filter fun y => y.boardings = redAgain.boardings) = [red] := by decide
  rw [hkept, hmine] at hclass
  rw [hoffered] at hfirst
  cases hclass
  exact ⟨hnone, hkept, hfirst⟩

end Journeys
