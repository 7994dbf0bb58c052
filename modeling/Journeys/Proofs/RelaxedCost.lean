import Journeys.Proofs.ResultSet

/-!
# Proofs: costs within a factor of the best

Two journeys that differ in nothing but cost can both have the advantage, each being within the
factor of the other. So "not worse" is no order of the costs, and yet the outcome is simple: what
stays is within the factor of the least cost of the whole stream, wherever in the stream that was.
-/

namespace Journeys

/-! ## The first with each key -/

section Firsts

variable {α κ : Type} [DecidableEq κ] (key : α → κ)

/-- The elements that are the first with their key, in order. -/
def firsts (xs : List α) : List α := xs.eraseDupsBy fun a b => key a == key b

theorem firsts_cons (a : α) (xs : List α) :
    firsts key (a :: xs) = a :: firsts key (xs.filter fun b => key b ≠ key a) := by
  simp [firsts, List.eraseDupsBy_cons]

/-- A further element counts only if none before it has its key. -/
theorem firsts_concat (xs : List α) (c : α) :
    firsts key (xs ++ [c]) =
      firsts key xs ++ if xs.all fun x => key x ≠ key c then [c] else [] := by
  cases xs with
  | nil => rfl
  | cons a xs =>
    rw [List.cons_append, firsts_cons, firsts_cons, List.filter_append]
    by_cases hca : key c = key a
    · simp [hca]
    · -- `firsts` goes on with a filtered list, so the induction is on the length
      have hall : ((xs.filter fun b => key b ≠ key a).all fun x => key x ≠ key c) =
          (a :: xs).all fun x => key x ≠ key c := by
        have hac : key a ≠ key c := fun hac => hca hac.symm
        rw [List.all_filter, List.all_cons, decide_eq_true hac, Bool.true_and]
        refine List.all_congr rfl fun x => ?_
        by_cases hxa : key x = key a
        · simp [hxa, hac]
        · simp [hxa]
      have hlast : ([c].filter fun b => key b ≠ key a) = [c] := by simp [hca]
      rw [← hall, hlast, firsts_concat, List.cons_append]
termination_by xs.length
decreasing_by
  have hle := List.length_filter_le (fun b => decide (key b ≠ key a)) xs
  simp only [List.length_cons]
  omega

/-- The elements that are the first with their key and pass a test of the key are the first ones of
those that pass. -/
theorem filter_zipIdx_eq_firsts {keep : α → Bool} (hkeep : ∀ a b, key a = key b → keep a = keep b)
    (xs : List α) :
    ((xs.zipIdx.filter fun p => keep p.1 && (xs.take p.2).all fun y => key y ≠ key p.1).map
        fun p => p.1) = firsts key (xs.filter keep) := by
  induction xs using List.reverseRecOn with
  | nil => rfl
  | append_singleton xs c ih =>
    have hold : (xs.zipIdx.filter fun p =>
          keep p.1 && ((xs ++ [c]).take p.2).all fun y => key y ≠ key p.1) =
        xs.zipIdx.filter fun p => keep p.1 && (xs.take p.2).all fun y => key y ≠ key p.1 := by
      refine List.filter_congr fun p hp => ?_
      have hlt : p.2 < xs.length := List.snd_lt_of_mem_zipIdx hp
      rw [List.take_append_of_le_length (Nat.le_of_lt hlt)]
    rw [map_fst_filter_zipIdx_concat, hold, ih, List.take_left, List.filter_append]
    -- what is left is the last element: it counts if it passes and no passing one has its key
    by_cases hc : keep c = true
    · have hall : ((xs.filter keep).all fun x => key x ≠ key c) =
          xs.all fun x => key x ≠ key c := by
        rw [List.all_filter]
        refine List.all_congr rfl fun x => ?_
        by_cases hxc : key x = key c
        · simp [hxc, (hkeep x c hxc).trans hc]
        · simp [hxc]
      have hlast : [c].filter keep = [c] := by simp [hc]
      rw [hlast, firsts_concat, hall, hc, Bool.true_and]
    · simp [hc]

end Firsts

/-! ## Two costs under a factor -/

namespace CostComparison

variable {factor : Float} {x y : Cost}

theorem relaxed_better_eq_false_iff :
    (relaxed factor).better (some x) (some y) = false ↔ x = y ∨ y.scale factor < x := by
  simp only [better, ne_eq, decide_not, Bool.and_eq_false_iff, Bool.not_eq_false',
    decide_eq_true_eq, decide_eq_false_iff_not, Cost.le_iff, Cost.lt_iff, Nat.not_le]

/-- A cost that is out of reach of another one is dominated by it; to be merely higher is not
enough. -/
theorem dominates_relaxed_iff (hx : x ≤ x.scale factor) (hy : y ≤ y.scale factor) :
    dominates (relaxed factor).better (some x) (some y) = true ↔ x.scale factor < y := by
  have hdominates : dominates (relaxed factor).better (some x) (some y) = true ↔
      ¬(x = y ∨ y.scale factor < x) ∧ (y = x ∨ x.scale factor < y) := by
    rw [← relaxed_better_eq_false_iff, ← relaxed_better_eq_false_iff]
    simp [dominates]
  rw [Cost.le_iff] at hx hy
  rw [hdominates, Cost.lt_iff, Cost.lt_iff]
  constructor
  · rintro ⟨hnot, rfl | hreach⟩
    · exact absurd (Or.inl rfl) hnot
    · exact hreach
  · intro hreach
    refine ⟨?_, Or.inr hreach⟩
    rintro (rfl | hback) <;> omega

/-- Only equal costs tie: of two others the lower one has the advantage. -/
theorem ties_relaxed_iff (hx : x ≤ x.scale factor) (hy : y ≤ y.scale factor) :
    ties (relaxed factor).better (some x) (some y) = true ↔ x = y := by
  rw [ties_iff, relaxed_better_eq_false_iff, relaxed_better_eq_false_iff, Cost.lt_iff, Cost.lt_iff]
  rw [Cost.le_iff] at hx hy
  constructor
  · rintro ⟨hxy | hreach, hyx | hback⟩
    · exact hxy
    · exact hxy
    · exact hyx.symm
    · omega
  · rintro rfl
    exact ⟨Or.inl rfl, Or.inl rfl⟩

end CostComparison

/-! ## A stream of costs -/

/-- Costs are compared up to a factor, and nothing but times and rides besides. -/
def Criteria.relaxedCost (factor : Float) : Criteria := ⟨.nothing, .relaxed factor⟩

/-- The costs of those journeys that have one. -/
def prices (xs : List Journey) : List Cost := xs.filterMap Journey.cost

theorem mem_prices_iff {xs : List Journey} {x : Cost} :
    x ∈ prices xs ↔ ∃ a ∈ xs, a.cost = some x := List.mem_filterMap

/-- Whether a journey has a cost and it is at most `bound`. -/
def Journey.costsAtMost (bound : Cost) (j : Journey) : Bool := j.cost.any fun x => x ≤ bound

/-- Journeys that agree in end and number of rides and all have a cost, none of which the factor
takes below itself and no two of which it brings out of order. -/
structure DifferInCost (factor : Float) (xs : List Journey) : Prop where
  endTime : ∀ a ∈ xs, ∀ b ∈ xs, a.endTime = b.endTime
  rideCount : ∀ a ∈ xs, ∀ b ∈ xs, a.rideCount = b.rideCount
  priced : ∀ a ∈ xs, a.cost.isSome = true
  grows : ∀ x ∈ prices xs, x ≤ x.scale factor
  mono : ∀ x ∈ prices xs, ∀ y ∈ prices xs, x ≤ y → x.scale factor ≤ y.scale factor

namespace DifferInCost

variable {factor : Float} {xs ys : List Journey} {a b : Journey} {m x y : Cost}

theorem perm (h : DifferInCost factor xs) (hp : ys.Perm xs) : DifferInCost factor ys := by
  have hmem : ∀ a, a ∈ ys → a ∈ xs := fun a ha => hp.mem_iff.1 ha
  have hprice : ∀ x, x ∈ prices ys → x ∈ prices xs := fun x hx => (hp.filterMap _).mem_iff.1 hx
  exact
    { endTime := fun a ha b hb => h.endTime a (hmem a ha) b (hmem b hb)
      rideCount := fun a ha b hb => h.rideCount a (hmem a ha) b (hmem b hb)
      priced := fun a ha => h.priced a (hmem a ha)
      grows := fun x hx => h.grows x (hprice x hx)
      mono := fun x hx y hy => h.mono x (hprice x hx) y (hprice y hy) }

theorem exists_price (h : DifferInCost factor xs) (ha : a ∈ xs) :
    ∃ x ∈ prices xs, a.cost = some x := by
  obtain ⟨x, hx⟩ := Option.isSome_iff_exists.1 (h.priced a ha)
  exact ⟨x, mem_prices_iff.2 ⟨a, ha, hx⟩, hx⟩

theorem unbeatenAmong (h : DifferInCost factor xs) :
    UnbeatenAmong (fun a => a ∈ xs) (Criteria.relaxedCost factor).better := by
  have hcompares : ∀ a ∈ xs, (Criteria.relaxedCost factor).Compares a := by
    intro a ha
    obtain ⟨x, hmem, hx⟩ := h.exists_price ha
    exact ⟨x, hx, h.grows x hmem⟩
  exact (Criteria.unbeatenAmong _).mono hcompares

theorem better_eq (h : DifferInCost factor xs) (ha : a ∈ xs) (hb : b ∈ xs) :
    (Criteria.relaxedCost factor).better a b =
      (CostComparison.relaxed factor).better a.cost b.cost := by
  simp [Criteria.relaxedCost, Criteria.better, Distinction.better, h.endTime a ha b hb,
    h.rideCount a ha b hb, Time.lt_iff]

theorem dominates_iff (h : DifferInCost factor xs) (ha : a ∈ xs) (hb : b ∈ xs)
    (hax : a.cost = some x) (hby : b.cost = some y) :
    dominates (Criteria.relaxedCost factor).better a b = true ↔ x.scale factor < y := by
  rw [dominates, h.better_eq ha hb, h.better_eq hb ha, hax, hby]
  exact CostComparison.dominates_relaxed_iff (h.grows x (mem_prices_iff.2 ⟨a, ha, hax⟩))
    (h.grows y (mem_prices_iff.2 ⟨b, hb, hby⟩))

theorem ties_iff (h : DifferInCost factor xs) (ha : a ∈ xs) (hb : b ∈ xs) :
    ties (Criteria.relaxedCost factor).better a b = true ↔ a.cost = b.cost := by
  obtain ⟨x, hx, hax⟩ := h.exists_price ha
  obtain ⟨y, hy, hby⟩ := h.exists_price hb
  rw [ties, h.better_eq ha hb, h.better_eq hb ha, hax, hby, Option.some_inj]
  exact CostComparison.ties_relaxed_iff (h.grows x hx) (h.grows y hy)

/-- Whatever dominates a journey costs no less than the least cost, so if that one has the journey
within reach, all have. -/
theorem undominated_eq (h : DifferInCost factor xs) (hm : m ∈ prices xs)
    (hleast : ∀ x ∈ prices xs, m ≤ x) (hb : b ∈ xs) :
    (xs.all fun a => !dominates (Criteria.relaxedCost factor).better a b) =
      b.costsAtMost (m.scale factor) := by
  obtain ⟨y, hy, hby⟩ := h.exists_price hb
  have hwithin : b.costsAtMost (m.scale factor) = true ↔ ¬m.scale factor < y := by
    simp [Journey.costsAtMost, hby, Cost.le_iff, Cost.lt_iff]
  rw [Bool.eq_iff_iff, hwithin, List.all_eq_true]
  constructor
  · intro hall hreach
    obtain ⟨a, ha, ham⟩ := mem_prices_iff.1 hm
    have hdom := (h.dominates_iff ha hb ham hby).2 hreach
    simpa [hdom] using hall a ha
  · intro hnot a ha
    rw [Bool.not_eq_true', ← Bool.not_eq_true]
    intro hdom
    obtain ⟨x, hx, hax⟩ := h.exists_price ha
    have hreach : x.scale factor < y := (h.dominates_iff ha hb hax hby).1 hdom
    exact hnot (Nat.lt_of_le_of_lt (h.mono m hm x hx (hleast x hx)) hreach)

theorem survives_eq (h : DifferInCost factor xs) (hm : m ∈ prices xs)
    (hleast : ∀ x ∈ prices xs, m ≤ x) (hb : b ∈ xs) (i : Nat) :
    survives (Criteria.relaxedCost factor).better xs b i =
      (b.costsAtMost (m.scale factor) && (xs.take i).all fun a => a.cost ≠ b.cost) := by
  have hfirst : ((xs.take i).all fun a => !ties (Criteria.relaxedCost factor).better a b) =
      (xs.take i).all fun a => a.cost ≠ b.cost := by
    rw [Bool.eq_iff_iff, List.all_eq_true, List.all_eq_true]
    refine forall₂_congr fun a ha => ?_
    rw [Bool.not_eq_true', ← Bool.not_eq_true, h.ties_iff (List.mem_of_mem_take ha) hb,
      decide_eq_true_eq]
  rw [survives, h.undominated_eq hm hleast hb, hfirst]

theorem elements_ofList (h : DifferInCost factor xs) (hm : m ∈ prices xs)
    (hleast : ∀ x ∈ prices xs, m ≤ x) :
    (Front.ofList xs : Front (Criteria.relaxedCost factor).better).elements =
      firsts Journey.cost (xs.filter (Journey.costsAtMost (m.scale factor))) := by
  have hkeep : ∀ a b : Journey, a.cost = b.cost →
      a.costsAtMost (m.scale factor) = b.costsAtMost (m.scale factor) := by
    intro a b hab
    rw [Journey.costsAtMost, hab, Journey.costsAtMost]
  rw [h.unbeatenAmong.elements_ofList fun a ha => ha, survivors,
    ← filter_zipIdx_eq_firsts Journey.cost hkeep]
  congr 1
  refine List.filter_congr fun p hp => ?_
  exact h.survives_eq hm hleast (List.fst_mem_of_mem_zipIdx hp) p.2

end DifferInCost

/-- Where journeys differ in cost alone, a set that compares costs up to a factor keeps the first
journey of every cost that is within the factor of the least cost of the whole run, in the order in
which they were offered. So whether the cheapest one was offered first or last does not matter:
another order leaves the same costs. -/
theorem relaxed_cost_keeps_within_factor {s : ResultSet} {factor : Float} (hs : s.journeys = [])
    (hc : s.criteria = .relaxedCost factor) (actions : List ResultSet.Action)
    (hdiffer : DifferInCost factor (s.offered actions)) (m : Cost)
    (hm : m ∈ prices (s.offered actions)) (hleast : ∀ x ∈ prices (s.offered actions), m ≤ x) :
    (s.run actions).journeys =
        firsts Journey.cost ((s.offered actions).filter (Journey.costsAtMost (m.scale factor))) ∧
      ∀ ys : List Journey, ys.Perm (s.offered actions) →
        (Front.ofList ys : Front s.criteria.better).elements =
            firsts Journey.cost (ys.filter (Journey.costsAtMost (m.scale factor))) ∧
          ((Front.ofList ys : Front s.criteria.better).elements.map Journey.cost).Perm
            ((s.run actions).journeys.map Journey.cost) := by
  rw [ResultSet.journeys_run hs, hc]
  refine ⟨hdiffer.elements_ofList hm hleast, fun ys hp => ⟨?_, ?_⟩⟩
  · have hprices : (prices ys).Perm (prices (s.offered actions)) := hp.filterMap _
    refine (hdiffer.perm hp).elements_ofList (hprices.mem_iff.2 hm) ?_
    intro x hx
    exact hleast x (hprices.mem_iff.1 hx)
  · refine hdiffer.unbeatenAmong.map_perm ?_ (fun a ha => ha) hp
    intro a b ha hb hties
    exact (hdiffer.ties_iff ha hb).1 hties

/-- Of three journeys that are offered before the cheapest one, the one that costs more than twice
as much leaves; in the opposite order it does not get in. Two that cost the same stand for each
other. -/
theorem relaxed_cost_keeps_within_factor_strolls :
    let fair := stroll (.ofHms 8 20 0) (Cost.ofNat 180)
    let dear := stroll (.ofHms 8 20 0) (Cost.ofNat 250)
    let again := fair.atIteration Time.midnight
    let cheap := stroll (.ofHms 8 20 0) (Cost.ofNat 100)
    let s := preparedSet (.relaxedCost 2.0) [fair, dear, again, cheap]
    (s.run (offersOf [0, 1, 2])).journeys = [fair, dear] ∧
      (s.run (offersOf [0, 1, 2, 3])).journeys = [fair, cheap] ∧
      (Front.ofList [cheap, again, dear, fair] : Front s.criteria.better).elements =
        [cheap, again] := by
  intro fair dear again cheap s
  have hoffered : s.offered (offersOf [0, 1, 2, 3]) = [fair, dear, again, cheap] := rfl
  have hdiffer : DifferInCost 2.0 (s.offered (offersOf [0, 1, 2, 3])) := by
    rw [hoffered]
    exact
      { endTime := by decide
        rideCount := by decide
        priced := by decide
        grows := by decide
        mono := by decide }
  obtain ⟨hkept, horder⟩ := relaxed_cost_keeps_within_factor rfl rfl (offersOf [0, 1, 2, 3]) hdiffer
    (Cost.ofNat 100) (by decide) (by decide)
  have hopposite : [cheap, again, dear, fair].Perm (s.offered (offersOf [0, 1, 2, 3])) :=
    [fair, dear, again, cheap].reverse_perm
  refine ⟨by decide, hkept.trans ?_, (horder _ hopposite).1.trans ?_⟩
  · decide
  · decide

end Journeys
