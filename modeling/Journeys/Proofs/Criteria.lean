import Journeys.Criteria

/-!
# Proofs: what order criteria make

A front holds what its stream would leave only if not being beaten is transitive. For a single
criterion that is an order this is plain, but a journey beats another one if it does so on any
criterion, with different boardings each of two journeys beats the other, and within a factor each
of two costs may have the advantage. It is transitive all the same, criterion by criterion, as long
as the journeys carry costs where these are compared, and as long as no factor takes a cost below
itself.
-/

namespace Journeys

variable {a b d : Journey}

namespace CostComparison

variable {c : CostComparison} {x y z : Option Cost}

/-- The cost of a journey can be compared: it is there if it counts at all, and the factor, if there
is one, does not take it below itself. -/
def Compares (c : CostComparison) (cost : Option Cost) : Prop :=
  match c with
  | ignored => True
  | exact => ∃ x, cost = some x
  | relaxed factor => ∃ x, cost = some x ∧ x ≤ x.scale factor

theorem better_self (c : CostComparison) (x : Option Cost) : c.better x x = false := by
  cases x with
  | none => rfl
  | some x => cases c <;> simp [better, Cost.lt_iff]

theorem better_none_left (c : CostComparison) (x : Option Cost) : c.better none x = false := rfl

theorem better_none_right (c : CostComparison) (x : Option Cost) : c.better x none = false := by
  cases x <;> rfl

/-- Two costs of which neither is within the factor of the other are further apart than those
between them. -/
theorem better_trans (hy : c.Compares y) (hxy : c.better x y = false)
    (hyz : c.better y z = false) : c.better x z = false := by
  rcases x with _ | x
  · exact better_none_left c z
  rcases z with _ | z
  · exact better_none_right c (some x)
  cases c with
  | ignored => rfl
  | exact =>
    obtain ⟨y, rfl⟩ := hy
    simp only [better, decide_eq_false_iff_not, Cost.lt_iff] at hxy hyz ⊢
    omega
  | relaxed factor =>
    obtain ⟨y, rfl, hgrows⟩ := hy
    simp only [better, ne_eq, decide_not, Bool.and_eq_false_iff, Bool.not_eq_false',
      decide_eq_true_eq, decide_eq_false_iff_not, Cost.le_iff] at hxy hyz ⊢
    rw [Cost.le_iff] at hgrows
    rcases hxy with rfl | hxy
    · exact hyz
    rcases hyz with rfl | hyz
    · exact Or.inr hxy
    · right
      omega

/-- A cost that is compared exactly fails to beat another one exactly when it is no less. -/
theorem better_eq_false_iff (hc : c.factor? = none) (hx : c.Compares x) (hy : c.Compares y) :
    c.better x y = false ↔ (c = exact → ∀ l r, x = some l → y = some r → r ≤ l) := by
  cases c with
  | ignored =>
    have hnever : ignored.better x y = false := by
      cases x <;> cases y <;> rfl
    simp [hnever]
  | exact =>
    obtain ⟨x, rfl⟩ := hx
    obtain ⟨y, rfl⟩ := hy
    simp [better, Cost.lt_iff, Cost.le_iff]
  | relaxed factor => cases hc

theorem better_iff (hc : c.factor? = none) :
    c.better x y = true ↔ c = exact ∧ ∃ l r, x = some l ∧ y = some r ∧ l < r := by
  cases c with
  | ignored => cases x <;> cases y <;> simp [better]
  | exact => cases x <;> cases y <;> simp [better]
  | relaxed factor => cases hc

end CostComparison

namespace Distinction

variable {k : Distinction}

theorem better_self (k : Distinction) (a : Journey) : k.better a a = false := by
  cases k <;> simp [better, Time.lt_iff]

theorem better_trans (hab : k.better a b = false) (hbd : k.better b d = false) :
    k.better a d = false := by
  cases k with
  | nothing => rfl
  | lateDeparture =>
    simp only [better, decide_eq_false_iff_not, Time.lt_iff] at hab hbd ⊢
    omega
  | boardings =>
    simp only [better, ne_eq, decide_not, Bool.not_eq_false', decide_eq_true_eq] at hab hbd ⊢
    exact hab.trans hbd

theorem better_eq_false_iff :
    k.better a b = false ↔ (k = lateDeparture → a.startTime ≤ b.startTime) ∧
      (k = boardings → a.boardings = b.boardings) := by
  cases k with
  | nothing => simp [better]
  | lateDeparture => simp [better, Time.not_lt]
  | boardings => simp [better]

theorem better_iff :
    k.better a b = true ↔ (k = lateDeparture ∧ b.startTime < a.startTime) ∨
      (k = boardings ∧ a.boardings ≠ b.boardings) := by
  cases k with
  | nothing => simp [better]
  | lateDeparture => simp [better]
  | boardings => simp [better]

end Distinction

namespace Criteria

variable {c : Criteria}

/-- A journey has what the criteria compare. -/
def Compares (c : Criteria) (j : Journey) : Prop := c.cost.Compares j.cost

/-- To beat a journey nowhere is to beat it on no single criterion. -/
theorem better_eq_false_iff :
    c.better a b = false ↔ b.endTime ≤ a.endTime ∧ b.rideCount ≤ a.rideCount ∧
      c.distinction.better a b = false ∧ c.cost.better a.cost b.cost = false := by
  simp [better, Time.not_lt, and_assoc]

theorem better_self (c : Criteria) (a : Journey) : c.better a a = false :=
  better_eq_false_iff.2 ⟨Time.le_refl _, Nat.le_refl _, c.distinction.better_self a,
    c.cost.better_self a.cost⟩

/-- Not being beaten is transitive, as each criterion is by itself. -/
theorem better_trans (hb : c.Compares b) (hab : c.better a b = false)
    (hbd : c.better b d = false) : c.better a d = false := by
  obtain ⟨harrival, hrides, hdistinction, hcost⟩ := better_eq_false_iff.1 hab
  obtain ⟨harrival', hrides', hdistinction', hcost'⟩ := better_eq_false_iff.1 hbd
  refine better_eq_false_iff.2 ⟨?_, ?_, ?_, ?_⟩
  · exact Time.le_trans harrival' harrival
  · exact Nat.le_trans hrides' hrides
  · exact Distinction.better_trans hdistinction hdistinction'
  · exact CostComparison.better_trans hb hcost hcost'

theorem dominates_iff :
    dominates c.better a b = true ↔ c.better a b = true ∧ c.better b a = false := by
  simp [dominates]

theorem dominates_asymm (h : dominates c.better a b = true) :
    dominates c.better b a = false := by
  obtain ⟨hab, -⟩ := dominates_iff.1 h
  simp [dominates, hab]

theorem dominates_trans (hb : c.Compares b) (hd : c.Compares d)
    (hab : dominates c.better a b = true) (hbd : dominates c.better b d = true) :
    dominates c.better a d = true := by
  obtain ⟨hahead, hbehind⟩ := dominates_iff.1 hab
  obtain ⟨-, hbehind'⟩ := dominates_iff.1 hbd
  refine dominates_iff.2 ⟨?_, better_trans hb hbehind' hbehind⟩
  -- if `a` did not beat `d`, which does not beat `b`, it would not beat `b` either
  cases hcase : c.better a d with
  | true => rfl
  | false =>
    have hnot : c.better a b = false := better_trans hd hcase hbehind'
    rw [hahead] at hnot
    cases hnot

/-- One journey is no worse than another on any criterion that counts. -/
structure NoWorse (c : Criteria) (a b : Journey) : Prop where
  arrival : a.endTime ≤ b.endTime
  rides : a.rideCount ≤ b.rideCount
  departure : c.distinction = .lateDeparture → b.startTime ≤ a.startTime
  boardings : c.distinction = .boardings → a.boardings = b.boardings
  cost : c.cost = .exact → ∀ x y, a.cost = some x → b.cost = some y → x ≤ y

/-- One journey is strictly better than another on a criterion that counts and that is an order. -/
def Ahead (c : Criteria) (a b : Journey) : Prop :=
  a.endTime < b.endTime ∨ a.rideCount < b.rideCount ∨
    (c.distinction = .lateDeparture ∧ b.startTime < a.startTime) ∨
    (c.cost = .exact ∧ ∃ x y, a.cost = some x ∧ b.cost = some y ∧ x < y)

theorem noWorse_iff (hc : c.cost.factor? = none) (ha : c.Compares a) (hb : c.Compares b) :
    c.NoWorse a b ↔ c.better b a = false := by
  rw [better_eq_false_iff, Distinction.better_eq_false_iff,
    CostComparison.better_eq_false_iff hc hb ha]
  constructor
  · rintro ⟨harrival, hrides, hdeparture, hboardings, hcost⟩
    exact ⟨harrival, hrides, ⟨hdeparture, fun hk => (hboardings hk).symm⟩,
      fun he x y hx hy => hcost he y x hy hx⟩
  · rintro ⟨harrival, hrides, ⟨hdeparture, hboardings⟩, hcost⟩
    exact ⟨harrival, hrides, hdeparture, fun hk => (hboardings hk).symm,
      fun he x y hx hy => hcost he y x hy hx⟩

/-- A journey beats another one if it is ahead, or if the boardings count and differ. -/
theorem better_iff (hc : c.cost.factor? = none) :
    c.better a b = true ↔
      c.Ahead a b ∨ (c.distinction = .boardings ∧ a.boardings ≠ b.boardings) := by
  simp only [better, Bool.or_eq_true, decide_eq_true_eq, Distinction.better_iff,
    CostComparison.better_iff hc, Ahead]
  constructor
  · rintro (((harrival | hrides) | hdeparture | hboardings) | hcost)
    · exact Or.inl (Or.inl harrival)
    · exact Or.inl (Or.inr (Or.inl hrides))
    · exact Or.inl (Or.inr (Or.inr (Or.inl hdeparture)))
    · exact Or.inr hboardings
    · exact Or.inl (Or.inr (Or.inr (Or.inr hcost)))
  · rintro ((harrival | hrides | hdeparture | hcost) | hboardings)
    · exact Or.inl (Or.inl (Or.inl harrival))
    · exact Or.inl (Or.inl (Or.inr hrides))
    · exact Or.inl (Or.inr (Or.inl hdeparture))
    · exact Or.inr hcost
    · exact Or.inl (Or.inr (Or.inr hboardings))

/-- Where no factor is involved, to dominate a journey is to be no worse on all criteria that count,
and ahead on one of those that are orders. -/
theorem dominates_iff_noWorse_and_ahead (hc : c.cost.factor? = none) (ha : c.Compares a)
    (hb : c.Compares b) :
    dominates c.better a b = true ↔ c.NoWorse a b ∧ c.Ahead a b := by
  rw [dominates_iff, ← noWorse_iff hc ha hb, better_iff hc]
  constructor
  · rintro ⟨hahead | ⟨hk, hne⟩, hno⟩
    · exact ⟨hno, hahead⟩
    · exact absurd (hno.boardings hk) hne
  · rintro ⟨hno, hahead⟩
    exact ⟨Or.inl hahead, hno⟩

end Criteria

/-- Under all criteria, not being beaten is reflexive and transitive among journeys that can be
compared, so to dominate is a strict order among them; and without a factor it means to be no worse
anywhere and ahead somewhere. -/
theorem criteria_order_journeys (c : Criteria) (ha : c.Compares a) (hb : c.Compares b)
    (hd : c.Compares d) :
    c.better a a = false ∧
      (c.better a b = false → c.better b d = false → c.better a d = false) ∧
      dominates c.better a a = false ∧
      (dominates c.better a b = true → dominates c.better b a = false) ∧
      (dominates c.better a b = true → dominates c.better b d = true →
        dominates c.better a d = true) ∧
      (c.cost.factor? = none → (dominates c.better a b = true ↔ c.NoWorse a b ∧ c.Ahead a b)) := by
  refine ⟨c.better_self a, Criteria.better_trans hb, ?_, Criteria.dominates_asymm,
    Criteria.dominates_trans hb hd, ?_⟩
  · simp [dominates, c.better_self a]
  · intro hc
    exact Criteria.dominates_iff_noWorse_and_ahead hc ha hb

/-- The legs of a walk past one stop. -/
def strollLegs (arrives : Time) : List Leg :=
  [⟨.access, .origin, .stop ⟨1⟩, .ofHms 8 0 0, .ofHms 8 10 0, none⟩,
    ⟨.egress, .stop ⟨1⟩, .destination, .ofHms 8 10 0, arrives, none⟩]

/-- A journey on foot. -/
def stroll (arrives : Time) (cost : Cost)
    (checked : Journey.check (strollLegs arrives) = .ok () := by rfl) : Journey :=
  { legs := strollLegs arrives, cost := some cost, iteration := none, checked }

/-- Each of three journeys costs more than one and a half times what the one before it does, and
arrives later. -/
theorem criteria_order_journeys_strolls :
    let c : Criteria := ⟨.lateDeparture, .relaxed 1.5⟩
    let quick := stroll (.ofHms 8 20 0) (Cost.ofNat 500)
    let slow := stroll (.ofHms 8 30 0) (Cost.ofNat 900)
    let slowest := stroll (.ofHms 8 40 0) (Cost.ofNat 2000)
    dominates c.better quick slow = true ∧ dominates c.better slow slowest = true ∧
      dominates c.better quick slowest = true := by
  intro c quick slow slowest
  have hquick : c.Compares quick := ⟨Cost.ofNat 500, rfl, by decide⟩
  have hslow : c.Compares slow := ⟨Cost.ofNat 900, rfl, by decide⟩
  have hslowest : c.Compares slowest := ⟨Cost.ofNat 2000, rfl, by decide⟩
  have hfirst : dominates c.better quick slow = true := by decide
  have hsecond : dominates c.better slow slowest = true := by decide
  obtain ⟨-, -, -, -, htrans, -⟩ := criteria_order_journeys c hquick hslow hslowest
  exact ⟨hfirst, hsecond, htrans hfirst hsecond⟩

end Journeys
