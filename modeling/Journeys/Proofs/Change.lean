import Journeys.Proofs.Ridden

/-!
# Proofs: settled changes

Settling goes through the rides once and touches a ride twice, for the change before it and for the
change behind it. The outcome has a closed form: every ride keeps its slack on a side where no rule
applies and has none on the other (`Ridden.between`), and rules do not depend on slack. So what was
known of the rides carries over to the settled ones, change by change
(`Change.chained_settled`).
-/

namespace Journeys

namespace Ridden

/-- The ride between two changes: it has slack only where there is no rule. -/
def between (before after : Option TransferRule) (r : Ridden) : Ridden :=
  { r with
    ride := { r.ride with
      boardSlack := if before.isSome then Span.zero else r.ride.boardSlack
      alightSlack := if after.isSome then Span.zero else r.ride.alightSlack } }

variable {before after : Option TransferRule}

@[simp] theorem between_none_none (r : Ridden) : r.between none none = r := rfl

theorem withoutBoardSlack_eq (rule : TransferRule) (r : Ridden) :
    r.withoutBoardSlack = r.between (some rule) none := rfl

theorem withoutAlightSlack_between (rule : TransferRule) (r : Ridden) :
    (r.between before none).withoutAlightSlack = r.between before (some rule) := rfl

theorem OnTrip.between {r : Ridden} (h : r.OnTrip) : (r.between before after).OnTrip :=
  ⟨h.pattern, h.times⟩

theorem boardSlack_between (r : Ridden) :
    (r.between before after).ride.boardSlack =
      if before.isSome then Span.zero else r.ride.boardSlack := rfl

theorem alightSlack_between (r : Ridden) :
    (r.between before after).ride.alightSlack =
      if after.isSome then Span.zero else r.ride.alightSlack := rfl

end Ridden

namespace Change

variable {rules : TransferRules}

/-- The transfer between two rides is not forbidden. -/
def Allowed (rules : TransferRules) (a : Ridden) (b : Ridden) : Prop :=
  Ridden.ruleBetween? rules a b ≠ some .forbidden

/-- The rides from one on with the changes between them, given the rule under which the first one is
boarded. -/
def settled (rules : TransferRules) :
    Option TransferRule → Ridden → List (Option Span × Ridden) → Linked Change Ridden
  | before, a, [] => { first := a.between before none, rest := [] }
  | before, a, (walk, b) :: rest =>
    let rule := Ridden.ruleBetween? rules a b
    (settled rules rule b rest).cons (a.between before rule) ⟨walk, rule⟩

/-- Settling gives the rides with the changes between them, unless a transfer is forbidden. -/
theorem settle_eq_ok_iff {before : Option TransferRule} {a : Ridden}
    {rest : List (Option Span × Ridden)} {s : Linked Change Ridden} :
    settle rules (a.between before none) rest = .ok s ↔
      s = settled rules before a rest ∧
        Linked.Chained (fun x _ y => Allowed rules x y) a rest := by
  induction rest generalizing before a s with
  | nil =>
    constructor
    · intro h
      cases h
      exact ⟨rfl, trivial⟩
    · rintro ⟨rfl, -⟩
      rfl
  | cons p rest ih =>
    obtain ⟨walk, b⟩ := p
    -- a rule is about the trips, whatever slack their rides have left
    have hrule : Ridden.ruleBetween? rules (a.between before none) b =
        Ridden.ruleBetween? rules a b := rfl
    rw [settle, hrule, settled, Linked.Chained, Allowed]
    split
    · rename_i hnone
      have hbehind {t : Linked Change Ridden} := @ih none b t
      rw [Ridden.between_none_none] at hbehind
      simp only [hnone, bind_eq_ok_iff, hbehind, pure_eq_ok_iff]
      constructor
      · rintro ⟨t, ⟨rfl, hchain⟩, rfl⟩
        exact ⟨rfl, by simp, hchain⟩
      · rintro ⟨rfl, -, hchain⟩
        exact ⟨_, ⟨rfl, hchain⟩, rfl⟩
    · rename_i hforbidden
      simp [hforbidden]
    · rename_i rule hallowed hsome
      have hbehind {t : Linked Change Ridden} := @ih (some rule) b t
      rw [← Ridden.withoutBoardSlack_eq] at hbehind
      simp only [hsome, bind_eq_ok_iff, hbehind, pure_eq_ok_iff]
      rw [Ridden.withoutAlightSlack_between rule]
      constructor
      · rintro ⟨t, ⟨rfl, hchain⟩, rfl⟩
        exact ⟨rfl, by simpa using hallowed, hchain⟩
      · rintro ⟨rfl, -, hchain⟩
        exact ⟨_, ⟨rfl, hchain⟩, rfl⟩

/-- A settled change keeps its rule. -/
def RuleHolds (a : Ridden) (change : Change) (b : Ridden) : Prop :=
  ∀ rule, change.rule = some rule → rule.holds (a.gap b) change.walkTime = true

theorem checkRules_eq_ok_iff {a : Ridden} {rest : List (Change × Ridden)} {u : Unit} :
    checkRules a rest = .ok u ↔ Linked.Chained RuleHolds a rest := by
  induction rest generalizing a with
  | nil => simp [checkRules, Linked.Chained]
  | cons p rest ih =>
    obtain ⟨change, b⟩ := p
    rw [checkRules, Linked.Chained, RuleHolds]
    cases hrule : change.rule with
    | none => simp [ih]
    | some rule =>
      by_cases hholds : rule.holds (a.gap b) change.walkTime = true
      · simp [hholds, ih]
      · simp [hholds]

/-- The rides with the changes between them come out exactly when no transfer is forbidden and all
rules are kept. -/
theorem ofRides_eq_ok_iff {rides : Linked (Option Span) Ridden} {s : Linked Change Ridden} :
    ofRides rules rides = .ok s ↔
      s = settled rules none rides.first rides.rest ∧
        Linked.Chained (fun x _ y => Allowed rules x y) rides.first rides.rest ∧
        Linked.Chained RuleHolds s.first s.rest := by
  have hsettle {t : Linked Change Ridden} :=
    @settle_eq_ok_iff rules none rides.first rides.rest t
  rw [Ridden.between_none_none] at hsettle
  simp only [ofRides, bind_eq_ok_iff, hsettle, checkRules_eq_ok_iff, pure_eq_ok_iff]
  constructor
  · rintro ⟨t, ⟨rfl, hallowed⟩, u, hholds, rfl⟩
    exact ⟨rfl, hallowed, hholds⟩
  · rintro ⟨rfl, hallowed, hholds⟩
    exact ⟨_, ⟨rfl, hallowed⟩, (), hholds, rfl⟩

theorem exists_ofRides_iff {rides : Linked (Option Span) Ridden} :
    (∃ s, ofRides rules rides = .ok s) ↔
      Linked.Chained (fun x _ y => Allowed rules x y) rides.first rides.rest ∧
        Linked.Chained RuleHolds (settled rules none rides.first rides.rest).first
          (settled rules none rides.first rides.rest).rest := by
  constructor
  · rintro ⟨s, hs⟩
    obtain ⟨rfl, hallowed, hholds⟩ := ofRides_eq_ok_iff.1 hs
    exact ⟨hallowed, hholds⟩
  · rintro ⟨hallowed, hholds⟩
    exact ⟨_, ofRides_eq_ok_iff.2 ⟨rfl, hallowed, hholds⟩⟩

/-! ## What settled rides keep -/

/-- The first settled ride keeps the slack before its boarding. -/
theorem exists_first_settled (rules : TransferRules) (before : Option TransferRule) (a : Ridden)
    (rest : List (Option Span × Ridden)) :
    ∃ after, (settled rules before a rest).first = a.between before after := by
  cases rest with
  | nil => exact ⟨none, rfl⟩
  | cons p rest => exact ⟨_, rfl⟩

/-- The last settled ride keeps the slack after its alighting. -/
theorem exists_last_settled (rules : TransferRules) (before : Option TransferRule) (a : Ridden)
    (rest : List (Option Span × Ridden)) :
    ∃ before', (settled rules before a rest).last =
      (Linked.lastFrom a rest).between before' none := by
  induction rest generalizing before a with
  | nil => exact ⟨before, rfl⟩
  | cons p rest ih =>
    obtain ⟨before', hlast⟩ := ih (Ridden.ruleBetween? rules a p.2) p.2
    exact ⟨before', hlast⟩

/-- What does not depend on slack is the same of the settled rides. -/
theorem map_settled {α : Type} (f : Ridden → α) (hf : ∀ x y r, f (r.between x y) = f r)
    (rules : TransferRules) (before : Option TransferRule) (a : Ridden)
    (rest : List (Option Span × Ridden)) :
    (settled rules before a rest).map Change.walk f = (⟨a, rest⟩ : Linked _ _).map id f := by
  induction rest generalizing before a with
  | nil => simp [settled, Linked.map, hf]
  | cons p rest ih =>
    obtain ⟨walk, b⟩ := p
    rw [settled, Linked.map_cons, ih, hf]
    rfl

/-- The rules under which the rides of a list are boarded, given that of the first one. -/
def boardingRules (before : Option TransferRule) (rides : Linked Change Ridden) :
    List (Option TransferRule) :=
  before :: rides.links.map Change.rule

/-- Place by place, a settled ride has no slack beside the rule under which it is boarded, nor
beside that of the ride behind it. -/
theorem getElem?_settled {rules : TransferRules} {before : Option TransferRule} {a : Ridden}
    {rest : List (Option Span × Ridden)} {i : Nat} {r : Ridden}
    (h : (settled rules before a rest).toList[i]? = some r) :
    ∃ r', (⟨a, rest⟩ : Linked _ _).toList[i]? = some r' ∧
      r = r'.between ((boardingRules before (settled rules before a rest))[i]?.join)
        ((boardingRules before (settled rules before a rest))[i + 1]?.join) := by
  induction rest generalizing before a i with
  | nil =>
    cases i with
    | zero => exact ⟨a, rfl, (Option.some.inj h).symm⟩
    | succ i => simp [settled, Linked.toList] at h
  | cons p rest ih =>
    obtain ⟨walk, b⟩ := p
    cases i with
    | zero => exact ⟨a, rfl, (Option.some.inj h).symm⟩
    | succ i =>
      rw [settled, Linked.toList_cons, List.getElem?_cons_succ] at h
      obtain ⟨r', hr', hr⟩ := ih h
      exact ⟨r', hr', hr⟩

/-- What holds of every ride, with or without its slack, holds of every settled ride. -/
theorem forall_settled {P : Ridden → Prop} {a : Ridden} {rest : List (Option Span × Ridden)}
    (h : ∀ r ∈ (⟨a, rest⟩ : Linked _ _).toList, ∀ x y, P (r.between x y)) (rules : TransferRules)
    (before : Option TransferRule) : ∀ r ∈ (settled rules before a rest).toList, P r := by
  induction rest generalizing before a with
  | nil =>
    intro r hr
    rw [settled, Linked.toList, List.map_nil, List.mem_singleton] at hr
    rw [hr]
    exact h a (Linked.first_mem_toList _) before none
  | cons p rest ih =>
    obtain ⟨walk, b⟩ := p
    rw [settled, Linked.toList_cons]
    refine List.forall_mem_cons.2 ⟨h a (Linked.first_mem_toList _) _ _, ih ?_ _⟩
    intro r hr
    exact h r (List.mem_cons_of_mem a hr)

/-- A relation between rides that follow each other carries over to the settled rides, together with
the rule of the change. -/
theorem chained_settled {R : Ridden → Option Span → Ridden → Prop}
    {S : Ridden → Change → Ridden → Prop}
    (hRS : ∀ a walk b x y, R a walk b →
      S (a.between x (Ridden.ruleBetween? rules a b)) ⟨walk, Ridden.ruleBetween? rules a b⟩
        (b.between (Ridden.ruleBetween? rules a b) y))
    {a : Ridden} {rest : List (Option Span × Ridden)} (h : Linked.Chained R a rest)
    (before : Option TransferRule) :
    Linked.Chained S (settled rules before a rest).first (settled rules before a rest).rest := by
  induction rest generalizing before a with
  | nil => trivial
  | cons p rest ih =>
    obtain ⟨walk, b⟩ := p
    obtain ⟨hab, hrest⟩ := h
    obtain ⟨after, hfirst⟩ :=
      exists_first_settled rules (Ridden.ruleBetween? rules a b) b rest
    refine ⟨?_, ih hrest _⟩
    rw [hfirst]
    exact hRS a walk b before after hab

/-! ## Without rules -/

theorem settled_unconstrained (a : Ridden) (rest : List (Option Span × Ridden)) :
    settled TransferRules.unconstrained none a rest =
      (⟨a, rest⟩ : Linked _ _).map (fun walk => ⟨walk, none⟩) id := by
  induction rest generalizing a with
  | nil => rfl
  | cons p rest ih =>
    obtain ⟨walk, b⟩ := p
    have hrule : Ridden.ruleBetween? TransferRules.unconstrained a b = none := rfl
    rw [settled, hrule, ih]
    rfl

/-- Where there are no rules, rides are settled as they are. -/
theorem ofRides_unconstrained (rides : Linked (Option Span) Ridden) :
    ofRides TransferRules.unconstrained rides =
      .ok (rides.map (fun walk => ⟨walk, none⟩) id) := by
  have hnone (a b : Ridden) : Ridden.ruleBetween? TransferRules.unconstrained a b = none := rfl
  have hall : Linked.Chained (fun _ _ _ => True) rides.first rides.rest :=
    Linked.Chained.of_links fun _ _ => trivial
  rw [← settled_unconstrained]
  refine ofRides_eq_ok_iff.2 ⟨rfl, hall.imp ?_, chained_settled ?_ hall none⟩
  · intro a _ b _
    rw [Allowed, hnone]
    simp
  · intro a walk b x y _ rule hrule
    cases hrule

end Change

end Journeys
