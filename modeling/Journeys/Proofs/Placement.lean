import Journeys.Proofs.Change
import Journeys.Proofs.Journey
import Journeys.Reconstruction

/-!
# Proofs: placed legs

From the last ride back, the legs that are placed run on to the destination: a ride leads to where
it is left, and what lies behind it starts there. How much this takes for granted is left open
twice: only if walks fit between the rides are the legs `ordered`, and only if all times and spans
are `bounded` is there a time for each of them.
-/

namespace Journeys

variable {ordered bounded : Prop}

/-- How there may be no journey: the arrival is unusable if times or spans are not bounded, and legs
overlap if they are not ordered. -/
def MayFail (ordered bounded : Prop) : RebuildError → Prop
  | .unusable _ => ¬bounded
  | .inconsistent e => Overlaps ordered e

/-- A span that a leg can be placed with: it is not negative, and moderate if all is bounded. -/
structure Span.Passable (bounded : Prop) (d : Span) : Prop where
  nonneg : Span.zero ≤ d
  moderate : bounded → d.Moderate

instance [Decidable bounded] : DecidablePred (Span.Passable bounded) := fun d =>
  decidable_of_iff (Span.zero ≤ d ∧ (bounded → d.Moderate))
    ⟨fun ⟨hnonneg, hmoderate⟩ => ⟨hnonneg, hmoderate⟩,
      fun ⟨hnonneg, hmoderate⟩ => ⟨hnonneg, hmoderate⟩⟩

theorem Span.Passable.wholeSeconds {d : Span} (h : d.Passable bounded) :
    0 ≤ d.wholeSeconds ∧ (bounded → d.wholeSeconds < 268435456) :=
  ⟨Span.wholeSeconds_nonneg h.nonneg, fun hb => (h.moderate hb).wholeSeconds_lt h.nonneg⟩

/-- Three spans in a row add up, to less than three times their bound. -/
theorem Span.Passable.exists_sum? {a b c : Span} (ha : a.Passable True) (hb : b.Passable True)
    (hc : c.Passable True) :
    ∃ d, Span.sum? [a, b, c] = some d ∧ d.nanos = a.nanos + b.nanos + c.nanos ∧
      0 ≤ d.wholeSeconds ∧ d.wholeSeconds < 805306368 := by
  obtain ⟨ha₀, ha₁⟩ := ha
  obtain ⟨hb₀, hb₁⟩ := hb
  obtain ⟨hc₀, hc₁⟩ := hc
  obtain ⟨d, hd⟩ := Span.exists_sum? (ha₁ trivial) (hb₁ trivial) (hc₁ trivial)
  have hnanos := Span.nanos_of_sum?_eq_some hd
  obtain ⟨-, ha₁⟩ := ha₁ trivial
  obtain ⟨-, hb₁⟩ := hb₁ trivial
  obtain ⟨-, hc₁⟩ := hc₁ trivial
  rw [Span.le_iff, Span.nanos_zero] at ha₀ hb₀ hc₀
  have hnonneg : Span.zero ≤ d := by
    rw [Span.le_iff, Span.nanos_zero]
    omega
  refine ⟨d, hd, hnanos, Span.wholeSeconds_nonneg hnonneg, ?_⟩
  rw [Span.wholeSeconds_of_nonneg hnonneg]
  omega

namespace Ridden

/-- A ride that can be placed between walks. -/
structure Placeable (bounded : Prop) (r : Ridden) : Prop where
  onwards : r.ride.hop.boardPos < r.ride.hop.alightPos
  advancing : r.boardTime ≤ r.alightTime
  boardSlack : r.ride.boardSlack.Passable bounded
  alightSlack : r.ride.alightSlack.Passable bounded
  moderate : bounded → r.boardTime.Moderate ∧ r.alightTime.Moderate

/-- What a leg says about the ride, boarded under a rule. -/
def details (rule : Option TransferRule) (r : Ridden) : RideDetails :=
  { tripId := r.tripId
    trip := r.trip
    boardPos := r.ride.hop.boardPos
    alightPos := r.ride.hop.alightPos
    boardSlack := r.ride.boardSlack
    alightSlack := r.ride.alightSlack
    rule }

/-- The ride as a leg, boarded under a rule. -/
def asLeg (rule : Option TransferRule) (r : Ridden) : Leg :=
  { kind := .ride (r.details rule)
    fromPlace := .stop r.ride.board
    toPlace := .stop r.ride.alight
    start := r.boardTime
    finish := r.alightTime
    cost := none }

end Ridden

/-- The leg, price apart, is a ride boarded under a rule. -/
def Leg.Rides (leg : Leg) (rule : Option TransferRule) (r : Ridden) : Prop :=
  leg.unpriced = r.asLeg rule

/-- A leg that is a ride says about it what the ride does. -/
theorem Leg.Rides.parts {leg : Leg} {rule : Option TransferRule} {r : Ridden}
    (h : leg.Rides rule r) :
    leg.ride? = some (r.details rule) ∧ leg.fromPlace = .stop r.ride.board ∧
      leg.toPlace = .stop r.ride.alight ∧ leg.start = r.boardTime ∧ leg.finish = r.alightTime := by
  have hkind : leg.kind = .ride (r.details rule) := (Leg.mk.inj h).1
  obtain ⟨-, hfrom, hto, hstart, hfinish, -⟩ := Leg.mk.inj h
  refine ⟨?_, hfrom, hto, hstart, hfinish⟩
  rw [ride?, hkind]

/-- Two rides connect over a change: without a walk they meet at a stop, and if they are ordered the
walk fits between them. -/
structure Change.Connects (ordered bounded : Prop) (a : Ridden) (change : Change) (b : Ridden) :
    Prop where
  meets : change.walk = none → a.ride.alight = b.ride.board
  walk : change.walkTime.Passable bounded
  fits : ordered → a.alightTime.seconds + a.ride.alightSlack.wholeSeconds +
    change.walkTime.wholeSeconds ≤ b.boardTime.seconds

namespace Leg

theorem build_eq_ok_iff {kind : LegKind} {fromPlace toPlace : Place} {start finish : Time}
    {leg : Leg} :
    build kind fromPlace toPlace start finish = .ok leg ↔
      leg = ⟨kind, fromPlace, toPlace, start, finish, none⟩ ∧ leg.check = .ok () := by
  constructor
  · intro h
    obtain ⟨hcheck, hleg⟩ := check_of_build h
    exact ⟨hleg, hcheck⟩
  · rintro ⟨rfl, hcheck⟩
    rw [build, hcheck, ok_bind]
    rfl

/-- A leg whose times do not run backwards and whose places suit its kind is built, and is sound. -/
theorem gives_build {F : RebuildError → Prop} {kind : LegKind} {fromPlace toPlace : Place}
    {start finish : Time} (htimes : start ≤ finish) (hjoins : kind.joins fromPlace toPlace = true) :
    Gives F (fun leg => leg = ⟨kind, fromPlace, toPlace, start, finish, none⟩ ∧
      leg.check = .ok ()) (Placement.inconsistent (build kind fromPlace toPlace start finish)) := by
  have hcheck : (⟨kind, fromPlace, toPlace, start, finish, none⟩ : Leg).check = .ok () :=
    check_eq_ok_iff.2 ⟨htimes, hjoins⟩
  exact Gives.of_ok (inconsistent_eq_ok_iff.2 (build_eq_ok_iff.2 ⟨rfl, hcheck⟩)) ⟨rfl, hcheck⟩

end Leg

namespace Placement

/-! ## Times -/

theorem gives_later {t : Time} {d : Span}
    (h : bounded → Time.InRange d.wholeSeconds ∧ Time.InRange (t.seconds + d.wholeSeconds)) :
    Gives (MayFail ordered bounded) (fun t' => t'.seconds = t.seconds + d.wholeSeconds)
      (unusable (t.later d)) := by
  refine Gives.mapError ?_
  cases hlater : t.later d with
  | ok t' => exact Time.seconds_of_later hlater
  | error e =>
    intro hb
    obtain ⟨t', ht'⟩ := Time.exists_later (h hb).1 (h hb).2
    rw [ht'] at hlater
    cases hlater

theorem gives_earlier {t : Time} {d : Span}
    (h : bounded → Time.InRange d.wholeSeconds ∧ Time.InRange (t.seconds - d.wholeSeconds)) :
    Gives (MayFail ordered bounded) (fun t' => t'.seconds = t.seconds - d.wholeSeconds)
      (unusable (t.earlier d)) := by
  refine Gives.mapError ?_
  cases hearlier : t.earlier d with
  | ok t' => exact Time.seconds_of_earlier hearlier
  | error e =>
    intro hb
    obtain ⟨t', ht'⟩ := Time.exists_earlier (h hb).1 (h hb).2
    rw [ht'] at hearlier
    cases hearlier

/-! ## Legs -/

/-- Two spans in a row stay in range from a moderate time on, either way. -/
theorem inRange_of_moderate {t : Time} {d d' : Span} (hd : d.Passable bounded)
    (hd' : d'.Passable bounded) (hb : bounded) (ht : t.Moderate) :
    Time.InRange d.wholeSeconds ∧ Time.InRange d'.wholeSeconds ∧
      Time.InRange (t.seconds + d.wholeSeconds) ∧
      Time.InRange (t.seconds + d.wholeSeconds + d'.wholeSeconds) ∧
      Time.InRange (t.seconds - d.wholeSeconds) ∧
      Time.InRange (t.seconds - d.wholeSeconds - d'.wholeSeconds) := by
  obtain ⟨hd₀, hd₁⟩ := hd.wholeSeconds
  obtain ⟨hd'₀, hd'₁⟩ := hd'.wholeSeconds
  have hd₁ := hd₁ hb
  have hd'₁ := hd'₁ hb
  obtain ⟨ht₀, ht₁⟩ := ht
  unfold Time.InRange
  omega

/-- The access walk leads to the first ride, and ends in time for it. -/
theorem gives_accessLeg {access : StreetWalk} {r : Ridden} (hr : r.Placeable bounded)
    (haccess : access.duration.Passable bounded) :
    Gives (MayFail ordered bounded)
      (fun leg => leg.check = .ok () ∧ leg.fromPlace = .origin ∧ leg.toPlace = .stop access.stop ∧
        leg.finish ≤ r.boardTime) (accessLeg access r) := by
  have hrange (hb : bounded) := inRange_of_moderate hr.boardSlack haccess hb (hr.moderate hb).1
  have hslack := hr.boardSlack.wholeSeconds.1
  have hwalk := haccess.wholeSeconds.1
  refine (gives_earlier fun hb => ?_).bind fun finish hfinish => ?_
  · exact ⟨(hrange hb).1, (hrange hb).2.2.2.2.1⟩
  refine (gives_earlier fun hb => ?_).bind fun start hstart => ?_
  · rw [hfinish]
    exact ⟨(hrange hb).2.1, (hrange hb).2.2.2.2.2⟩
  refine (Leg.gives_build ?_ rfl).imp ?_
  · rw [Time.le_iff]
    omega
  · rintro leg ⟨rfl, hcheck⟩
    have hle : finish ≤ r.boardTime := by
      rw [Time.le_iff]
      omega
    exact ⟨hcheck, rfl, rfl, hle⟩

/-- The egress walk leads to the destination, and starts no earlier than the last ride ends. -/
theorem gives_egressLeg {egress : StreetWalk} {r : Ridden} (hr : r.Placeable bounded)
    (hegress : egress.duration.Passable bounded) :
    Gives (MayFail ordered bounded)
      (fun leg => leg.check = .ok () ∧ leg.fromPlace = .stop egress.stop ∧
        leg.toPlace = .destination ∧ r.alightTime ≤ leg.start) (egressLeg egress r) := by
  have hrange (hb : bounded) := inRange_of_moderate hr.alightSlack hegress hb (hr.moderate hb).2
  have hslack := hr.alightSlack.wholeSeconds.1
  have hwalk := hegress.wholeSeconds.1
  refine (gives_later fun hb => ?_).bind fun start hstart => ?_
  · exact ⟨(hrange hb).1, (hrange hb).2.2.1⟩
  refine (gives_later fun hb => ?_).bind fun finish hfinish => ?_
  · rw [hstart]
    exact ⟨(hrange hb).2.1, (hrange hb).2.2.2.1⟩
  refine (Leg.gives_build ?_ rfl).imp ?_
  · rw [Time.le_iff]
    omega
  · rintro leg ⟨rfl, hcheck⟩
    have hle : r.alightTime ≤ start := by
      rw [Time.le_iff]
      omega
    exact ⟨hcheck, rfl, rfl, hle⟩

theorem gives_rideLeg (rule : Option TransferRule) {r : Ridden} (hr : r.Placeable bounded) :
    Gives (MayFail ordered bounded) (fun leg => leg = r.asLeg rule ∧ leg.check = .ok ())
      (rideLeg rule r) := by
  have hparts : rideLeg rule r = inconsistent (Leg.build (r.asLeg rule).kind (.stop r.ride.board)
      (.stop r.ride.alight) r.boardTime r.alightTime) :=
    congrArg inconsistent (if_neg (Nat.not_le.2 hr.onwards))
  rw [hparts]
  exact Leg.gives_build hr.advancing rfl

/-- The walk of a change leads from one ride to the next: legs that run on from the boarding of the
second ride run on, with the walk before them, from the alighting of the first. -/
theorem gives_transferLegs {a b : Ridden} {change : Change} (ha : a.Placeable bounded)
    (hchange : Change.Connects ordered bounded a change b) :
    Gives (MayFail ordered bounded)
      (fun walk => ∀ behind, RunsOn ordered (.stop b.ride.board) b.boardTime behind →
        ∃ next, RunsOn ordered (.stop a.ride.alight) next (walk ++ behind) ∧
          (ordered → a.alightTime ≤ next)) (transferLegs a change b) := by
  have hslack := ha.alightSlack.wholeSeconds.1
  have hpass := hchange.walk.wholeSeconds.1
  have hfits := hchange.fits
  have hrange (hb : bounded) :=
    inRange_of_moderate ha.alightSlack hchange.walk hb (ha.moderate hb).2
  cases hwalk : change.walk with
  | none =>
    rw [transferLegs, hwalk]
    intro behind hbehind
    rw [← hchange.meets hwalk] at hbehind
    refine ⟨_, hbehind, fun ho => ?_⟩
    have hfits := hfits ho
    rw [Time.le_iff]
    omega
  | some walk =>
    have htime : change.walkTime = walk := by rw [Change.walkTime, hwalk, Option.getD_some]
    rw [htime] at hpass hfits hrange
    rw [transferLegs, hwalk]
    refine (gives_later fun hb => ?_).bind fun start hstart => ?_
    · exact ⟨(hrange hb).1, (hrange hb).2.2.1⟩
    refine (gives_later fun hb => ?_).bind fun finish hfinish => ?_
    · rw [hstart]
      exact ⟨(hrange hb).2.1, (hrange hb).2.2.2.1⟩
    refine (Leg.gives_build (?_ : start ≤ finish) rfl).bind ?_
    · rw [Time.le_iff]
      omega
    · rintro leg ⟨rfl, hcheck⟩ behind hbehind
      have hbefore : a.alightTime ≤ start := by
        rw [Time.le_iff]
        omega
      have hafter (ho : ordered) : finish ≤ b.boardTime := by
        have hfits := hfits ho
        rw [Time.le_iff]
        omega
      exact ⟨start, RunsOn.cons hcheck hbehind hafter, fun _ => hbefore⟩

/-- The legs from a ride on run on from its boarding. -/
theorem gives_legsFrom {egress : StreetWalk} (hegress : egress.duration.Passable bounded)
    {r : Ridden} {rest : List (Change × Ridden)}
    (hrides : ∀ x ∈ (⟨r, rest⟩ : Linked Change Ridden).toList, x.Placeable bounded)
    (hchanges : Linked.Chained (Change.Connects ordered bounded) r rest)
    (hlast : (Linked.lastFrom r rest).ride.alight = egress.stop) (rule : Option TransferRule) :
    Gives (MayFail ordered bounded) (RunsOn ordered (.stop r.ride.board) r.boardTime)
      (legsFrom egress rule r rest) := by
  induction rest generalizing r rule with
  | nil =>
    have hr := hrides r (Linked.first_mem_toList _)
    refine (gives_rideLeg rule hr).bind ?_
    rintro leg ⟨rfl, hcheck⟩
    refine (gives_egressLeg hr hegress).bind ?_
    rintro last ⟨hlastcheck, hfrom, hto, htime⟩
    have hbehind : RunsOn ordered (.stop r.ride.alight) last.start [last] := by
      rw [show r.ride.alight = egress.stop from hlast, ← hfrom]
      exact .last hlastcheck hto
    exact RunsOn.cons hcheck hbehind fun _ => htime
  | cons p rest ih =>
    obtain ⟨change, next⟩ := p
    obtain ⟨hchange, hbehind⟩ := hchanges
    obtain ⟨hr, hrest⟩ := List.forall_mem_cons.1 hrides
    refine (gives_rideLeg rule hr).bind ?_
    rintro leg ⟨rfl, hcheck⟩
    refine (gives_transferLegs hr hchange).bind fun walk hwalk => ?_
    -- the legs behind the walk tell where and when the walk has to lead to
    refine (ih hrest hbehind hlast change.rule).bind fun behind hbehind => ?_
    obtain ⟨time, hruns, htime⟩ := hwalk behind hbehind
    exact RunsOn.cons hcheck hruns htime

/-- What is needed for the rides and the outer walks of a journey to be placed. -/
structure Ready (ordered bounded : Prop) (access egress : StreetWalk)
    (rides : Linked Change Ridden) : Prop where
  passAccess : access.duration.Passable bounded
  passEgress : egress.duration.Passable bounded
  first : rides.first.ride.board = access.stop
  last : rides.last.ride.alight = egress.stop
  placeable : ∀ r ∈ rides.toList, r.Placeable bounded
  connects : Linked.Chained (Change.Connects ordered bounded) rides.first rides.rest

/-- The legs of a journey run on from the origin. -/
theorem gives_legs {access egress : StreetWalk} {rides : Linked Change Ridden}
    (h : Ready ordered bounded access egress rides) :
    Gives (MayFail ordered bounded) (fun legs => ∃ start, RunsOn ordered .origin start legs)
      (legs access egress rides) := by
  have hfirst := h.placeable _ (Linked.first_mem_toList rides)
  refine (gives_accessLeg hfirst h.passAccess).bind ?_
  rintro leg ⟨hcheck, hfrom, hto, htime⟩
  refine (gives_legsFrom h.passEgress h.placeable h.connects h.last none).bind
    fun behind hbehind => ?_
  rw [h.first, ← hto] at hbehind
  refine ⟨leg.start, ?_⟩
  rw [← hfrom]
  exact .cons hcheck hbehind fun _ => htime

/-! ## The rides among the legs -/

theorem rideLeg_eq_ok {rule : Option TransferRule} {r : Ridden} {leg : Leg}
    (h : rideLeg rule r = .ok leg) : leg = r.asLeg rule := by
  have hride := inconsistent_eq_ok_iff.1 h
  unfold Leg.ride at hride
  split at hride
  · cases hride
  · exact (Leg.build_eq_ok_iff.1 hride).1

/-- The access walk leads to its stop, and ends when the slack before boarding begins. -/
theorem exists_of_accessLeg {access : StreetWalk} {r : Ridden} {leg : Leg}
    (h : accessLeg access r = .ok leg) :
    ∃ start finish, leg = ⟨.access, .origin, .stop access.stop, start, finish, none⟩ ∧
      finish.seconds = r.boardTime.seconds - r.ride.boardSlack.wholeSeconds ∧
      start.seconds = finish.seconds - access.duration.wholeSeconds := by
  obtain ⟨finish, hfinish, h⟩ := bind_eq_ok_iff.1 h
  obtain ⟨start, hstart, h⟩ := bind_eq_ok_iff.1 h
  exact ⟨start, finish, (Leg.build_eq_ok_iff.1 (inconsistent_eq_ok_iff.1 h)).1,
    Time.seconds_of_earlier (unusable_eq_ok_iff.1 hfinish),
    Time.seconds_of_earlier (unusable_eq_ok_iff.1 hstart)⟩

/-- The egress walk sets out from its stop when the slack after alighting is over. -/
theorem exists_of_egressLeg {egress : StreetWalk} {r : Ridden} {leg : Leg}
    (h : egressLeg egress r = .ok leg) :
    ∃ start finish, leg = ⟨.egress, .stop egress.stop, .destination, start, finish, none⟩ ∧
      start.seconds = r.alightTime.seconds + r.ride.alightSlack.wholeSeconds ∧
      finish.seconds = start.seconds + egress.duration.wholeSeconds := by
  obtain ⟨start, hstart, h⟩ := bind_eq_ok_iff.1 h
  obtain ⟨finish, hfinish, h⟩ := bind_eq_ok_iff.1 h
  exact ⟨start, finish, (Leg.build_eq_ok_iff.1 (inconsistent_eq_ok_iff.1 h)).1,
    Time.seconds_of_later (unusable_eq_ok_iff.1 hstart),
    Time.seconds_of_later (unusable_eq_ok_iff.1 hfinish)⟩

/-- In a change there is nothing but a walk, which sets out from where the ride before it is left
when the slack after alighting is over. -/
theorem exists_of_transferLegs {a b : Ridden} {change : Change} {walk : List Leg}
    (h : transferLegs a change b = .ok walk) :
    (change.walk = none ∧ walk = []) ∨
      ∃ d start finish, change.walk = some d ∧
        walk = [⟨.transfer, .stop a.ride.alight, .stop b.ride.board, start, finish, none⟩] ∧
        start.seconds = a.alightTime.seconds + a.ride.alightSlack.wholeSeconds ∧
        finish.seconds = start.seconds + d.wholeSeconds := by
  unfold transferLegs at h
  split at h
  · rename_i hwalk
    cases h
    exact .inl ⟨hwalk, rfl⟩
  · rename_i d hwalk
    obtain ⟨start, hstart, h⟩ := bind_eq_ok_iff.1 h
    obtain ⟨finish, hfinish, h⟩ := bind_eq_ok_iff.1 h
    obtain ⟨leg, hleg, h⟩ := bind_eq_ok_iff.1 h
    obtain ⟨rfl, -⟩ := Leg.build_eq_ok_iff.1 (inconsistent_eq_ok_iff.1 hleg)
    exact .inr ⟨d, start, finish, hwalk, (pure_eq_ok_iff.1 h).symm,
      Time.seconds_of_later (unusable_eq_ok_iff.1 hstart),
      Time.seconds_of_later (unusable_eq_ok_iff.1 hfinish)⟩

theorem kind_of_transferLegs {a b : Ridden} {change : Change} {walk : List Leg}
    (h : transferLegs a change b = .ok walk) : ∀ leg ∈ walk, leg.kind = .transfer := by
  rcases exists_of_transferLegs h with ⟨-, rfl⟩ | ⟨d, start, finish, -, rfl, -, -⟩
  · simp
  · simp

theorem filter_isRide_transferLegs {a b : Ridden} {change : Change} {walk : List Leg}
    (h : transferLegs a change b = .ok walk) : walk.filter Leg.isRide = [] := by
  refine List.filter_eq_nil_iff.2 fun leg hleg => ?_
  simp [Leg.isRide, Leg.ride?, kind_of_transferLegs h leg hleg]

/-- Behind the last ride there is the walk to the destination. -/
theorem exists_of_legsFrom_nil {egress : StreetWalk} {rule : Option TransferRule} {r : Ridden}
    {legs : List Leg} (h : legsFrom egress rule r [] = .ok legs) :
    ∃ last, egressLeg egress r = .ok last ∧ legs = [r.asLeg rule, last] := by
  obtain ⟨leg, hleg, h⟩ := bind_eq_ok_iff.1 h
  obtain ⟨last, hlast, h⟩ := bind_eq_ok_iff.1 h
  rw [← rideLeg_eq_ok hleg]
  exact ⟨last, hlast, (pure_eq_ok_iff.1 h).symm⟩

/-- Behind any other ride there is the walk of the change, if there is one, and the next ride. -/
theorem exists_of_legsFrom_cons {egress : StreetWalk} {rule : Option TransferRule} {r next : Ridden}
    {change : Change} {rest : List (Change × Ridden)} {legs : List Leg}
    (h : legsFrom egress rule r ((change, next) :: rest) = .ok legs) :
    ∃ walk behind, transferLegs r change next = .ok walk ∧
      legsFrom egress change.rule next rest = .ok behind ∧
      legs = r.asLeg rule :: (walk ++ behind) := by
  obtain ⟨leg, hleg, h⟩ := bind_eq_ok_iff.1 h
  obtain ⟨walk, hwalk, h⟩ := bind_eq_ok_iff.1 h
  obtain ⟨behind, hbehind, h⟩ := bind_eq_ok_iff.1 h
  rw [← rideLeg_eq_ok hleg]
  exact ⟨walk, behind, hwalk, hbehind, (pure_eq_ok_iff.1 h).symm⟩

/-- The rides among the legs are the rides that were placed, each under the rule of the change
before it. -/
theorem filter_isRide_legsFrom {egress : StreetWalk} {rule : Option TransferRule} {r : Ridden}
    {rest : List (Change × Ridden)} {legs : List Leg} (h : legsFrom egress rule r rest = .ok legs) :
    legs.filter Leg.isRide = List.zipWith Ridden.asLeg (rule :: rest.map fun p => p.1.rule)
      (r :: rest.map fun p => p.2) := by
  induction rest generalizing rule r legs with
  | nil =>
    obtain ⟨last, hlast, rfl⟩ := exists_of_legsFrom_nil h
    obtain ⟨start, finish, rfl, -, -⟩ := exists_of_egressLeg hlast
    rfl
  | cons p rest ih =>
    obtain ⟨walk, behind, hwalk, hbehind, rfl⟩ := exists_of_legsFrom_cons h
    rw [List.filter_cons_of_pos rfl, List.filter_append, filter_isRide_transferLegs hwalk,
      ih hbehind]
    rfl

theorem filter_isRide_legs {access egress : StreetWalk} {rides : Linked Change Ridden}
    {all : List Leg} (h : legs access egress rides = .ok all) :
    all.filter Leg.isRide =
      List.zipWith Ridden.asLeg (Change.boardingRules none rides) rides.toList := by
  obtain ⟨leg, hleg, h⟩ := bind_eq_ok_iff.1 h
  obtain ⟨behind, hbehind, h⟩ := bind_eq_ok_iff.1 h
  obtain ⟨start, finish, rfl, -, -⟩ := exists_of_accessLeg hleg
  rw [← pure_eq_ok_iff.1 h, List.filter_cons_of_neg (by simp [Leg.isRide, Leg.ride?]),
    filter_isRide_legsFrom hbehind]
  simp [Change.boardingRules, Linked.links, Linked.toList, Function.comp_def]

/-! ## Prices -/

theorem cost_of_mem_legsFrom {egress : StreetWalk} {rule : Option TransferRule} {r : Ridden}
    {rest : List (Change × Ridden)} {legs : List Leg} (h : legsFrom egress rule r rest = .ok legs) :
    ∀ leg ∈ legs, leg.cost = none := by
  induction rest generalizing rule r legs with
  | nil =>
    obtain ⟨last, hlast, rfl⟩ := exists_of_legsFrom_nil h
    obtain ⟨start, finish, rfl, -, -⟩ := exists_of_egressLeg hlast
    simp [Ridden.asLeg]
  | cons p rest ih =>
    obtain ⟨walk, behind, hwalk, hbehind, rfl⟩ := exists_of_legsFrom_cons h
    have hcost : ∀ leg ∈ walk, leg.cost = none := by
      rcases exists_of_transferLegs hwalk with ⟨-, rfl⟩ | ⟨d, start, finish, -, rfl, -, -⟩
      · simp
      · simp
    refine List.forall_mem_cons.2 ⟨rfl, fun leg hleg => ?_⟩
    rcases List.mem_append.1 hleg with hleg | hleg
    · exact hcost leg hleg
    · exact ih hbehind leg hleg

/-- Legs are placed without a price. -/
theorem cost_of_mem_legs {access egress : StreetWalk} {rides : Linked Change Ridden}
    {all : List Leg} (h : legs access egress rides = .ok all) : ∀ leg ∈ all, leg.cost = none := by
  obtain ⟨leg, hleg, h⟩ := bind_eq_ok_iff.1 h
  obtain ⟨behind, hbehind, h⟩ := bind_eq_ok_iff.1 h
  obtain ⟨start, finish, rfl, -, -⟩ := exists_of_accessLeg hleg
  rw [← pure_eq_ok_iff.1 h]
  exact List.forall_mem_cons.2 ⟨rfl, cost_of_mem_legsFrom hbehind⟩

end Placement

/-- Legs that run on from the origin become a journey unless they overlap. -/
theorem RunsOn.gives_journeyOfLegs {t : Time} {legs : List Leg}
    (h : RunsOn ordered .origin t legs) (tariff : Option Tariff) :
    Gives (MayFail ordered bounded) (fun _ => True)
      (Placement.inconsistent (Reconstruction.journeyOfLegs tariff legs)) := by
  have hofLegs {legs : List Leg} (h : RunsOn ordered .origin t legs) (cost : Option Cost) :
      Gives (MayFail ordered bounded) (fun _ => True)
        (Placement.inconsistent (Journey.ofLegs legs cost)) := by
    refine Gives.mapError ?_
    unfold Journey.ofLegs
    split
    · trivial
    · rename_i e hcheck
      exact h.gives_check.allows hcheck
  unfold Reconstruction.journeyOfLegs
  cases tariff with
  | none => exact hofLegs h none
  | some tariff =>
    simp only [Tariff.price_eq]
    exact hofLegs (h.priceLegs tariff true none) _

end Journeys
