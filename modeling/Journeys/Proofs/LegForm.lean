import Journeys.Format.Leg
import Journeys.Proofs.Journey
import Mathlib.Algebra.Group.Nat.Defs

/-!
# Proofs: legs and their JSON form

What is written of a leg is read back as the same leg, but for its spans: they are written in whole
seconds, so a fraction of a second is lost. There is one such fact for each part of a leg, from
numbers up to a list of legs. Nothing that a journey checks or reads off its legs looks at a span,
so legs that were read back make up a journey if the legs written did, with the same readings.

Positions are natural numbers, and the form only holds what fits 64 bits (`RideDetails.Fits`).
-/

namespace Journeys

/-! ## Whole seconds -/

namespace Span

theorem wholeSeconds_bounds (d : Span) :
    -9223372036854775 ≤ d.wholeSeconds ∧ d.wholeSeconds ≤ 9223372036854775 := by
  have hlower := d.lower
  have hupper := d.upper
  unfold wholeSeconds
  have hsign : (1000000000 : Int).sign = 1 := rfl
  rw [Int.tdiv_eq_ediv, hsign]
  split <;> omega

/-- The span without its fraction of a second. -/
def truncated (d : Span) : Span :=
  { nanos := d.wholeSeconds * 1000000000
    lower := by have := d.wholeSeconds_bounds; omega
    upper := by have := d.wholeSeconds_bounds; omega }

@[simp] theorem wholeSeconds_truncated (d : Span) : d.truncated.wholeSeconds = d.wholeSeconds :=
  Int.mul_tdiv_cancel _ (by decide)

theorem truncated_eq_self {d : Span} (h : 1000000000 ∣ d.nanos) : d.truncated = d := by
  apply Span.ext
  show d.nanos.tdiv 1000000000 * 1000000000 = d.nanos
  exact Int.tdiv_mul_cancel h

theorem ofSeconds?_wholeSeconds (d : Span) : ofSeconds? d.wholeSeconds = some d.truncated :=
  ofSeconds?_eq_some_iff.2 rfl

end Span

/-- The rule with its span in whole seconds. -/
def TransferRule.truncated : TransferRule → TransferRule
  | .minimumTime least => .minimumTime least.truncated
  | .exactTime exact => .exactTime exact.truncated
  | .forbidden => .forbidden

/-- The span that a rule names. -/
def TransferRule.span? : TransferRule → Option Span
  | .minimumTime least => some least
  | .exactTime exact => some exact
  | .forbidden => none

theorem TransferRule.truncated_eq_self {r : TransferRule}
    (h : ∀ d ∈ r.span?, 1000000000 ∣ d.nanos) : r.truncated = r := by
  cases r with
  | minimumTime least => exact congrArg minimumTime (Span.truncated_eq_self (h least rfl))
  | exactTime exact => exact congrArg exactTime (Span.truncated_eq_self (h exact rfl))
  | forbidden => rfl

namespace RideDetails

/-- The details with all spans in whole seconds. -/
def truncated (d : RideDetails) : RideDetails :=
  { d with
    boardSlack := d.boardSlack.truncated
    alightSlack := d.alightSlack.truncated
    rule := d.rule.map TransferRule.truncated }

/-- The spans that the details name. -/
def spans (d : RideDetails) : List Span :=
  d.boardSlack :: d.alightSlack :: (d.rule.bind TransferRule.span?).toList

theorem truncated_eq_self {d : RideDetails} (h : ∀ span ∈ d.spans, 1000000000 ∣ span.nanos) :
    d.truncated = d := by
  obtain ⟨tripId, trip, boardPos, alightPos, boardSlack, alightSlack, rule⟩ := d
  have hboard : boardSlack.truncated = boardSlack :=
    Span.truncated_eq_self (h _ (by simp [spans]))
  have halight : alightSlack.truncated = alightSlack :=
    Span.truncated_eq_self (h _ (by simp [spans]))
  have hrule : rule.map TransferRule.truncated = rule := by
    cases rule with
    | none => rfl
    | some r =>
      refine congrArg some (TransferRule.truncated_eq_self fun span hspan => h span ?_)
      simp only [spans, Option.bind_some, List.mem_cons, Option.mem_toList]
      exact .inr (.inr hspan)
  simp only [truncated, hboard, halight, hrule]

/-- The places in the timetable fit unsigned 64-bit numbers. -/
def Fits (d : RideDetails) : Prop :=
  d.trip.trip < 2 ^ 64 ∧ d.boardPos < 2 ^ 64 ∧ d.alightPos < 2 ^ 64

instance (d : RideDetails) : Decidable d.Fits := inferInstanceAs (Decidable (_ ∧ _))

end RideDetails

/-- The kind with all spans in whole seconds. -/
def LegKind.truncated : LegKind → LegKind
  | .access => .access
  | .ride details => .ride details.truncated
  | .transfer => .transfer
  | .egress => .egress

namespace Leg

/-- The leg with all spans in whole seconds. -/
def truncated (leg : Leg) : Leg := { leg with kind := leg.kind.truncated }

/-- A ride, if it is one, fits the form. -/
def Fits (leg : Leg) : Prop := ∀ ride ∈ leg.ride?, ride.Fits

instance (leg : Leg) : Decidable leg.Fits :=
  match h : leg.ride? with
  | none => isTrue (by simp [Fits, h])
  | some ride => decidable_of_iff ride.Fits (by simp [Fits, h])

/-- All spans of a leg are whole numbers of seconds. -/
def InWholeSeconds (leg : Leg) : Prop :=
  ∀ ride ∈ leg.ride?, ∀ span ∈ ride.spans, 1000000000 ∣ span.nanos

theorem truncated_eq_self {leg : Leg} (h : leg.InWholeSeconds) : leg.truncated = leg := by
  obtain ⟨kind, fromPlace, toPlace, start, finish, cost⟩ := leg
  cases kind with
  | ride ride =>
    have hride : ride.truncated = ride := RideDetails.truncated_eq_self (h ride rfl)
    simp only [truncated, LegKind.truncated, hride]
  | access => rfl
  | transfer => rfl
  | egress => rfl

theorem map_truncated_eq_self {legs : List Leg} (h : ∀ leg ∈ legs, leg.InWholeSeconds) :
    legs.map truncated = legs := by
  rw [List.map_congr_left fun leg hleg => truncated_eq_self (h leg hleg), List.map_id']

end Leg

/-! ## Reading back what was written -/

namespace Decoder

theorem int_integer {least greatest n : Int} (hleast : least ≤ n) (hgreatest : n ≤ greatest) :
    int least greatest (.integer n) = .ok n :=
  if_pos ⟨hleast, hgreatest⟩

theorem int64_integer {n : Int} (hleast : -9223372036854775808 ≤ n)
    (hgreatest : n ≤ 9223372036854775807) : int64 (.integer n) = .ok n :=
  int_integer hleast hgreatest

theorem nat64_ofNat {n : Nat} (h : n < 2 ^ 64) : nat64 (Format.ofNat n) = .ok n := by
  have hn : int 0 18446744073709551615 (.integer n) = .ok (n : Int) :=
    int_integer (by omega) (by omega)
  rw [nat64, Format.ofNat, hn]
  rfl

theorem nat32_ofNat (n : UInt32) : nat32 (Format.ofNat n.toNat) = .ok n := by
  have hlt := n.toNat_lt
  have hn : int 0 4294967295 (.integer n.toNat) = .ok (n.toNat : Int) :=
    int_integer (by omega) (by omega)
  rw [nat32, Format.ofNat, hn]
  show Except.ok (UInt32.ofNat n.toNat) = .ok n
  rw [UInt32.ofNat_toNat]

theorem optional_ofOption {α β : Type} {decode : Decoder β} {write : α → Json} {f : α → β}
    (hnull : ∀ a, write a ≠ .null) (hread : ∀ a, decode (write a) = .ok (f a)) (x : Option α) :
    optional decode (Format.ofOption write x) = .ok (x.map f) := by
  cases x with
  | none => rfl
  | some a =>
    show optional decode (write a) = .ok (some (f a))
    have hsome : optional decode (write a) = (decode (write a)).map some := by
      rw [optional]
      exact hnull a
    rw [hsome, hread a]
    rfl

theorem list_ofItems {α β : Type} {decode : Decoder β} {write : α → Json} {f : α → β}
    {as : List α} (h : ∀ a ∈ as, decode (write a) = .ok (f a)) :
    list decode (Json.ofItems (as.map write)) = .ok (as.map f) := by
  have hitems : (as.map write).mapM decode = .ok (as.map f) := by
    induction as with
    | nil => rfl
    | cons a as ih =>
      rw [List.forall_mem_cons] at h
      rw [List.map_cons, List.mapM_cons, h.1, ok_bind, ih h.2]
      rfl
  rw [Json.ofItems, list, hitems]
  rfl

/-- A record that is written as an object is read field by field. -/
theorem record_ofFields {δ : Type} (names : List String) (mayStop : Bool) (empty : δ)
    (set : FieldSetter δ) (fields : List (String × Json)) :
    record names mayStop empty set (Json.ofFields fields) =
      fields.foldlM (fun draft field => set draft field.1 field.2) empty := by
  have hfields : ∀ draft, setFields set draft
      (fields.map fun field => (some field.1, field.2)) =
        fields.foldlM (fun draft field => set draft field.1 field.2) draft := by
    induction fields with
    | nil => exact fun _ => rfl
    | cons field fields ih =>
      intro draft
      rw [List.map_cons, setFields, List.foldlM_cons]
      exact congrArg _ (funext ih)
  show (setFields set empty (fields.map fun field => (some field.1, field.2)) >>= pure) = _
  rw [bind_pure, hfields]

theorem once_none {α : Type} {decode : Decoder α} {v : Json} {a : α} (h : decode v = .ok a) :
    once none decode v = .ok (some a) := by
  rw [once, h]
  rfl

end Decoder

namespace Format

theorem time_ofTime (t : Time) : time (ofTime t) = .ok t := by
  have hlower := t.lower
  have hupper := t.upper
  rw [time, ofTime, Decoder.int64_integer (by omega) (by omega), ok_bind,
    Time.ofSeconds?_eq_some_iff.2 rfl]
  rfl

/-- Writing a span and reading it back loses the fraction of a second, and is never refused. -/
theorem span_ofSpan (d : Span) : span (ofSpan d) = .ok d.truncated := by
  obtain ⟨hlower, hupper⟩ := d.wholeSeconds_bounds
  rw [span, ofSpan, Decoder.int64_integer (by omega) (by omega), ok_bind,
    Span.ofSeconds?_wholeSeconds]

theorem ofSpan_truncated (d : Span) : ofSpan d.truncated = ofSpan d := by
  rw [ofSpan, ofSpan, Span.wholeSeconds_truncated]

theorem cost_ofCost (c : Cost) : cost (ofCost c) = .ok c := by
  have hle := c.le_max
  rw [cost, ofCost, Decoder.nat64_ofNat (by omega)]
  refine congrArg Except.ok (Cost.ext ?_)
  rw [Cost.value_ofNat]
  omega

theorem stop_ofStop (s : Stop) : stop (ofStop s) = .ok s := by
  rw [stop, ofStop, Decoder.nat32_ofNat]
  rfl

theorem patternId_ofPatternId (p : PatternId) : patternId (ofPatternId p) = .ok p := by
  rw [patternId, ofPatternId, Decoder.nat32_ofNat]
  rfl

theorem tripId_ofTripId (id : TripId) : tripId (ofTripId id) = .ok id := rfl

theorem place_ofPlace (p : Place) : place (ofPlace p) = .ok p := by
  cases p with
  | origin => rfl
  | destination => rfl
  | stop s =>
    show ((stop (ofStop s)).map Place.stop >>= pure) = _
    rw [bind_pure, stop_ofStop]
    rfl

theorem rule_ofRule (r : TransferRule) : rule (ofRule r) = .ok r.truncated := by
  cases r with
  | forbidden => rfl
  | minimumTime least =>
    show ((span (ofSpan least)).map TransferRule.minimumTime >>= pure) = _
    rw [bind_pure, span_ofSpan]
    rfl
  | exactTime exact =>
    show ((span (ofSpan exact)).map TransferRule.exactTime >>= pure) = _
    rw [bind_pure, span_ofSpan]
    rfl

theorem ofRule_truncated (r : TransferRule) : ofRule r.truncated = ofRule r := by
  cases r with
  | forbidden => rfl
  | minimumTime least => simp only [TransferRule.truncated, ofRule, ofSpan_truncated]
  | exactTime exact => simp only [TransferRule.truncated, ofRule, ofSpan_truncated]

theorem ofRule_ne_null (r : TransferRule) : ofRule r ≠ .null := by
  cases r <;> exact nofun

theorem tripSlot_ofTripSlot {slot : TripSlot} (h : slot.trip < 2 ^ 64) :
    tripSlot (ofTripSlot slot) = .ok slot := by
  rw [tripSlot, ofTripSlot, Decoder.record_ofFields]
  simp only [List.foldlM_cons, List.foldlM_nil, TripSlotDraft.set, ok_bind, pure_bind,
    Decoder.once_none (patternId_ofPatternId slot.pattern),
    Decoder.once_none (Decoder.nat64_ofNat h)]
  rfl

theorem details_ofDetails {d : RideDetails} (h : d.Fits) :
    details (ofDetails d) = .ok d.truncated := by
  obtain ⟨htrip, hboard, halight⟩ := h
  have hrule := Decoder.optional_ofOption ofRule_ne_null rule_ofRule d.rule
  rw [details, ofDetails, Decoder.record_ofFields]
  simp only [List.foldlM_cons, List.foldlM_nil, DetailsDraft.set, ok_bind, pure_bind,
    Decoder.once_none (tripId_ofTripId d.tripId), Decoder.once_none (tripSlot_ofTripSlot htrip),
    Decoder.once_none (Decoder.nat64_ofNat hboard), Decoder.once_none (Decoder.nat64_ofNat halight),
    Decoder.once_none (span_ofSpan _), Decoder.once_none hrule]
  rfl

theorem ofDetails_truncated (d : RideDetails) : ofDetails d.truncated = ofDetails d := by
  have hrule : ofOption ofRule (d.rule.map TransferRule.truncated) = ofOption ofRule d.rule := by
    cases d.rule with
    | none => rfl
    | some r => exact ofRule_truncated r
  simp only [ofDetails, RideDetails.truncated, ofSpan_truncated, hrule]

theorem kind_ofKind {kind : LegKind} (h : ∀ ride, kind = .ride ride → ride.Fits) :
    Format.kind (ofKind kind) = .ok kind.truncated := by
  cases kind with
  | access => rfl
  | transfer => rfl
  | egress => rfl
  | ride ride =>
    show ((details (ofDetails ride)).map LegKind.ride >>= pure) = _
    rw [bind_pure, details_ofDetails (h ride rfl)]
    rfl

theorem ofKind_truncated (kind : LegKind) : ofKind kind.truncated = ofKind kind := by
  cases kind with
  | access => rfl
  | transfer => rfl
  | egress => rfl
  | ride ride => simp only [LegKind.truncated, ofKind, ofDetails_truncated]

theorem leg_ofLeg {leg : Leg} (h : leg.Fits) : Format.leg (ofLeg leg) = .ok leg.truncated := by
  have hkind : Format.kind (ofKind leg.kind) = .ok leg.kind.truncated :=
    kind_ofKind fun ride hride => h ride (by simp only [Leg.ride?, hride, Option.mem_def])
  have hcost : Decoder.optional cost (ofOption ofCost leg.cost) = .ok leg.cost := by
    have hnull : ∀ c, ofCost c ≠ .null := fun _ => nofun
    rw [Decoder.optional_ofOption hnull cost_ofCost, Option.map_id']
  rw [Format.leg, ofLeg, Decoder.record_ofFields]
  simp only [List.foldlM_cons, List.foldlM_nil, LegDraft.set, ok_bind, pure_bind,
    Decoder.once_none hkind, Decoder.once_none (place_ofPlace _),
    Decoder.once_none (time_ofTime _), Decoder.once_none hcost]
  rfl

theorem ofLeg_truncated (leg : Leg) : ofLeg leg.truncated = ofLeg leg := by
  simp only [ofLeg, Leg.truncated, ofKind_truncated]

theorem legs_ofLegs {legs : List Leg} (h : ∀ leg ∈ legs, leg.Fits) :
    Format.legs (ofLegs legs) = .ok (legs.map Leg.truncated) :=
  Decoder.list_ofItems fun leg hleg => leg_ofLeg (h leg hleg)

theorem ofLegs_map_truncated (legs : List Leg) :
    ofLegs (legs.map Leg.truncated) = ofLegs legs := by
  rw [ofLegs, ofLegs, List.map_map]
  exact congrArg Json.ofItems (List.map_congr_left fun leg _ => ofLeg_truncated leg)

end Format

/-! ## The journey of the legs read back -/

namespace Leg

theorem check_truncated (leg : Leg) : leg.truncated.check = leg.check := by
  obtain ⟨kind, fromPlace, toPlace, start, finish, cost⟩ := leg
  cases kind with
  | access => rfl
  | transfer => rfl
  | egress => rfl
  | ride ride => cases fromPlace <;> cases toPlace <;> rfl

theorem forM_check_map_truncated (legs : List Leg) :
    (legs.map truncated).forM check = legs.forM check := by
  induction legs with
  | nil => rfl
  | cons leg legs ih =>
    show (leg.truncated.check >>= fun _ => (legs.map truncated).forM check) =
      (leg.check >>= fun _ => legs.forM check)
    rw [check_truncated, ih]

end Leg

namespace Journey

theorem boardingOf?_truncated (leg : Leg) : boardingOf? leg.truncated = boardingOf? leg := by
  obtain ⟨kind, fromPlace, toPlace, start, finish, cost⟩ := leg
  cases kind <;> rfl

theorem checkLinks_map_truncated (legs : List Leg) :
    checkLinks (legs.map Leg.truncated) = checkLinks legs := by
  induction legs with
  | nil => rfl
  | cons a legs ih =>
    cases legs with
    | nil => rfl
    | cons b rest =>
      rw [List.map_cons, List.map_cons, checkLinks, checkLinks, ← List.map_cons, ih]
      rfl

/-- Spans are not looked at when legs are checked. -/
theorem check_map_truncated (legs : List Leg) :
    check (legs.map Leg.truncated) = check legs := by
  cases legs with
  | nil => rfl
  | cons first rest =>
    have hlast : (first.truncated :: rest.map Leg.truncated).getLast (List.cons_ne_nil _ _) =
        ((first :: rest).getLast (List.cons_ne_nil _ _)).truncated :=
      List.getLast_map (l := first :: rest) (List.cons_ne_nil _ _)
    have hforM := Leg.forM_check_map_truncated (first :: rest)
    have hlinks := checkLinks_map_truncated (first :: rest)
    simp only [List.map_cons] at hforM hlinks
    simp only [check, List.map_cons, hlast, hforM, hlinks]
    rfl

/-- The journey with all spans in whole seconds, without the iteration that found it. -/
def truncated (j : Journey) : Journey :=
  { legs := j.legs.map Leg.truncated
    cost := j.cost
    iteration := none
    checked := (check_map_truncated j.legs).trans j.checked }

/-- Two journeys that cannot be told apart by what is read off them, their legs aside. -/
structure SameReadings (j j' : Journey) : Prop where
  startTime : j'.startTime = j.startTime
  endTime : j'.endTime = j.endTime
  duration : j'.duration = j.duration
  waiting : j'.waiting? = j.waiting?
  rideCount : j'.rideCount = j.rideCount
  boardings : j'.boardings = j.boardings
  firstStop : j'.firstStop? = j.firstStop?
  lastStop : j'.lastStop? = j.lastStop?
  cost : j'.cost = j.cost

theorem sameReadings_truncated (j : Journey) : SameReadings j j.truncated := by
  have hfirst : j.truncated.first = j.first.truncated := List.head_map j.truncated.legs_ne_nil
  have hlast : j.truncated.last = j.last.truncated := List.getLast_map j.truncated.legs_ne_nil
  have hstart : j.truncated.startTime = j.startTime := by
    rw [startTime, hfirst]
    rfl
  have hend : j.truncated.endTime = j.endTime := by
    rw [endTime, hlast]
    rfl
  have hduration : j.truncated.duration = j.duration := by
    rw [duration, hstart, hend]
    rfl
  have hmoving : j.truncated.legs.map Leg.duration = j.legs.map Leg.duration := List.map_map
  have hboardings : j.truncated.boardings = j.boardings := by
    show (j.legs.map Leg.truncated).filterMap boardingOf? = j.legs.filterMap boardingOf?
    rw [List.filterMap_map]
    exact congrArg (List.filterMap · j.legs) (funext boardingOf?_truncated)
  refine ⟨hstart, hend, hduration, ?_, ?_, hboardings, ?_, ?_, rfl⟩
  · rw [waiting?, hmoving, hduration]
    rfl
  · rw [rideCount, hboardings]
    rfl
  · rw [firstStop?, hfirst]
    rfl
  · rw [lastStop?, hlast]
    rfl

/-- The legs of a journey are read back from their JSON form with every span in whole seconds, and
make up a journey again, which reads as the one that was written and is written the same way. -/
theorem legs_roundTrip (j : Journey) (hfits : ∀ leg ∈ j.legs, leg.Fits) :
    ∃ legs, Format.legs (Format.ofLegs j.legs) = .ok legs ∧
      legs = j.legs.map Leg.truncated ∧
      ((∀ leg ∈ j.legs, leg.InWholeSeconds) → legs = j.legs) ∧
      (∃ j', ofLegs legs j.cost = .ok j' ∧ SameReadings j j') ∧
      Format.ofLegs legs = Format.ofLegs j.legs := by
  refine ⟨j.legs.map Leg.truncated, Format.legs_ofLegs hfits, rfl, Leg.map_truncated_eq_self,
    ⟨j.truncated, ?_, j.sameReadings_truncated⟩, Format.ofLegs_map_truncated j.legs⟩
  exact ofLegs_eq_ok_iff.2 ⟨rfl, rfl, rfl⟩

end Journey

/-- A ride between two walks, boarded with a slack of a minute and a half second under a rule. -/
def hurriedRide : RideDetails where
  tripId := ⟨"late"⟩
  trip := { pattern := ⟨1⟩, trip := 3 }
  boardPos := 0
  alightPos := 2
  boardSlack := { nanos := 60500 * 1000000 }
  alightSlack := { nanos := -1500 * 1000000 }
  rule := some (.minimumTime { nanos := 90250 * 1000000 })

/-- A journey on it. -/
def hurriedJourney : Journey where
  legs := [
    { kind := .access, fromPlace := .origin, toPlace := .stop ⟨1⟩,
      start := .midnight, finish := { seconds := 60 }, cost := none },
    { kind := .ride hurriedRide, fromPlace := .stop ⟨1⟩, toPlace := .stop ⟨2⟩,
      start := { seconds := 150 }, finish := { seconds := 600 }, cost := some { value := 7 } },
    { kind := .egress, fromPlace := .stop ⟨2⟩, toPlace := .destination,
      start := { seconds := 600 }, finish := { seconds := 660 }, cost := none }]
  cost := some { value := 7 }
  iteration := none
  checked := rfl

theorem legs_roundTrip_hurriedJourney :
    (∀ leg ∈ hurriedJourney.legs, leg.Fits) ∧
    hurriedJourney.legs.map Leg.truncated ≠ hurriedJourney.legs ∧
    ∃ legs, Format.legs (Format.ofLegs hurriedJourney.legs) = .ok legs ∧
      legs = hurriedJourney.legs.map Leg.truncated ∧
      (∃ j', Journey.ofLegs legs hurriedJourney.cost = .ok j' ∧
        Journey.SameReadings hurriedJourney j') ∧
      Format.ofLegs legs = Format.ofLegs hurriedJourney.legs := by
  have hfits : ∀ leg ∈ hurriedJourney.legs, leg.Fits := by decide
  obtain ⟨legs, hread, hlegs, -, hjourney, hform⟩ := Journey.legs_roundTrip hurriedJourney hfits
  exact ⟨hfits, by decide, legs, hread, hlegs, hjourney, hform⟩

end Journeys
