import Journeys.Proofs.TransferRules

/-!
# Proofs: rules that a journey does not depend on

A search holds every candidate against the rules, not only the trips that it takes, and each trip
that it takes decides what the next candidates are held against. All the same, whatever it asks is
about a ride whose trip it has settled: going forward that is where the transfer starts, going back
where it ends. Rules that agree on the transfers beside the rides of the journey
(`Journey.AgreeBeside`) are answered alike from ride to ride, so they lead to the same journey
(`Reconstruction.journey_withRules`).
-/

namespace Journeys

/-- The one of two rides that follow each other which a search in this direction settles first. -/
def Direction.settledFirst (direction : Direction) (a b : Ridden) : Ridden :=
  match direction with
  | .forward => a
  | .reverse => b

/-- Two sets of rules agree on all transfers from a ride (forward), or to it (reverse). -/
def TransferRules.AgreeAt (rules rules' : TransferRules) (direction : Direction) (r : Ridden) :
    Prop :=
  match direction with
  | .forward => ∀ b, rules.find? (Ridden.alightEnd r.ride r.tripId) b =
      rules'.find? (Ridden.alightEnd r.ride r.tripId) b
  | .reverse => ∀ a, rules.find? a (Ridden.boardEnd r.ride r.tripId) =
      rules'.find? a (Ridden.boardEnd r.ride r.tripId)

/-- Along rides, two sets of rules agree beside the ride of each change that is settled first. -/
def TransferRules.AgreeAlong (rules rules' : TransferRules) (direction : Direction)
    (rides : Linked (Option Span) Ridden) : Prop :=
  Linked.Chained (fun a _ b => rules.AgreeAt rules' direction (direction.settledFirst a b))
    rides.first rides.rest

variable {rules rules' : TransferRules}

/-- Rules that agree at the ride that is settled first have the same rule for the change. -/
theorem TransferRules.AgreeAt.ruleBetween?_eq {direction : Direction} {a b : Ridden}
    (h : rules.AgreeAt rules' direction (direction.settledFirst a b)) :
    Ridden.ruleBetween? rules a b = Ridden.ruleBetween? rules' a b := by
  cases direction with
  | forward => exact h _
  | reverse => exact h _

/-! ## The trip of one ride -/

namespace TripSearch

variable {s : TripSearch}

/-- The same search among other rules. -/
def withRules (s : TripSearch) (rules : TransferRules) : TripSearch := { s with rules }

theorem requirement_withRules
    (h : ∀ n, s.neighbour = some n → s.rules.AgreeAt rules s.direction n.ridden) (trip : Trip) :
    (s.withRules rules).requirement trip = s.requirement trip := by
  obtain ⟨direction, own, anchor, ride, neighbour⟩ := s
  cases neighbour with
  | none =>
    cases direction with
    | forward => rfl
    | reverse => rfl
  | some n =>
    have hagree := h n rfl
    cases direction with
    | forward =>
      have hrule : own.find? (Ridden.alightEnd n.ridden.ride n.ridden.tripId)
          (Ridden.boardEnd ride trip.id) = rules.find? _ _ := hagree (Ridden.boardEnd ride trip.id)
      simp only [requirement, withRules, hrule]
    | reverse =>
      have hrule : own.find? (Ridden.alightEnd ride trip.id)
          (Ridden.boardEnd n.ridden.ride n.ridden.tripId) = rules.find? _ _ :=
        hagree (Ridden.alightEnd ride trip.id)
      simp only [requirement, withRules, hrule]

/-- A scan looks at rules only to see what it asks of a candidate. -/
theorem scan_withRules (h : ∀ trip, (s.withRules rules).requirement trip = s.requirement trip)
    (candidates : List (Trip × Nat)) (skipped : Option ReconstructionError) :
    (s.withRules rules).scan candidates skipped = s.scan candidates skipped := by
  induction candidates generalizing skipped with
  | nil => rfl
  | cons c candidates ih =>
    obtain ⟨trip, index⟩ := c
    rw [scan, scan, h]
    simp only [ih]
    rfl

end TripSearch

/-! ## All rides -/

namespace TripChoice

variable {c : TripChoice}

/-- The same choice among other rules. -/
def withRules (c : TripChoice) (rules : TransferRules) : TripChoice := { c with rules }

theorem choose_withRules (ride : RecordedRide) {neighbour : Option Neighbour}
    (h : ∀ n, neighbour = some n → c.rules.AgreeAt rules c.direction n.ridden) :
    (c.withRules rules).choose ride neighbour = c.choose ride neighbour := by
  unfold choose
  have happroximate : (c.withRules rules).approximate = c.approximate := rfl
  rw [happroximate]
  split
  · rfl
  · let s : TripSearch := ⟨c.direction, c.rules, c.anchor, ride, neighbour⟩
    have hasks (trip : Trip) : (s.withRules rules).requirement trip = s.requirement trip :=
      TripSearch.requirement_withRules h trip
    exact TripSearch.scan_withRules hasks s.candidates none

/-- Going from ride to ride, rules that agree beside each of them choose the same trips. -/
theorem Chosen.withRules {rides : Linked (Option Span) Ridden} (h : c.Chosen rides)
    (hagree : c.rules.AgreeAlong rules c.direction rides) : (c.withRules rules).Chosen rides := by
  refine ⟨?_, (h.beside.and hagree).imp ?_⟩
  · have halone : (c.withRules rules).choose (c.outer rides).ride none =
        c.choose (c.outer rides).ride none := choose_withRules _ fun _ hn => nomatch hn
    exact halone.trans h.alone
  · rintro a walk b ⟨hbeside, hab⟩
    unfold Beside at hbeside ⊢
    have hdirection : (c.withRules rules).direction = c.direction := rfl
    rw [hdirection]
    -- the neighbour of the ride that is chosen is the one that was settled before it
    cases hc : c.direction with
    | forward =>
      rw [hc] at hbeside hab
      refine (choose_withRules b.ride fun n hn => ?_).trans hbeside
      rw [← Option.some.inj hn, hc]
      exact hab
    | reverse =>
      rw [hc] at hbeside hab
      refine (choose_withRules a.ride fun n hn => ?_).trans hbeside
      rw [← Option.some.inj hn, hc]
      exact hab

end TripChoice

namespace Change

theorem settled_congr {a : Ridden} {rest : List (Option Span × Ridden)}
    (h : Linked.Chained (fun x _ y =>
      Ridden.ruleBetween? rules x y = Ridden.ruleBetween? rules' x y) a rest)
    (before : Option TransferRule) :
    settled rules before a rest = settled rules' before a rest := by
  induction rest generalizing before a with
  | nil => rfl
  | cons p rest ih =>
    obtain ⟨walk, b⟩ := p
    obtain ⟨hab, hrest⟩ := h
    rw [settled, settled, hab, ih hrest]

/-- Rides are settled alike under rules that are the same for every change. -/
theorem ofRides_congr {rides : Linked (Option Span) Ridden} {s : Linked Change Ridden}
    (h : Linked.Chained (fun x _ y =>
      Ridden.ruleBetween? rules x y = Ridden.ruleBetween? rules' x y) rides.first rides.rest)
    (hs : ofRides rules rides = .ok s) : ofRides rules' rides = .ok s := by
  obtain ⟨rfl, hallowed, hholds⟩ := ofRides_eq_ok_iff.1 hs
  refine ofRides_eq_ok_iff.2 ⟨settled_congr h none, (h.and hallowed).imp ?_, hholds⟩
  rintro x _ y ⟨hrule, hxy⟩
  rw [Allowed, ← hrule]
  exact hxy

end Change

/-! ## The whole -/

/-- Two sets of rules agree on all transfers from a ride of the journey other than the last
(forward), or to one other than the first (reverse). -/
def Journey.AgreeBeside (j : Journey) (direction : Direction) (rules rules' : TransferRules) :
    Prop :=
  match direction with
  | .forward => ∀ leg ∈ j.rideLegs.dropLast, ∀ alighted, leg.alightEnd? = some alighted →
      ∀ b, rules.find? alighted b = rules'.find? alighted b
  | .reverse => ∀ leg ∈ j.rideLegs.tail, ∀ boarded, leg.boardEnd? = some boarded →
      ∀ a, rules.find? a boarded = rules'.find? a boarded

namespace Reconstruction

variable {c : Reconstruction} {table : Arrivals} {arrival : FinalArrival}
  {recorded : RecordedJourney} {ridden : Linked (Option Span) Ridden}
  {settled : Linked Change Ridden} {j : Journey}

/-- The same reconstruction among other rules. -/
def withRules (c : Reconstruction) (rules : TransferRules) : Reconstruction := { c with rules }

theorem Steps.withRules (h : c.Steps table arrival recorded ridden settled)
    (hagree : c.rules.AgreeAlong rules c.direction ridden) :
    (c.withRules rules).Steps table arrival recorded ridden settled := by
  obtain ⟨hrides, hchosen⟩ := TripChoice.chooseAll_eq_ok_iff.1 h.chosen
  refine ⟨h.found, ?_, ?_⟩
  · exact TripChoice.chooseAll_eq_ok_iff.2 ⟨hrides, hchosen.withRules hagree⟩
  · exact Change.ofRides_congr (hagree.imp fun _ _ _ hab => hab.ruleBetween?_eq) h.settles

/-- Place by place, the ends of a ride leg are those of the ride that was chosen. -/
theorem LegsOf.exists_ends (hlegs : LegsOf settled j)
    (h : c.Steps table arrival recorded ridden settled) {i : Nat} {r : Ridden}
    (hr : ridden.toList[i]? = some r) :
    ∃ leg, j.rideLegs[i]? = some leg ∧
      leg.alightEnd? = some (Ridden.alightEnd r.ride r.tripId) ∧
      leg.boardEnd? = some (Ridden.boardEnd r.ride r.tripId) := by
  obtain ⟨rfl, -, -⟩ := Change.ofRides_eq_ok_iff.1 h.settles
  have hlinks := congrArg List.length h.links
  have hlength := hlegs.length_rideLegs
  rw [List.length_map, ← h.assigns.links] at hlinks
  rw [← Linked.length_links, hlinks, Linked.length_links, ← Linked.length_toList] at hlength
  obtain ⟨hi, -⟩ := List.getElem?_eq_some_iff.1 hr
  rw [← hlength] at hi
  have hleg := List.getElem?_eq_getElem hi
  obtain ⟨rule, x, -, hx, hrides⟩ := hlegs.exists_rides hleg
  obtain ⟨x', hx', rfl⟩ := Change.getElem?_settled hx
  obtain rfl : x' = r := Option.some.inj (hx'.symm.trans hr)
  obtain ⟨hride, hfrom, hto, -, -⟩ := hrides.parts
  refine ⟨_, hleg, ?_, ?_⟩
  · rw [Leg.alightEnd?, hride, hto]
    rfl
  · rw [Leg.boardEnd?, hride, hfrom]
    rfl

/-- Rules that agree beside the legs of a journey agree along the rides behind it. -/
theorem LegsOf.agreeAlong (hlegs : LegsOf settled j)
    (h : c.Steps table arrival recorded ridden settled) {direction : Direction}
    (hagree : j.AgreeBeside direction rules rules') : rules.AgreeAlong rules' direction ridden := by
  refine Linked.Chained.of_getElem? fun i x _ y hx _ hy => ?_
  obtain ⟨a, ha, halight, -⟩ := hlegs.exists_ends h hx
  obtain ⟨b, hb, -, hboard⟩ := hlegs.exists_ends h hy
  cases direction with
  | forward =>
    refine hagree a ?_ _ halight
    obtain ⟨hi, -⟩ := List.getElem?_eq_some_iff.1 hb
    refine List.mem_of_getElem? (i := i) ?_
    rw [List.getElem?_dropLast, if_pos (by omega)]
    exact ha
  | reverse =>
    refine hagree b ?_ _ hboard
    rw [← List.getElem?_tail] at hb
    exact List.mem_of_getElem? hb

/-- A journey only depends on the rules beside its rides: from those that are left for another one
in a forward search, to those that another one is left for in a reverse one. -/
theorem journey_withRules (h : c.journey table arrival = .ok j)
    (hagree : j.AgreeBeside c.direction c.rules rules) :
    (c.withRules rules).journey table arrival = .ok j := by
  obtain ⟨recorded, ridden, settled, hsteps, hlegs⟩ := exists_legsOf_of_journey h
  have hrides := rides_eq_ok_iff.2 ⟨ridden, hsteps⟩
  have hrides' := rides_eq_ok_iff.2 ⟨ridden, hsteps.withRules (hlegs.agreeAlong hsteps hagree)⟩
  rw [journey, unusable_eq_ok_iff.2 hrides] at h
  rw [journey, unusable_eq_ok_iff.2 hrides']
  exact h

end Reconstruction

/-! ## One more rule in a book -/

theorem RuleBook.find?_insert_of_ne (book : RuleBook) {key : RuleKey} (rule : TransferRule)
    {a b : TransferEnd} (h : RuleKey.between a b ≠ key) :
    (book.insert key rule).rules.find? a b = book.rules.find? a b :=
  book.get?_insert_of_ne rule h

theorem Leg.exists_of_alightEnd? {leg : Leg} {e : TransferEnd} (h : leg.alightEnd? = some e) :
    ∃ ride, leg.ride? = some ride ∧ leg.toPlace = .stop e.stop ∧ e.trip = ride.tripId := by
  obtain ⟨ride, hride, hplace⟩ := Option.bind_eq_some_iff.1 h
  obtain ⟨stop, hstop, hends⟩ := Option.bind_eq_some_iff.1 hplace
  obtain rfl := Option.some.inj hends
  exact ⟨ride, hride, Place.stop?_eq_some_iff.1 hstop, rfl⟩

theorem Leg.exists_of_boardEnd? {leg : Leg} {e : TransferEnd} (h : leg.boardEnd? = some e) :
    ∃ ride, leg.ride? = some ride ∧ leg.fromPlace = .stop e.stop ∧ e.trip = ride.tripId := by
  obtain ⟨ride, hride, hplace⟩ := Option.bind_eq_some_iff.1 h
  obtain ⟨stop, hstop, hends⟩ := Option.bind_eq_some_iff.1 hplace
  obtain rfl := Option.some.inj hends
  exact ⟨ride, hride, Place.stop?_eq_some_iff.1 hstop, rfl⟩

/-- No ride of the journey other than the last is on the trip that a rule is about and left at its
stop (forward), or none other than the first is on its trip and boarded at its stop (reverse). -/
def Journey.Untouched (j : Journey) (direction : Direction) (key : RuleKey) : Prop :=
  match direction with
  | .forward => ∀ leg ∈ j.rideLegs.dropLast,
      ¬(leg.ride?.map RideDetails.tripId = some key.fromTrip ∧ leg.toPlace = .stop key.fromStop)
  | .reverse => ∀ leg ∈ j.rideLegs.tail,
      ¬(leg.ride?.map RideDetails.tripId = some key.toTrip ∧ leg.fromPlace = .stop key.toStop)

instance (j : Journey) (direction : Direction) (key : RuleKey) :
    Decidable (j.Untouched direction key) :=
  match direction with
  | .forward => inferInstanceAs (Decidable (∀ leg ∈ j.rideLegs.dropLast, _))
  | .reverse => inferInstanceAs (Decidable (∀ leg ∈ j.rideLegs.tail, _))

theorem Journey.Untouched.agreeBeside {j : Journey} {direction : Direction} {key : RuleKey}
    (h : j.Untouched direction key) (book : RuleBook) (rule : TransferRule) :
    j.AgreeBeside direction book.rules (book.insert key rule).rules := by
  cases direction with
  | forward =>
    intro leg hleg alighted halighted b
    refine (book.find?_insert_of_ne rule fun hkey => h leg hleg ?_).symm
    obtain ⟨ride, hride, hplace, htrip⟩ := Leg.exists_of_alightEnd? halighted
    rw [hride, hplace, ← hkey, Option.map_some, ← htrip]
    exact ⟨rfl, rfl⟩
  | reverse =>
    intro leg hleg boarded hboarded a
    refine (book.find?_insert_of_ne rule fun hkey => h leg hleg ?_).symm
    obtain ⟨ride, hride, hplace, htrip⟩ := Leg.exists_of_boardEnd? hboarded
    rw [hride, hplace, ← hkey, Option.map_some, ← htrip]
    exact ⟨rfl, rfl⟩

namespace Reconstruction

variable {c : Reconstruction} {table : Arrivals} {arrival : FinalArrival} {j : Journey}

/-- A journey stays the same when a rule is added to the book, or put in place of another, that is
about none of the rides which the search asks from. -/
theorem journey_insert_of_untouched {book : RuleBook} {key : RuleKey} (rule : TransferRule)
    (h : (c.withRules book.rules).journey table arrival = .ok j)
    (huntouched : j.Untouched c.direction key) :
    (c.withRules (book.insert key rule).rules).journey table arrival = .ok j :=
  journey_withRules (c := c.withRules book.rules) h (huntouched.agreeBeside book rule)

/-- The journey that boards the late connection under its rule leaves the feeder, not the early
connection. So it does not matter that the transfer from that one is forbidden. -/
theorem journey_insert_of_untouched_early :
    let book := RuleBook.ofList [(⟨⟨"feeder"⟩, ⟨2⟩, ⟨"late"⟩, ⟨2⟩⟩, .minimumTime minute)]
    let key : RuleKey := ⟨⟨"early"⟩, ⟨2⟩, ⟨"late"⟩, ⟨2⟩⟩
    ∃ j, (feederSearch book.rules false).journey feederTable feederArrival = .ok j ∧
      j.ruleAt 1 = some (.minimumTime minute) ∧ j.Untouched .forward key ∧
      (feederSearch (book.insert key .forbidden).rules false).journey feederTable feederArrival =
        .ok j := by
  intro book key
  have hfound : (fun j : Journey => (j.ruleAt 1, decide (j.Untouched .forward key))) <$>
      (feederSearch book.rules false).journey feederTable feederArrival =
      .ok (some (.minimumTime minute), true) := rfl
  obtain ⟨j, hj, hparts⟩ := map_eq_ok_iff.1 hfound
  obtain ⟨hrule, huntouched⟩ := Prod.mk.inj hparts
  have huntouched := of_decide_eq_true huntouched
  exact ⟨j, hj, hrule, huntouched,
    journey_insert_of_untouched (c := feederSearch book.rules false) .forbidden hj huntouched⟩

end Reconstruction

end Journeys
