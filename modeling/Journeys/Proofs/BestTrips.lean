import Journeys.Proofs.Reconstruction
import Mathlib.Data.List.Forall2

/-!
# Proofs: the best trips

Each ride takes the first trip that it can, and nothing is ever taken back. Where no transfer rule
applies and no trip overtakes another, this loses nothing: a ride that ends earlier leaves open
whatever a later one would have left open (`Ridden.KeepsGap.mono`), and among the trips that can be
ridden the first one ends earliest (`TripSearch.exists_run`). From ride to ride, the trips found
stay ahead of any others that fit. Going back from the destination it is the same with the last
departures.
-/

namespace Journeys

/-- One call is no later than another. -/
def Call.NoLater (c d : Call) : Prop := c.arrival ≤ d.arrival ∧ c.departure ≤ d.departure

instance (c d : Call) : Decidable (c.NoLater d) := inferInstanceAs (Decidable (_ ∧ _))

/-- No trip of a pattern overtakes another: along the list of trips, no arrival and no departure at
a position gets earlier. -/
def Pattern.InOrder (p : Pattern) : Prop :=
  p.trips.Pairwise fun t u => List.Forall₂ Call.NoLater t.calls u.calls

instance (p : Pattern) : Decidable p.InOrder :=
  inferInstanceAs
    (Decidable (p.trips.Pairwise fun t u => List.Forall₂ Call.NoLater t.calls u.calls))

/-- Calls that are no later as a list are no later position by position. -/
theorem Call.NoLater.of_getElem? {calls calls' : List Call}
    (h : List.Forall₂ NoLater calls calls') {i : Nat} {c d : Call} (hc : calls[i]? = some c)
    (hd : calls'[i]? = some d) : c.NoLater d := by
  obtain ⟨hi, rfl⟩ := List.getElem?_eq_some_iff.1 hc
  obtain ⟨hi', rfl⟩ := List.getElem?_eq_some_iff.1 hd
  exact h.get hi hi'

theorem Trip.arrival?_le {t u : Trip} (h : List.Forall₂ Call.NoLater t.calls u.calls) {i : Nat}
    {a b : Time} (ha : t.arrival? i = some a) (hb : u.arrival? i = some b) : a ≤ b := by
  simp only [arrival?, Option.map_eq_some_iff] at ha hb
  obtain ⟨c, hc, rfl⟩ := ha
  obtain ⟨d, hd, rfl⟩ := hb
  exact (Call.NoLater.of_getElem? h hc hd).1

theorem Trip.departure?_le {t u : Trip} (h : List.Forall₂ Call.NoLater t.calls u.calls) {i : Nat}
    {a b : Time} (ha : t.departure? i = some a) (hb : u.departure? i = some b) : a ≤ b := by
  simp only [departure?, Option.map_eq_some_iff] at ha hb
  obtain ⟨c, hc, rfl⟩ := ha
  obtain ⟨d, hd, rfl⟩ := hb
  exact (Call.NoLater.of_getElem? h hc hd).2

/-- No trip of a network overtakes another. -/
def Network.InOrder (network : Network) : Prop :=
  ∀ id pattern, network.pattern? id = some pattern → pattern.InOrder

/-- Of two choices for a ride, one is at least as good for the rides to come: it is left no later
(forward) or boarded no earlier (reverse). -/
def Ridden.AsGoodAs (direction : Direction) (r r' : Ridden) : Prop :=
  match direction with
  | .forward => r.alightTime ≤ r'.alightTime
  | .reverse => r'.boardTime ≤ r.boardTime

theorem Ridden.AsGoodAs.refl (direction : Direction) (r : Ridden) : r.AsGoodAs direction r := by
  cases direction
  · exact Time.le_refl r.alightTime
  · exact Time.le_refl r.boardTime

/-- A choice that is at least as good keeps the recorded time too. -/
theorem Ridden.OnTime.of_asGoodAs {direction : Direction} {r r' : Ridden}
    (h : r'.OnTime direction) (hride : r.ride = r'.ride) (hgood : r.AsGoodAs direction r') :
    r.OnTime direction := by
  cases direction with
  | forward =>
    unfold OnTime at *
    rw [hride]
    exact Time.le_trans hgood h
  | reverse =>
    unfold OnTime at *
    rw [hride]
    exact Time.le_trans h hgood

/-- A ride that can be searched for without leaving the range of times, among trips that do not
overtake one another. -/
structure RecordedRide.Searchable (ride : RecordedRide) : Prop where
  inOrder : ride.pattern.InOrder
  boardPos : ride.hop.boardPos < ride.pattern.stops.length
  alightPos : ride.hop.alightPos < ride.pattern.stops.length
  moderate : ride.pattern.Moderate
  boardSlack : ride.boardSlack.Passable True
  alightSlack : ride.alightSlack.Passable True

namespace TripSearch

variable {s : TripSearch}

/-! ## One search -/

theorem exists_ofTrip (hride : s.ride.Searchable) {c : Trip × Nat} (hc : c ∈ s.candidates) :
    ∃ r, Ridden.ofTrip s.ride ⟨s.ride.hop.trip.pattern, c.2⟩ c.1 = .ok r := by
  have hmem : c.1 ∈ s.ride.pattern.trips := List.mem_of_getElem? (mem_candidates.1 hc)
  exact Ridden.exists_ofTrip_of_mem hmem hride.boardPos hride.alightPos _

/-- Along the list of trips, none gets earlier at the stop where it is held against the recorded
time. -/
def InOrder (s : TripSearch) : Prop :=
  match s.direction with
  | .forward => s.ride.pattern.trips.Pairwise fun t u =>
      ∀ a ∈ t.arrival? s.ride.hop.alightPos, ∀ b ∈ u.arrival? s.ride.hop.alightPos, a ≤ b
  | .reverse => s.ride.pattern.trips.Pairwise fun t u =>
      ∀ a ∈ t.departure? s.ride.hop.boardPos, ∀ b ∈ u.departure? s.ride.hop.boardPos, a ≤ b

theorem inOrder_of_searchable (hride : s.ride.Searchable) : s.InOrder := by
  unfold InOrder
  cases s.direction with
  | forward => exact hride.inOrder.imp fun htu _ ha _ hb => Trip.arrival?_le htu ha hb
  | reverse => exact hride.inOrder.imp fun htu _ ha _ hb => Trip.departure?_le htu ha hb

theorem pairwise_candidates (horder : s.InOrder) :
    s.candidates.Pairwise fun c d => ∀ slot slot' r r',
      Ridden.ofTrip s.ride slot c.1 = .ok r → Ridden.ofTrip s.ride slot' d.1 = .ok r' →
        r.AsGoodAs s.direction r' := by
  have hnumbered {R : Trip → Trip → Prop} (h : s.ride.pattern.trips.Pairwise R) :
      s.ride.pattern.numbered.Pairwise fun c d => R c.1 d.1 := by
    rw [← List.pairwise_map, Pattern.numbered, List.zipIdx_map_fst]
    exact h
  unfold candidates
  unfold InOrder at horder
  cases hs : s.direction with
  | forward =>
    simp only [hs] at horder
    refine (hnumbered horder).imp ?_
    intro c d hcd slot slot' r r' hr hr'
    obtain ⟨-, -, -, -, halight⟩ := Ridden.ofTrip_eq_ok_iff.1 hr
    obtain ⟨-, -, -, -, halight'⟩ := Ridden.ofTrip_eq_ok_iff.1 hr'
    exact hcd _ halight _ halight'
  | reverse =>
    simp only [hs] at horder
    refine List.pairwise_reverse.2 ((hnumbered horder).imp ?_)
    intro d c hdc slot slot' r r' hr hr'
    obtain ⟨-, -, -, hboard, -⟩ := Ridden.ofTrip_eq_ok_iff.1 hr
    obtain ⟨-, -, -, hboard', -⟩ := Ridden.ofTrip_eq_ok_iff.1 hr'
    exact hdc _ hboard' _ hboard

/-- What comes behind a candidate is no better. -/
theorem asGoodAs_of_behind (horder : s.InOrder) {before behind : List (Trip × Nat)}
    {c c' : Trip × Nat} {slot : TripSlot} {r r' : Ridden}
    (hcandidates : s.candidates = before ++ c :: behind) (hc' : c' ∈ behind)
    (hr : Ridden.ofTrip s.ride slot c.1 = .ok r)
    {slot' : TripSlot} (hr' : Ridden.ofTrip s.ride slot' c'.1 = .ok r') :
    r.AsGoodAs s.direction r' := by
  have hpairs := pairwise_candidates horder
  rw [hcandidates] at hpairs
  have hbehind := (List.pairwise_append.1 hpairs).2.1
  exact (List.pairwise_cons.1 hbehind).1 _ hc' _ _ _ _ hr hr'

/-- A candidate keeps what is asked of the ride. -/
def Suits (s : TripSearch) (c : Trip × Nat) : Prop :=
  ∃ r, Ridden.ofTrip s.ride ⟨s.ride.hop.trip.pattern, c.2⟩ c.1 = .ok r ∧ s.Keeps r

variable {bound : Time}

/-- Under one bound for all candidates and no rule, one that does not suit is passed over. -/
theorem passesOver_of_not_suits (hreq : ∀ trip, s.requirement trip = .ok (none, bound))
    (hride : s.ride.Searchable) {c : Trip × Nat} (hc : c ∈ s.candidates) (h : ¬s.Suits c) :
    s.PassesOver c := by
  obtain ⟨r, hr⟩ := exists_ofTrip hride hc
  refine ⟨none, bound, r, hreq c.1, hr, Or.inl ?_⟩
  rw [← Bool.not_eq_true]
  intro hkeeps
  exact h ⟨r, hr, (keeps_iff hr (hreq c.1)).1 ⟨hkeeps, by simp⟩⟩

/-- Under one bound for all candidates and no rule, one that suits is ridden if it is on time. -/
theorem takes_of_keeps (hreq : ∀ trip, s.requirement trip = .ok (none, bound)) {c : Trip × Nat}
    {r : Ridden} (hr : Ridden.ofTrip s.ride ⟨s.ride.hop.trip.pattern, c.2⟩ c.1 = .ok r)
    (hkeeps : s.Keeps r) (htime : r.OnTime s.direction) : s.Takes c r := by
  obtain ⟨hbound, hallowed⟩ := (keeps_iff hr (hreq c.1)).2 hkeeps
  have hsame : r.ride = s.ride := (Ridden.ofTrip_eq_ok_iff.1 hr).1
  exact ⟨none, bound, hreq c.1, hr, hbound, hallowed, (isBeyondRecord_eq_false_iff hsame).2 htime⟩

theorem exists_candidate {r : Ridden} (hsame : r.ride = s.ride) (hon : r.OnTrip) :
    ∃ c ∈ s.candidates, Ridden.ofTrip s.ride ⟨s.ride.hop.trip.pattern, c.2⟩ c.1 = .ok r := by
  obtain ⟨trip, htrip, hid, hboard, halight⟩ := hon.times
  have hslot : r.trip = ⟨s.ride.hop.trip.pattern, r.trip.trip⟩ := by
    rw [← hsame, ← hon.pattern]
  rw [hsame] at htrip hboard halight
  exact ⟨(trip, r.trip.trip), mem_candidates.2 htrip,
    Ridden.ofTrip_eq_ok_iff.2 ⟨hsame, hslot, hid, hboard, halight⟩⟩

theorem exists_first {α : Type} {P : α → Prop} {xs : List α} {x : α} (hx : x ∈ xs) (hP : P x) :
    ∃ before y behind, xs = before ++ y :: behind ∧ P y ∧ ∀ z ∈ before, ¬P z := by
  classical
  have hfound : (xs.find? fun z => decide (P z)).isSome = true :=
    List.find?_isSome.2 ⟨x, hx, decide_eq_true hP⟩
  obtain ⟨y, hy⟩ := Option.isSome_iff_exists.1 hfound
  obtain ⟨hPy, before, behind, hxs, hbefore⟩ := List.find?_eq_some_iff_append.1 hy
  refine ⟨before, y, behind, hxs, of_decide_eq_true hPy, fun z hz => ?_⟩
  simpa using hbefore z hz

/-- If any trip of the pattern can be ridden, the search finds one, and it is at least as good: the
first candidate that suits comes no later in the list than any other that does. -/
theorem exists_run (hreq : ∀ trip, s.requirement trip = .ok (none, bound))
    (hride : s.ride.Searchable) {r' : Ridden} (hsame : r'.ride = s.ride) (hon : r'.OnTrip)
    (hkeeps : s.Keeps r') (htime : r'.OnTime s.direction) :
    ∃ r, s.run = .ok r ∧ r.AsGoodAs s.direction r' := by
  obtain ⟨c', hc', hr'⟩ := exists_candidate hsame hon
  obtain ⟨passed, c, more, hcandidates, ⟨r, hr, hkeepsr⟩, hpassed⟩ :=
    exists_first (P := s.Suits) hc' ⟨r', hr', hkeeps⟩
  have hgood : r.AsGoodAs s.direction r' := by
    -- the other trip suits, so it is not before the first one that does
    rw [hcandidates] at hc'
    rcases List.mem_append.1 hc' with hin | hin
    · exact absurd ⟨r', hr', hkeeps⟩ (hpassed c' hin)
    · rcases List.mem_cons.1 hin with rfl | hin
      · rw [Except.ok.inj (hr'.symm.trans hr)]
        exact Ridden.AsGoodAs.refl _ _
      · exact asGoodAs_of_behind (inOrder_of_searchable hride) hcandidates hin hr hr'
  have hsamer : r.ride = s.ride := (Ridden.ofTrip_eq_ok_iff.1 hr).1
  have htimer : r.OnTime s.direction := htime.of_asGoodAs (hsamer.trans hsame.symm) hgood
  refine ⟨r, scan_eq_ok_iff.2 ⟨passed, c, more, hcandidates, ?_, ?_⟩, hgood⟩
  · intro p hp
    have hmem : p ∈ s.candidates := by
      rw [hcandidates]
      exact List.mem_append_left _ hp
    exact passesOver_of_not_suits hreq hride hmem (hpassed p hp)
  · exact takes_of_keeps hreq hr hkeepsr htimer

end TripSearch

/-! ## The bound of a search -/

/-- A neighbour whose times and spans are small enough to search beside it. -/
structure Neighbour.Searchable (n : Neighbour) : Prop where
  ride : n.ridden.ride.Searchable
  onTrip : n.ridden.OnTrip
  walk : (n.walk.getD Span.zero).Passable True

/-- Without a rule, the needed gap is the slack on both sides and the walk, and it is not long. -/
theorem exists_neededGap {a b : RecordedRide} (ha : a.Searchable) (hb : b.Searchable)
    {walk : Option Span} (hwalk : (walk.getD Span.zero).Passable True) :
    ∃ gap, neededGap a walk b none = .ok gap ∧
      gap.nanos = a.alightSlack.nanos + (walk.getD Span.zero).nanos + b.boardSlack.nanos ∧
      0 ≤ gap.wholeSeconds ∧ gap.wholeSeconds < 805306368 := by
  obtain ⟨gap, hgap, hnanos, hlower, hupper⟩ := ha.alightSlack.exists_sum? hwalk hb.boardSlack
  exact ⟨gap, by simp only [neededGap, hgap], hnanos, hlower, hupper⟩

namespace TripSearch

variable {s : TripSearch}

/-- Where no rules apply, one bound serves for all candidates. -/
theorem exists_requirement (hrules : s.rules = TransferRules.unconstrained)
    (hride : s.ride.Searchable) (hanchor : s.anchor.Moderate)
    (hneighbour : ∀ n, s.neighbour = some n → n.Searchable) :
    ∃ bound, ∀ trip, s.requirement trip = .ok (none, bound) := by
  obtain ⟨direction, rules, anchor, ride, neighbour⟩ := s
  obtain rfl : rules = TransferRules.unconstrained := hrules
  cases neighbour with
  | none =>
    cases direction with
    | forward =>
      obtain ⟨hslack₀, hslack₁⟩ := hride.boardSlack.wholeSeconds
      have hslack₁ := hslack₁ trivial
      obtain ⟨bound, hbound⟩ := Time.exists_later_of_moderate hanchor hslack₀ (by omega)
      exact ⟨bound, fun trip => bind_eq_ok_iff.2 ⟨bound, hbound, rfl⟩⟩
    | reverse =>
      obtain ⟨hslack₀, hslack₁⟩ := hride.alightSlack.wholeSeconds
      have hslack₁ := hslack₁ trivial
      obtain ⟨bound, hbound⟩ := Time.exists_earlier_of_moderate hanchor hslack₀ (by omega)
      exact ⟨bound, fun trip => bind_eq_ok_iff.2 ⟨bound, hbound, rfl⟩⟩
  | some n =>
    obtain ⟨hn, hon, hwalk⟩ := hneighbour n rfl
    obtain ⟨hboard, halight⟩ := hon.moderate hn.moderate
    cases direction with
    | forward =>
      obtain ⟨gap, hgap, -, hgap₀, hgap₁⟩ := exists_neededGap hn hride hwalk
      obtain ⟨bound, hbound⟩ := Time.exists_later_of_moderate halight hgap₀ hgap₁
      exact ⟨bound, fun trip =>
        bind_eq_ok_iff.2 ⟨gap, hgap, bind_eq_ok_iff.2 ⟨bound, hbound, rfl⟩⟩⟩
    | reverse =>
      obtain ⟨gap, hgap, -, hgap₀, hgap₁⟩ := exists_neededGap hride hn hwalk
      obtain ⟨bound, hbound⟩ := Time.exists_earlier_of_moderate hboard hgap₀ hgap₁
      exact ⟨bound, fun trip =>
        bind_eq_ok_iff.2 ⟨gap, hgap, bind_eq_ok_iff.2 ⟨bound, hbound, rfl⟩⟩⟩

end TripSearch

/-! ## All rides -/

/-- A ride that could be part of the journey. -/
structure Ridden.Rideable (direction : Direction) (r : Ridden) : Prop where
  searchable : r.ride.Searchable
  onTrip : r.OnTrip
  onTime : r.OnTime direction

/-- Two rides that could follow each other over a walk. -/
def Ridden.Fits (a : Ridden) (walk : Option Span) (b : Ridden) : Prop :=
  KeepsGap TransferRules.unconstrained a walk b ∧ (walk.getD Span.zero).Passable True

/-- A gap is kept all the more if the first ride ends earlier and the second one starts later. -/
theorem Ridden.KeepsGap.mono {a a' b b' : Ridden} {walk : Option Span}
    (h : KeepsGap TransferRules.unconstrained a' walk b') (ha : a.ride = a'.ride)
    (hb : b.ride = b'.ride) (halight : a.alightTime ≤ a'.alightTime)
    (hboard : b'.boardTime ≤ b.boardTime) : KeepsGap TransferRules.unconstrained a walk b := by
  obtain ⟨-, ⟨gap, hgap, henough⟩, -⟩ := h
  rw [Time.le_iff] at halight hboard
  refine ⟨by simp [ruleBetween?, TransferRules.unconstrained], ⟨gap, ?_, by omega⟩, ?_⟩
  · rw [ha, hb]
    exact hgap
  · intro time hrule
    cases hrule

namespace TripChoice

variable {c : TripChoice}

/-- Beside any neighbour, the search for a trip finds one at least as good as any that fits. -/
theorem exists_choose (hexact : c.approximate = false)
    (hrules : c.rules = TransferRules.unconstrained) (hanchor : c.anchor.Moderate)
    {neighbour : Option Neighbour} (hneighbour : ∀ n, neighbour = some n → n.Searchable)
    {r' : Ridden} (hr' : r'.Rideable c.direction)
    (hkeeps : TripSearch.Keeps ⟨c.direction, c.rules, c.anchor, r'.ride, neighbour⟩ r') :
    ∃ r, c.choose r'.ride neighbour = .ok r ∧ r.ride = r'.ride ∧ r.OnTrip ∧
      r.AsGoodAs c.direction r' := by
  obtain ⟨bound, hreq⟩ := TripSearch.exists_requirement
    (s := ⟨c.direction, c.rules, c.anchor, r'.ride, neighbour⟩) hrules hr'.searchable hanchor
    hneighbour
  obtain ⟨r, hrun, hgood⟩ :=
    TripSearch.exists_run hreq hr'.searchable rfl hr'.onTrip hkeeps hr'.onTime
  obtain ⟨hride, hon, -, -⟩ := TripSearch.of_run hrun
  refine ⟨r, ?_, hride, hon, hgood⟩
  rw [choose, hexact]
  exact hrun

/-- From the origin on: behind a ride that ends no later than that of a chain that fits, every
search finds a trip that ends no later than that of the chain. -/
theorem exists_chooseRest (hc : c.direction = .forward) (hexact : c.approximate = false)
    (hrules : c.rules = TransferRules.unconstrained) (hanchor : c.anchor.Moderate) {a a' : Ridden}
    (hride : a.ride = a'.ride) (hon : a.OnTrip) (hle : a.alightTime ≤ a'.alightTime)
    {rest' : List (Option Span × Ridden)}
    (hrides : ∀ r ∈ (⟨a', rest'⟩ : Linked _ _).toList, r.Rideable .forward)
    (hfits : Linked.Chained Ridden.Fits a' rest') :
    ∃ rest, c.chooseRest a (rest'.map (Prod.map id Ridden.ride)) = .ok rest ∧
      List.Forall₂ (Ridden.AsGoodAs .forward) (rest.map fun p => p.2)
        (rest'.map fun p => p.2) := by
  induction rest' generalizing a a' with
  | nil => exact ⟨[], rfl, .nil⟩
  | cons p rest' ih =>
    obtain ⟨walk, b'⟩ := p
    obtain ⟨⟨hgap, hwalk⟩, hfits⟩ := hfits
    obtain ⟨ha', hrides⟩ := List.forall_mem_cons.1 hrides
    have hb' : b'.Rideable .forward := hrides b' (Linked.first_mem_toList ⟨b', rest'⟩)
    have hsearch : Neighbour.Searchable ⟨a, walk⟩ := by
      refine ⟨?_, hon, hwalk⟩
      rw [hride]
      exact ha'.searchable
    -- the trip of the other chain still suits behind a ride that ends no later
    have hkeeps : TripSearch.Keeps ⟨.forward, c.rules, c.anchor, b'.ride, some ⟨a, walk⟩⟩ b' := by
      rw [hrules]
      exact hgap.mono hride rfl hle (Time.le_refl _)
    rw [← hc] at hb' hkeeps
    obtain ⟨b, hb, hrideb, honb, hgood⟩ := exists_choose hexact hrules hanchor
      (fun n hn => by rw [← Option.some.inj hn]; exact hsearch) hb' hkeeps
    rw [hc] at hgood
    obtain ⟨rest, hrest, hall⟩ := ih hrideb honb hgood hrides hfits
    refine ⟨(walk, b) :: rest, ?_, List.Forall₂.cons hgood hall⟩
    exact bind_eq_ok_iff.2 ⟨b, hb, bind_eq_ok_iff.2 ⟨rest, hrest, rfl⟩⟩

/-- From the destination back: every search finds a trip that is boarded no earlier than that of a
chain that fits. -/
theorem exists_chooseReverse (hc : c.direction = .reverse) (hexact : c.approximate = false)
    (hrules : c.rules = TransferRules.unconstrained) (hanchor : c.anchor.Moderate) {a' : Ridden}
    {rest' : List (Option Span × Ridden)}
    (hrides : ∀ r ∈ (⟨a', rest'⟩ : Linked _ _).toList, r.Rideable .reverse)
    (hfits : Linked.Chained Ridden.Fits a' rest')
    (hlast : (Linked.lastFrom a' rest').alightTime.seconds +
      (Linked.lastFrom a' rest').ride.alightSlack.wholeSeconds ≤ c.anchor.seconds) :
    ∃ own, c.chooseReverse a'.ride (rest'.map (Prod.map id Ridden.ride)) = .ok own ∧
      own.first.ride = a'.ride ∧ own.first.OnTrip ∧
      List.Forall₂ (Ridden.AsGoodAs .reverse) own.toList (⟨a', rest'⟩ : Linked _ _).toList := by
  induction rest' generalizing a' with
  | nil =>
    have ha' : a'.Rideable .reverse := hrides a' (Linked.first_mem_toList _)
    have hkeeps : TripSearch.Keeps ⟨.reverse, c.rules, c.anchor, a'.ride, none⟩ a' := hlast
    rw [← hc] at ha' hkeeps
    obtain ⟨r, hr, hride, hon, hgood⟩ :=
      exists_choose hexact hrules hanchor (fun n hn => by cases hn) ha' hkeeps
    rw [hc] at hgood
    exact ⟨⟨r, []⟩, bind_eq_ok_iff.2 ⟨r, hr, rfl⟩, hride, hon, .cons hgood .nil⟩
  | cons p rest' ih =>
    obtain ⟨walk, b'⟩ := p
    obtain ⟨⟨hgap, hwalk⟩, hfits⟩ := hfits
    obtain ⟨ha', hrides⟩ := List.forall_mem_cons.1 hrides
    have hb' : b'.Rideable .reverse := hrides b' (Linked.first_mem_toList ⟨b', rest'⟩)
    obtain ⟨behind, hbehind, hrideb, honb, hall⟩ := ih hrides hfits hlast
    have hgoodb : b'.boardTime ≤ behind.first.boardTime := (List.forall₂_cons.1 hall).1
    have hsearch : Neighbour.Searchable ⟨behind.first, walk⟩ := by
      refine ⟨?_, honb, hwalk⟩
      rw [hrideb]
      exact hb'.searchable
    -- the trip of the other chain still suits before a ride that starts no earlier
    have hkeeps : TripSearch.Keeps
        ⟨.reverse, c.rules, c.anchor, a'.ride, some ⟨behind.first, walk⟩⟩ a' := by
      rw [hrules]
      exact hgap.mono rfl hrideb (Time.le_refl _) hgoodb
    rw [← hc] at ha' hkeeps
    obtain ⟨a, ha, hridea, hona, hgood⟩ := exists_choose hexact hrules hanchor
      (fun n hn => by rw [← Option.some.inj hn]; exact hsearch) ha' hkeeps
    rw [hc] at hgood
    refine ⟨behind.cons a walk, ?_, hridea, hona, .cons hgood hall⟩
    exact bind_eq_ok_iff.2 ⟨behind, hbehind, bind_eq_ok_iff.2 ⟨a, ha, rfl⟩⟩

/-- If any trips fit, the search finds trips for all rides, and they are at least as good. -/
theorem exists_chooseAll (hexact : c.approximate = false)
    (hrules : c.rules = TransferRules.unconstrained) (hanchor : c.anchor.Moderate)
    {other : Linked (Option Span) Ridden} (hrides : ∀ r ∈ other.toList, r.Rideable c.direction)
    (hpass : Linked.Chained (fun _ walk _ => (walk.getD Span.zero).Passable True)
      other.first other.rest) (hfits : c.Fits other) :
    ∃ own, c.chooseAll (other.map id Ridden.ride) = .ok own ∧
      List.Forall₂ (Ridden.AsGoodAs c.direction) own.toList other.toList := by
  have hgaps := hfits.gaps
  have hanchored := hfits.anchored
  rw [hrules] at hgaps
  have hchain : Linked.Chained Ridden.Fits other.first other.rest := hgaps.and hpass
  have hfirst := hrides _ (Linked.first_mem_toList other)
  cases hc : c.direction with
  | forward =>
    rw [hc] at hanchored hrides
    have hkeeps : TripSearch.Keeps ⟨c.direction, c.rules, c.anchor, other.first.ride, none⟩
        other.first := by
      rw [hc]
      exact hanchored
    obtain ⟨a, ha, hride, hon, hgood⟩ :=
      exists_choose hexact hrules hanchor (fun n hn => by cases hn) hfirst hkeeps
    rw [hc] at hgood
    obtain ⟨rest, hrest, hall⟩ :=
      exists_chooseRest hc hexact hrules hanchor hride hon hgood hrides hchain
    refine ⟨⟨a, rest⟩, ?_, .cons hgood hall⟩
    rw [chooseAll, hc]
    exact bind_eq_ok_iff.2 ⟨a, ha, bind_eq_ok_iff.2 ⟨rest, hrest, rfl⟩⟩
  | reverse =>
    rw [hc] at hanchored hrides
    obtain ⟨own, hown, -, -, hall⟩ :=
      exists_chooseReverse hc hexact hrules hanchor hrides hchain hanchored
    refine ⟨own, ?_, hall⟩
    rw [chooseAll, hc]
    exact hown

end TripChoice

/-! ## Feasible assignments -/

/-- The slack before boarding a recorded ride, never negative. -/
def SlackPolicy.before (slack : SlackPolicy) (r : RecordedRide) : Span :=
  (slack.board r.board r.hop.trip).clampNonneg

/-- The slack after leaving a recorded ride, never negative. -/
def SlackPolicy.after (slack : SlackPolicy) (r : RecordedRide) : Span :=
  (slack.alight r.alight r.hop.trip).clampNonneg

/-- The whole seconds of the slack on both sides of a change and of the walk between. -/
def SlackPolicy.neededSeconds (slack : SlackPolicy) (a : RecordedRide) (walk : Option Span)
    (b : RecordedRide) : Int :=
  ((slack.after a).nanos + (walk.getD Span.zero).nanos + (slack.before b).nanos).tdiv 1000000000

namespace Reconstruction

/-- An assignment of trips to the rides of a recorded journey that could be travelled: it keeps the
slack of the network around every boarding and alighting, the walks, and the recorded times. -/
structure Feasible (c : Reconstruction) (recorded : RecordedJourney)
    (ridden : Linked (Option Span) Ridden) : Prop where
  /-- Each ride is on a trip of its own pattern. -/
  assigns : recorded.Assigns ridden
  /-- The search starts at the time of the access record. -/
  anchored :
    match c.direction with
    | .forward => recorded.anchor.seconds + (c.slack.before ridden.first.ride).wholeSeconds ≤
        ridden.first.boardTime.seconds
    | .reverse => ridden.last.alightTime.seconds + (c.slack.after ridden.last.ride).wholeSeconds ≤
        recorded.anchor.seconds
  /-- There is time for every change. -/
  gaps : Linked.Chained (fun a walk b =>
    a.alightTime.seconds + c.slack.neededSeconds a.ride walk b.ride ≤ b.boardTime.seconds)
    ridden.first ridden.rest
  /-- Every ride keeps its recorded time. -/
  onTime : ∀ r ∈ ridden.toList, r.OnTime c.direction

/-- All times and spans that a reconstruction reads are under 2^28 seconds either way. -/
structure Moderate (c : Reconstruction) (table : Arrivals) (arrival : FinalArrival) : Prop where
  network : c.network.Moderate
  slack : c.slack.Moderate
  records : ∀ record ∈ table.records, record.time.Moderate
  walks : table.WalksLast Span.Moderate
  egress : arrival.egress.duration.Moderate

variable {c : Reconstruction} {table : Arrivals} {arrival : FinalArrival}
  {recorded : RecordedJourney}

theorem keepsGap_unconstrained_iff {a b : Ridden} {walk : Option Span} (ha : a.ride.Searchable)
    (hb : b.ride.Searchable) (hwalk : (walk.getD Span.zero).Passable True) :
    Ridden.KeepsGap TransferRules.unconstrained a walk b ↔
      a.alightTime.seconds + (a.ride.alightSlack.nanos + (walk.getD Span.zero).nanos +
        b.ride.boardSlack.nanos).tdiv 1000000000 ≤ b.boardTime.seconds := by
  obtain ⟨gap, hgap, hnanos, -, -⟩ := exists_neededGap ha hb hwalk
  have hiff : Ridden.KeepsGap TransferRules.unconstrained a walk b ↔ _ := Ridden.keepsGap_iff hgap
  rw [hiff, ← hnanos]
  constructor
  · rintro ⟨-, henough, -⟩
    exact henough
  · intro henough
    exact ⟨by simp [Ridden.ruleBetween?, TransferRules.unconstrained], henough,
      fun time hrule => by cases hrule⟩

theorem searchable_of_resolved {r : RecordedRide} (h : r.Resolved c.network c.slack)
    (horder : c.network.InOrder) (hnetwork : c.network.Moderate) (hslack : c.slack.Moderate) :
    r.Searchable := by
  exact ⟨horder _ _ h.pattern, h.boardPos_lt, h.alightPos_lt, hnetwork _ _ h.pattern,
    h.passable_boardSlack fun _ => hslack, h.passable_alightSlack fun _ => hslack⟩

/-- For trips of their own patterns, to be feasible is to fit what the search asks for. -/
theorem feasible_iff {ridden : Linked (Option Span) Ridden}
    (hrules : c.rules = TransferRules.unconstrained) (hassigns : recorded.Assigns ridden)
    (hsound : recorded.Sound c.network c.slack)
    (hsearch : ∀ r ∈ ridden.toList, r.ride.Searchable)
    (hwalks : ∀ d, some d ∈ recorded.rides.links → d.Passable True) :
    c.Feasible recorded ridden ↔ (c.choice recorded.anchor).Fits ridden := by
  have hbefore : ∀ r ∈ ridden.toList, c.slack.before r.ride = r.ride.boardSlack :=
    fun r hr => (hassigns.resolved hsound hr).boardSlack.symm
  have hafter : ∀ r ∈ ridden.toList, c.slack.after r.ride = r.ride.alightSlack :=
    fun r hr => (hassigns.resolved hsound hr).alightSlack.symm
  have hpass := hassigns.passable hwalks
  constructor
  · rintro ⟨-, hanchored, hgaps, htime⟩
    refine ⟨?_, ?_, htime⟩
    · rw [hbefore _ (Linked.first_mem_toList _), hafter _ (Linked.last_mem_toList _)] at hanchored
      exact hanchored
    · refine (hgaps.and hpass).imp_of_mem ?_
      rintro a ha walk b hb ⟨hgap, hwalk⟩
      rw [SlackPolicy.neededSeconds, hbefore b hb, hafter a ha] at hgap
      rw [show (c.choice recorded.anchor).rules = c.rules from rfl, hrules]
      exact (keepsGap_unconstrained_iff (hsearch a ha) (hsearch b hb) hwalk).2 hgap
  · rintro ⟨hanchored, hgaps, htime⟩
    refine ⟨hassigns, ?_, ?_, htime⟩
    · rw [hbefore _ (Linked.first_mem_toList _), hafter _ (Linked.last_mem_toList _)]
      exact hanchored
    · refine (hgaps.and hpass).imp_of_mem ?_
      rintro a ha walk b hb ⟨hgap, hwalk⟩
      rw [SlackPolicy.neededSeconds, hbefore b hb, hafter a ha]
      rw [show (c.choice recorded.anchor).rules = c.rules from rfl, hrules] at hgap
      exact (keepsGap_unconstrained_iff (hsearch a ha) (hsearch b hb) hwalk).1 hgap

/-- Of an arrival whose rides can be assigned trips at all, the journey is rebuilt, on trips that
are at least as good as any others. -/
theorem exists_own (hexact : c.approximate = false)
    (hrules : c.rules = TransferRules.unconstrained) (hanchor : recorded.anchor.Moderate)
    (hsound : recorded.Sound c.network c.slack)
    (hsearch : ∀ r ∈ recorded.rides.toList, r.Searchable)
    (hwalks : ∀ d, some d ∈ recorded.rides.links → d.Passable True)
    {other : Linked (Option Span) Ridden} (hother : c.Feasible recorded other) :
    ∃ own, (c.choice recorded.anchor).chooseAll recorded.rides = .ok own ∧
      List.Forall₂ (Ridden.AsGoodAs c.direction) own.toList other.toList := by
  have hassigns := hother.assigns
  have hrides : ∀ r ∈ other.toList, r.ride.Searchable := fun r hr =>
    hsearch _ (hassigns.mem_rides hr)
  have hfits := (feasible_iff hrules hassigns hsound hrides hwalks).1 hother
  obtain ⟨own, hown, hgood⟩ := TripChoice.exists_chooseAll (c := c.choice recorded.anchor) hexact
    hrules hanchor
    (fun r hr => ⟨hrides r hr, hassigns.onTrip r hr, hother.onTime r hr⟩)
    (hassigns.passable hwalks) hfits
  rw [hassigns.rides] at hown
  exact ⟨own, hown, hgood⟩

/-- Without rules, the ride legs of a journey are its rides. -/
theorem LegsOf.forall₂ {rides : Linked (Option Span) Ridden} {j : Journey}
    (h : LegsOf (rides.map (fun walk => ⟨walk, none⟩) id) j) :
    List.Forall₂ (fun leg r => leg.Rides none r) j.rideLegs rides.toList := by
  have hlength := h.length_rideLegs
  rw [← Linked.length_toList, Linked.toList_map, List.map_id] at hlength
  refine List.forall₂_iff_get.2 ⟨hlength, fun i hi hi' => ?_⟩
  obtain ⟨rule, r, hrule, hr, hrides⟩ := h.exists_rides (List.getElem?_eq_getElem hi)
  rw [Linked.toList_map, List.map_id, List.getElem?_eq_getElem hi', Option.some.injEq] at hr
  have hnone : rule = none := by
    rcases List.mem_cons.1 (List.mem_of_getElem? hrule) with hfirst | hlink
    · exact hfirst
    · rw [Linked.links_map, List.map_map] at hlink
      obtain ⟨walk, -, hwalk⟩ := List.mem_map.1 hlink
      exact hwalk.symm
  rw [hnone, ← hr] at hrides
  exact hrides

/-- The feeder as recorded. -/
def feederRide : RecordedRide :=
  { hop := ⟨⟨⟨0⟩, 0⟩, 0, 1⟩
    board := ⟨1⟩
    alight := ⟨2⟩
    pattern := feederPattern
    recorded := feeder
    time := .ofHms 8 10 0
    boardSlack := Span.zero
    alightSlack := Span.zero }

/-- The connection as recorded. -/
def onwardRide : RecordedRide :=
  { hop := ⟨⟨⟨1⟩, 0⟩, 0, 1⟩
    board := ⟨2⟩
    alight := ⟨3⟩
    pattern := onwardPattern
    recorded := early
    time := .ofHms 9 0 0
    boardSlack := Span.zero
    alightSlack := Span.zero }

/-- The journey as recorded. -/
def feederRecorded : RecordedJourney :=
  { access := ⟨⟨1⟩, minute⟩
    egress := ⟨⟨3⟩, minute⟩
    anchor := .ofHms 7 58 0
    rides := ⟨feederRide, [(none, onwardRide)]⟩ }

/-- The feeder with the last of the connections. -/
def feederLater : Linked (Option Span) Ridden :=
  ⟨⟨feederRide, ⟨⟨0⟩, 0⟩, ⟨"feeder"⟩, .ofHms 8 0 0, .ofHms 8 10 0⟩,
    [(none, ⟨onwardRide, ⟨⟨1⟩, 2⟩, ⟨"later"⟩, .ofHms 8 30 0, .ofHms 8 50 0⟩)]⟩

theorem feasible_feederLater :
    (feederSearch TransferRules.unconstrained false).Feasible feederRecorded feederLater := by
  have hfirst : (Time.ofHms 7 58 0).seconds + 0 ≤ (Time.ofHms 8 0 0).seconds := by decide
  have hchange : (Time.ofHms 8 10 0).seconds + 0 ≤ (Time.ofHms 8 30 0).seconds := by decide
  have hlist : feederLater.toList =
      [feederLater.first, (feederLater.rest.map (·.2)).head (by decide)] := rfl
  refine ⟨⟨rfl, ?_⟩, hfirst, ⟨hchange, trivial⟩, ?_⟩
  · rw [hlist]
    intro r hr
    rcases List.mem_pair.1 hr with rfl | rfl
    · exact ⟨rfl, _, rfl, rfl, rfl, rfl⟩
    · exact ⟨rfl, _, rfl, rfl, rfl, rfl⟩
  · rw [hlist]
    intro r hr
    rcases List.mem_pair.1 hr with rfl | rfl
    · exact Time.le_refl (Time.ofHms 8 10 0)
    · exact (by decide : Time.ofHms 8 50 0 ≤ Time.ofHms 9 0 0)

/-- What holds of a list of patterns holds of all patterns of their network. -/
theorem forall_ofPatterns {P : Pattern → Prop} {patterns : List Pattern} (h : ∀ p ∈ patterns, P p) :
    ∀ id p, (Network.ofPatterns patterns).pattern? id = some p → P p :=
  fun _ p hp => h p (List.mem_of_getElem? hp)

/-- Where no transfer rule applies and no trip overtakes another, the search for trips is complete
and finds the best: if any assignment of trips is feasible, the journey is rebuilt, its trips are a
feasible assignment, and at every ride they are at least as good as those of any other. -/
theorem journey_rides_best_trips (c : Reconstruction) {table : Arrivals} {arrival : FinalArrival}
    {recorded : RecordedJourney} (hexact : c.approximate = false)
    (hrules : c.rules = TransferRules.unconstrained) (horder : c.network.InOrder)
    (hmoderate : c.Moderate table arrival) (htable : table.WalksLast (Span.zero ≤ ·))
    (hegress : Span.zero ≤ arrival.egress.duration)
    (hrecorded : RecordedJourney.ofArrival c.network c.slack c.direction table arrival =
      .ok recorded)
    (hfeasible : ∃ ridden, c.Feasible recorded ridden) :
    ∃ j own, c.journey table arrival = .ok j ∧
      List.Forall₂ (fun leg r => leg.Rides none r) j.rideLegs own.toList ∧
      c.Feasible recorded own ∧
      ∀ other, c.Feasible recorded other →
        List.Forall₂ (Ridden.AsGoodAs c.direction) own.toList other.toList := by
  obtain ⟨other, hother⟩ := hfeasible
  have hpass : table.WalksLast (Span.Passable True) := fun record hrecord d hd =>
    ⟨htable record hrecord d hd, fun _ => hmoderate.walks record hrecord d hd⟩
  have hpassEgress : arrival.egress.duration.Passable True := ⟨hegress, fun _ => hmoderate.egress⟩
  have hsound := RecordedJourney.sound_of_ofArrival hrecorded
  obtain ⟨-, -, hwalks⟩ := RecordedJourney.walks_of_ofArrival hrecorded hpass hpassEgress
  obtain ⟨start, hstart, htime⟩ := RecordedJourney.exists_anchor_of_ofArrival hrecorded
  have hanchor : recorded.anchor.Moderate := by
    rw [← htime]
    exact hmoderate.records start hstart
  have hsearch : ∀ r ∈ recorded.rides.toList, r.Searchable := fun r hr =>
    searchable_of_resolved (hsound.resolved r hr) horder hmoderate.network hmoderate.slack
  obtain ⟨own, hown, -⟩ := exists_own hexact hrules hanchor hsound hsearch hwalks hother
  have hsteps : c.Steps table arrival recorded own (own.map (fun walk => ⟨walk, none⟩) id) := by
    refine ⟨hrecorded, hown, ?_⟩
    rw [hrules]
    exact Change.ofRides_unconstrained own
  have hgives : Gives (MayFail (c.approximate = false) True) (fun _ => True)
      (c.journey table arrival) :=
    hsteps.gives_journey (fun _ => hmoderate.network) (fun _ => hmoderate.slack) hpass hpassEgress
  obtain ⟨j, hj, -⟩ := hgives.exists_ok fun e he => by
    cases e with
    | unusable error => exact he trivial
    | inconsistent error => exact he.1 hexact
  refine ⟨j, own, hj, ?_, ?_, fun other hother => ?_⟩
  · obtain ⟨recorded', ridden', settled', hsteps', hlegs⟩ := exists_legsOf_of_journey hj
    obtain ⟨-, -, rfl⟩ := hsteps.eq hsteps'
    exact hlegs.forall₂
  · have hrides : ∀ r ∈ own.toList, r.ride.Searchable := fun r hr =>
      hsearch _ (hsteps.assigns.mem_rides hr)
    exact (feasible_iff hrules hsteps.assigns hsound hrides hwalks).2 (hsteps.fits hexact)
  · obtain ⟨own', hown', hgood⟩ := exists_own hexact hrules hanchor hsound hsearch hwalks hother
    rw [Except.ok.inj (hown.symm.trans hown')]
    exact hgood

/-- The last connection would do, and the journey that is rebuilt arrives no later. -/
theorem journey_rides_best_trips_feeder :
    (feederSearch TransferRules.unconstrained false).Feasible feederRecorded feederLater ∧
      ∃ (j : Journey) (own : Linked (Option Span) Ridden),
        (feederSearch TransferRules.unconstrained false).journey feederTable feederArrival = .ok j ∧
        List.Forall₂ (fun leg r => leg.Rides none r) j.rideLegs own.toList ∧
        List.Forall₂ (Ridden.AsGoodAs .forward) own.toList feederLater.toList := by
  have hmoderate : (feederSearch TransferRules.unconstrained false).Moderate feederTable
      feederArrival := by
    refine ⟨forall_ofPatterns (by decide), fun stop slot => ?_, by decide, by decide, by decide⟩
    exact ⟨Span.moderate_zero, Span.moderate_zero⟩
  have hrecorded : RecordedJourney.ofArrival (Network.ofPatterns [feederPattern, onwardPattern])
      UniformSlack.zero.policy .forward feederTable feederArrival = .ok feederRecorded := rfl
  obtain ⟨j, own, hj, hlegs, -, hbest⟩ := journey_rides_best_trips
    (feederSearch TransferRules.unconstrained false) rfl rfl (forall_ofPatterns (by decide))
    hmoderate (by decide) (by decide) hrecorded ⟨feederLater, feasible_feederLater⟩
  exact ⟨feasible_feederLater, j, own, hj, hlegs, hbest feederLater feasible_feederLater⟩

end Reconstruction

end Journeys
