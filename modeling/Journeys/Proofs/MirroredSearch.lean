import Journeys.Proofs.MirroredRides

/-!
# Proofs: the search for trips in the mirror

A reverse search asks for the last trip that is in time for the ride behind it, a forward search for
the first one after the ride before it. In the mirror these are one question. Of a bounded problem
the two scans see the same trips in the same order, each with the opposite bound, and stop at the
same one; so ride by ride, and therefore for whole journeys, they find the same trips.
-/

namespace Journeys

/-! ## Opposite bounds -/

theorem Span.wholeSeconds_lt {d : Span} (hlower : -805306368000000000 < d.nanos)
    (hupper : d.nanos < 805306368000000000) :
    -805306368 < d.wholeSeconds ∧ d.wholeSeconds < 805306368 := by
  have hsign : Int.sign 1000000000 = 1 := rfl
  unfold wholeSeconds
  rw [Int.tdiv_eq_ediv, hsign]
  split <;> omega

/-- What a moderate time is moved back by, its mirror is moved on by. -/
theorem Time.later_mirror {t : Time} {d : Span} (ht : t.Moderate)
    (hlower : -805306368 < d.wholeSeconds) (hupper : d.wholeSeconds < 805306368) :
    ∃ u, t.earlier d = .ok u ∧ t.mirror.later d = .ok u.mirror ∧
      u.mirror.seconds = -u.seconds := by
  have hmirror := ht.seconds_mirror
  obtain ⟨ht₀, ht₁⟩ := ht
  obtain ⟨u, hu⟩ : ∃ u, t.earlier d = .ok u := by
    refine exists_earlier ?_ ?_
    · unfold InRange
      omega
    · unfold InRange
      omega
  obtain ⟨v, hv⟩ : ∃ v, t.mirror.later d = .ok v := by
    refine exists_later ?_ ?_
    · unfold InRange
      omega
    · unfold InRange
      omega
  have hseconds := seconds_of_earlier hu
  have hseconds' := seconds_of_later hv
  obtain rfl : v = u.mirror := eq_mirror (by omega)
  exact ⟨u, hu, hv, by omega⟩

/-- A ride of a bounded problem. -/
structure RecordedRide.Bounded (r : RecordedRide) : Prop where
  within : r.hop.Within r.pattern
  pattern : r.pattern.Moderate
  time : r.time.Moderate
  boardSlack : r.boardSlack.Passable True
  alightSlack : r.alightSlack.Passable True

/-- The time needed between two rides is needed between them in the mirror, where the second one
comes first. -/
theorem neededGap_mirror {a b : RecordedRide} (ha : a.Bounded) (hb : b.Bounded)
    {walk : Option Span} (hwalk : (walk.getD Span.zero).Passable True)
    {rule : Option TransferRule} (hrule : ∀ r, rule = some r → r.Moderate) :
    ∃ gap, neededGap a walk b rule = .ok gap ∧
      neededGap b.mirror walk a.mirror rule = .ok gap ∧
      -805306368 < gap.wholeSeconds ∧ gap.wholeSeconds < 805306368 := by
  obtain ⟨hpass₀, hpass₁⟩ := hwalk.moderate trivial
  -- without a rule about time, slack and walk add up in the opposite order
  have hsum : ∃ gap, Span.sum? [a.alightSlack, walk.getD Span.zero, b.boardSlack] = some gap ∧
      Span.sum? [b.boardSlack, walk.getD Span.zero, a.alightSlack] = some gap ∧
      -805306368 < gap.wholeSeconds ∧ gap.wholeSeconds < 805306368 := by
    obtain ⟨gap, hgap, hnanos, hlower, hupper⟩ := ha.alightSlack.exists_sum? hwalk hb.boardSlack
    obtain ⟨gap', hgap', hnanos', -, -⟩ := hb.boardSlack.exists_sum? hwalk ha.alightSlack
    obtain rfl : gap' = gap := Span.ext (by omega)
    exact ⟨gap', hgap, hgap', by omega, hupper⟩
  obtain ⟨gap, hgap, hgap', hbound⟩ := hsum
  rcases rule with _ | ⟨least⟩ | ⟨exact⟩ | _
  · refine ⟨gap, ?_, ?_, hbound⟩
    · simp only [neededGap, hgap]
    · simp only [neededGap, RecordedRide.mirror, hgap']
  · refine ⟨max least (walk.getD Span.zero), rfl, rfl, ?_⟩
    obtain ⟨hleast₀, hleast₁⟩ : least.Moderate := hrule _ rfl
    have hmax := Span.nanos_max least (walk.getD Span.zero)
    exact Span.wholeSeconds_lt (by omega) (by omega)
  · obtain ⟨hexact₀, hexact₁⟩ : exact.Moderate := hrule _ rfl
    exact ⟨exact, rfl, rfl, Span.wholeSeconds_lt (by omega) (by omega)⟩
  · refine ⟨gap, ?_, ?_, hbound⟩
    · simp only [neededGap, hgap]
    · simp only [neededGap, RecordedRide.mirror, hgap']

/-! ## One search -/

/-- The neighbouring ride in the mirror. -/
def Neighbour.mirror (n : Neighbour) : Neighbour := ⟨n.ridden.mirror, n.walk⟩

/-- The neighbouring ride of a bounded problem. -/
structure Neighbour.Bounded (n : Neighbour) : Prop where
  ride : n.ridden.ride.Bounded
  onTrip : n.ridden.OnTrip
  walk : (n.walk.getD Span.zero).Passable True

/-- Rules between the ends of two rides are, in the mirror, rules between the same ends. -/
theorem RuleBook.find?_mirror (book : RuleBook) (a b : RecordedRide) (x y : TripId) :
    book.mirror.rules.find? (Ridden.alightEnd b.mirror y) (Ridden.boardEnd a.mirror x) =
      book.rules.find? (Ridden.alightEnd a x) (Ridden.boardEnd b y) :=
  book.get?_mirror (RuleKey.between (Ridden.alightEnd a x) (Ridden.boardEnd b y))

theorem Ridden.ofTrip_mirror {ride : RecordedRide} {trip : Trip} {slot : TripSlot} {r : Ridden}
    (hwithin : ride.hop.Within ride.pattern) (htrip : trip ∈ ride.pattern.trips)
    (h : ofTrip ride slot trip = .ok r) :
    ofTrip ride.mirror (slot.mirrorIn ride.pattern) trip.mirror = .ok r.mirror := by
  obtain ⟨rfl, rfl, hid, hboard, halight⟩ := ofTrip_eq_ok_iff.1 h
  have hlength := r.ride.pattern.length_eq trip htrip
  have hboardPos : r.ride.hop.boardPos < trip.length := by
    rw [hlength]
    exact hwithin.boardPos
  have halightPos : r.ride.hop.alightPos < trip.length := by
    rw [hlength]
    exact hwithin.alightPos
  refine ofTrip_eq_ok_iff.2 ⟨rfl, rfl, hid, ?_, ?_⟩
  · show trip.mirror.departure? (r.ride.pattern.stops.length - 1 - r.ride.hop.alightPos) = _
    rw [← hlength, Trip.departure?_mirror halightPos, halight]
    rfl
  · show trip.mirror.arrival? (r.ride.pattern.stops.length - 1 - r.ride.hop.boardPos) = _
    rw [← hlength, Trip.arrival?_mirror hboardPos, hboard]
    rfl

namespace TripSearch

/-- The mirror of a search that goes back, among the rules of a book. -/
def mirror (book : RuleBook) (s : TripSearch) : TripSearch :=
  { direction := .forward
    rules := book.mirror.rules
    anchor := s.anchor.mirror
    ride := s.ride.mirror
    neighbour := s.neighbour.map Neighbour.mirror }

/-- A search that goes back, in a bounded problem. -/
structure Mirrorable (book : RuleBook) (s : TripSearch) : Prop where
  direction : s.direction = .reverse
  rules : s.rules = book.rules
  book : book.Moderate
  anchor : s.anchor.Moderate
  ride : s.ride.Bounded
  neighbour : ∀ n, s.neighbour = some n → n.Bounded

variable {book : RuleBook} {s : TripSearch} {r : Ridden}

/-- The mirror asks for the same rule and the opposite time. -/
theorem requirement_mirror (h : s.Mirrorable book) (trip : Trip) :
    ∃ rule bound, s.requirement trip = .ok (rule, bound) ∧
      (s.mirror book).requirement trip.mirror = .ok (rule, bound.mirror) ∧
      bound.mirror.seconds = -bound.seconds := by
  obtain ⟨direction, rules, anchor, ride, neighbour⟩ := s
  obtain rfl : direction = .reverse := h.direction
  obtain rfl : rules = book.rules := h.rules
  cases neighbour with
  | none =>
    have hslack : ride.alightSlack.Passable True := h.ride.alightSlack
    obtain ⟨hslack₀, hslack₁⟩ := hslack.wholeSeconds
    have hslack₁ := hslack₁ trivial
    obtain ⟨bound, hbound, hbound', hopposite⟩ :=
      Time.later_mirror (d := ride.alightSlack) h.anchor (by omega) (by omega)
    refine ⟨none, bound, ?_, ?_, hopposite⟩
    · exact bind_eq_ok_iff.2 ⟨bound, hbound, rfl⟩
    · exact bind_eq_ok_iff.2 ⟨bound.mirror, hbound', rfl⟩
  | some n =>
    obtain ⟨next, walk⟩ := n
    obtain ⟨hnext, hon, hwalk⟩ := h.neighbour _ rfl
    have hboard := (hon.moderate hnext.pattern).1
    let rule := book.rules.find? (Ridden.alightEnd ride trip.id)
      (Ridden.boardEnd next.ride next.tripId)
    have hmoderate : ∀ x, rule = some x → x.Moderate := fun x hx => h.book.of_get? hx
    obtain ⟨gap, hgap, hgap', hlower, hupper⟩ := neededGap_mirror h.ride hnext hwalk hmoderate
    obtain ⟨bound, hbound, hbound', hopposite⟩ := Time.later_mirror hboard hlower hupper
    refine ⟨rule, bound, ?_, ?_, hopposite⟩
    · refine bind_eq_ok_iff.2 ⟨gap, hgap, ?_⟩
      exact bind_eq_ok_iff.2 ⟨bound, hbound, rfl⟩
    · have hrule : book.mirror.rules.find? (Ridden.alightEnd next.ride.mirror next.tripId)
          (Ridden.boardEnd ride.mirror trip.id) = rule :=
        book.find?_mirror ride next.ride trip.id next.tripId
      rw [← hrule] at hgap'
      refine bind_eq_ok_iff.2 ⟨gap, hgap', ?_⟩
      refine bind_eq_ok_iff.2 ⟨bound.mirror, hbound', ?_⟩
      rw [← hrule]
      rfl

/-- A trip keeps its bound exactly when its mirror keeps the opposite one. -/
theorem keeps_mirror (hs : s.direction = .reverse) {rule : Option TransferRule} {bound : Time}
    (hopposite : bound.mirror.seconds = -bound.seconds) (hr : r.alightTime.Moderate) :
    (s.mirror book).keeps rule bound.mirror r.mirror = s.keeps rule bound r := by
  have hseconds : r.mirror.boardTime.seconds = -r.alightTime.seconds := hr.seconds_mirror
  have hle : -bound.seconds ≤ -r.alightTime.seconds ↔ r.alightTime.seconds ≤ bound.seconds := by
    omega
  have heq : -r.alightTime.seconds = -bound.seconds ↔ r.alightTime.seconds = bound.seconds := by
    omega
  rw [Bool.eq_iff_iff, keeps_forward_iff rfl, keeps_reverse_iff hs, hseconds, hopposite, hle, heq]

theorem isBeyondRecord_mirror (hs : s.direction = .reverse) (ht : s.ride.time.Moderate)
    (hr : r.boardTime.Moderate) :
    (s.mirror book).isBeyondRecord r.mirror = s.isBeyondRecord r := by
  have htime : s.ride.time.mirror.seconds = -s.ride.time.seconds := ht.seconds_mirror
  have hseconds : r.boardTime.mirror.seconds = -r.boardTime.seconds := hr.seconds_mirror
  have hlt : s.ride.time.mirror < r.boardTime.mirror ↔ r.boardTime < s.ride.time := by
    rw [Time.lt_iff, Time.lt_iff]
    omega
  unfold isBeyondRecord
  rw [hs]
  exact decide_eq_decide.2 hlt

/-- Over the same trips, the scan of the mirror stops where the scan does. -/
theorem scan_mirror (h : s.Mirrorable book) {candidates : List (Trip × Nat)}
    (hcandidates : ∀ c ∈ candidates, s.ride.pattern.trip? c.2 = some c.1)
    (skipped skipped' : Option ReconstructionError) :
    Agrees (fun r r' => r' = r.mirror) (s.scan candidates skipped)
      ((s.mirror book).scan
        (candidates.map fun c => (c.1.mirror, s.ride.pattern.mirrorIndex c.2)) skipped') := by
  induction candidates generalizing skipped skipped' with
  | nil => trivial
  | cons c candidates ih =>
    obtain ⟨trip, index⟩ := c
    obtain ⟨htrip, hmore⟩ := List.forall_mem_cons.1 hcandidates
    have hmem : trip ∈ s.ride.pattern.trips := List.mem_of_getElem? htrip
    obtain ⟨rule, bound, hreq, hreq', hopposite⟩ := requirement_mirror h trip
    obtain ⟨r, hr⟩ := Ridden.exists_ofTrip_of_mem hmem h.ride.within.boardPos
      h.ride.within.alightPos ⟨s.ride.hop.trip.pattern, index⟩
    have hr' := Ridden.ofTrip_mirror h.ride.within hmem hr
    have hride : r.ride = s.ride := (Ridden.ofTrip_eq_ok_iff.1 hr).1
    have hmoderate : r.boardTime.Moderate ∧ r.alightTime.Moderate := by
      refine (Ridden.onTrip_of_ofTrip hr rfl htrip).moderate ?_
      rw [hride]
      exact h.ride.pattern
    have hkeeps : (s.mirror book).keeps rule bound.mirror r.mirror = s.keeps rule bound r :=
      keeps_mirror h.direction hopposite hmoderate.2
    have hrecord : (s.mirror book).isBeyondRecord r.mirror = s.isBeyondRecord r :=
      isBeyondRecord_mirror h.direction h.ride.time hmoderate.1
    -- the candidate is passed over by both scans, or ends both
    rw [scan_cons hreq hr, List.map_cons, scan_cons hreq' hr', hkeeps, hrecord]
    split
    · exact ih hmore _ _
    · split
      · exact ih hmore _ _
      · split
        · trivial
        · rfl

/-- The mirror finds the mirrored ride, or none where none is found. -/
theorem run_mirror (h : s.Mirrorable book) :
    Agrees (fun r r' => r' = r.mirror) s.run (s.mirror book).run := by
  have hcandidates : s.candidates = s.ride.pattern.numbered.reverse := by
    rw [candidates, h.direction]
  have hcandidates' : (s.mirror book).candidates =
      s.candidates.map fun c => (c.1.mirror, s.ride.pattern.mirrorIndex c.2) := by
    rw [hcandidates]
    exact Pattern.numbered_mirror s.ride.pattern
  rw [run, run, hcandidates']
  exact scan_mirror h (fun c hc => mem_candidates.1 hc) none none

end TripSearch

/-! ## All rides -/

namespace TripChoice

/-- The mirror of a choice that goes back, among the rules of a book. -/
def mirror (book : RuleBook) (c : TripChoice) : TripChoice :=
  { direction := .forward
    rules := book.mirror.rules
    approximate := c.approximate
    anchor := c.anchor.mirror }

/-- A choice that goes back and searches for trips, in a bounded problem. -/
structure Mirrorable (book : RuleBook) (c : TripChoice) : Prop where
  direction : c.direction = .reverse
  rules : c.rules = book.rules
  exact : c.approximate = false
  book : book.Moderate
  anchor : c.anchor.Moderate

variable {book : RuleBook} {c : TripChoice}

theorem choose_mirror (h : c.Mirrorable book) {ride : RecordedRide} (hride : ride.Bounded)
    (neighbour : Option Neighbour) (hneighbour : ∀ n, neighbour = some n → n.Bounded) :
    Agrees (fun r r' => r' = r.mirror) (c.choose ride neighbour)
      ((c.mirror book).choose ride.mirror (neighbour.map Neighbour.mirror)) := by
  have hexact : (c.mirror book).approximate = false := h.exact
  rw [choose, choose, h.exact, hexact]
  exact TripSearch.run_mirror ⟨h.direction, h.rules, h.book, h.anchor, hride, hneighbour⟩

/-- Going forward, the trip of the last ride is chosen last. -/
theorem chooseForward_snoc (c : TripChoice) (rides : Linked (Option Span) RecordedRide)
    (walk : Option Span) (ride : RecordedRide) :
    c.chooseForward (rides.snoc walk ride) = do
      let ridden ← c.chooseForward rides
      let r ← c.choose ride (some ⟨ridden.last, walk⟩)
      return ridden.snoc walk r := by
  have hrest (a : Ridden) (rides : List (Option Span × RecordedRide)) :
      c.chooseRest a (rides ++ [(walk, ride)]) = do
        let rest ← c.chooseRest a rides
        let r ← c.choose ride (some ⟨Linked.lastFrom a rest, walk⟩)
        return rest ++ [(walk, r)] := by
    induction rides generalizing a with
    | nil => rfl
    | cons p rides ih =>
      obtain ⟨walk', ride'⟩ := p
      rw [List.cons_append, chooseRest, chooseRest]
      simp only [ih, bind_assoc, pure_bind]
      rfl
  obtain ⟨first, rest⟩ := rides
  rw [chooseForward, chooseForward, Linked.snoc]
  simp only [hrest, bind_assoc, pure_bind]
  rfl

/-- Rides and walks of a bounded problem. -/
structure Bounded (rides : Linked (Option Span) RecordedRide) : Prop where
  ride : ∀ r ∈ rides.toList, r.Bounded
  walk : ∀ walk ∈ rides.links, (walk.getD Span.zero).Passable True

/-- Where trips are found going back, the mirror finds the same trips going forward. -/
theorem chooseAll_mirror (h : c.Mirrorable book) {rides : Linked (Option Span) RecordedRide}
    (hrides : Bounded rides) :
    Agrees (fun ridden ridden' => ridden' = (ridden.map id Ridden.mirror).reverse)
      (c.chooseAll rides) ((c.mirror book).chooseAll (mirrorRides rides)) := by
  have hreverse (ridden : Linked (Option Span) RecordedRide) :
      c.chooseAll ridden = c.chooseReverse ridden.first ridden.rest := by
    rw [chooseAll, h.direction]
  have hforward (ridden : Linked (Option Span) RecordedRide) :
      (c.mirror book).chooseAll ridden = (c.mirror book).chooseForward ridden := rfl
  rw [hreverse, hforward]
  -- the rides behind the first one are, in the mirror, those before the last one
  induction rides using Linked.induction with
  | single ride =>
    have hride := hrides.ride ride (Linked.first_mem_toList _)
    refine (choose_mirror h hride none (fun n hn => by cases hn)).bind ?_
    rintro r r' - rfl
    rfl
  | cons ride walk rides ih =>
    obtain ⟨hride, hbehind⟩ := List.forall_mem_cons.1 hrides.ride
    obtain ⟨hwalk, hwalks⟩ := List.forall_mem_cons.1 hrides.walk
    have hmirror : mirrorRides (rides.cons ride walk) = (mirrorRides rides).snoc walk ride.mirror :=
      rfl
    rw [hmirror, chooseForward_snoc]
    refine (ih ⟨hbehind, hwalks⟩).bind ?_
    rintro ridden ridden' hridden rfl
    obtain ⟨hmap, hchosen⟩ := chosen_of_chooseReverse h.direction hridden
    have hneighbour : Neighbour.Bounded ⟨ridden.first, walk⟩ := by
      have hfirst : ridden.first.ride = rides.first := congrArg Linked.first hmap
      obtain ⟨beside, hbeside⟩ := hchosen.exists_choose _ (Linked.first_mem_toList ridden)
      rw [choose, h.exact] at hbeside
      refine ⟨?_, (TripSearch.of_run hbeside).2.1, hwalk⟩
      rw [hfirst]
      exact hbehind _ (Linked.first_mem_toList rides)
    have hlast : (ridden.map id Ridden.mirror).reverse.last = ridden.first.mirror :=
      Linked.last_reverse _
    rw [hlast]
    refine (choose_mirror h hride (some ⟨ridden.first, walk⟩) ?_).bind ?_
    · intro n hn
      cases hn
      exact hneighbour
    rintro r r' - rfl
    rfl

end TripChoice

end Journeys
