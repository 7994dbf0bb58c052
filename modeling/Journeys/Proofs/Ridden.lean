import Journeys.Proofs.RecordedJourney

/-!
# Proofs: which trips are ridden

The scan for the trip of one ride takes the first candidate that keeps the time asked of it, unless
the transfer is forbidden (`TripSearch.scan_eq_ok_iff`). What a candidate must keep is asked in the
terms of the search direction; in the order of travel both directions ask the same of two rides that
follow each other (`Ridden.KeepsGap`). From ride to ride this makes up what is known of all trips
that were found (`TripChoice.Fits`).
-/

namespace Journeys

namespace Ridden

/-- The ride is on a trip of its pattern, and at the times of that trip. -/
structure OnTrip (r : Ridden) : Prop where
  pattern : r.trip.pattern = r.ride.hop.trip.pattern
  times : ∃ trip, r.ride.pattern.trip? r.trip.trip = some trip ∧ r.tripId = trip.id ∧
    trip.departure? r.ride.hop.boardPos = some r.boardTime ∧
    trip.arrival? r.ride.hop.alightPos = some r.alightTime

theorem ofTrip_eq_ok_iff {ride : RecordedRide} {slot : TripSlot} {trip : Trip} {r : Ridden} :
    ofTrip ride slot trip = .ok r ↔
      r.ride = ride ∧ r.trip = slot ∧ r.tripId = trip.id ∧
        trip.departure? ride.hop.boardPos = some r.boardTime ∧
        trip.arrival? ride.hop.alightPos = some r.alightTime := by
  unfold ofTrip
  split
  · rename_i hd
    simp [hd]
  · rename_i ha
    simp [ha]
  · rename_i boardTime alightTime hd ha
    rw [hd, ha]
    constructor
    · intro h
      cases h
      exact ⟨rfl, rfl, rfl, rfl, rfl⟩
    · rintro ⟨hride, hslot, hid, hboard, halight⟩
      obtain ⟨ride', slot', id', boardTime', alightTime'⟩ := r
      simp only [Option.some.injEq] at hride hslot hid hboard halight
      rw [hride, hslot, hid, hboard, halight]

theorem onTrip_of_ofTrip {ride : RecordedRide} {slot : TripSlot} {trip : Trip} {r : Ridden}
    (h : ofTrip ride slot trip = .ok r) (hpattern : slot.pattern = ride.hop.trip.pattern)
    (htrip : ride.pattern.trip? slot.trip = some trip) : r.OnTrip := by
  obtain ⟨hride, hslot, hid, hboard, halight⟩ := ofTrip_eq_ok_iff.1 h
  rw [← hride] at hpattern htrip hboard halight
  rw [← hslot] at hpattern htrip
  exact ⟨hpattern, trip, htrip, hid, hboard, halight⟩

/-- Every trip of the pattern can be ridden, since it calls at every stop of the pattern. -/
theorem exists_ofTrip_of_mem {ride : RecordedRide} {trip : Trip}
    (htrip : trip ∈ ride.pattern.trips)
    (hboardPos : ride.hop.boardPos < ride.pattern.stops.length)
    (halightPos : ride.hop.alightPos < ride.pattern.stops.length) (slot : TripSlot) :
    ∃ r, ofTrip ride slot trip = .ok r := by
  have hlength := ride.pattern.length_eq trip htrip
  obtain ⟨boardTime, hboard⟩ := trip.exists_departure? (by rw [hlength]; exact hboardPos)
  obtain ⟨alightTime, halight⟩ := trip.exists_arrival? (by rw [hlength]; exact halightPos)
  exact ⟨⟨ride, slot, trip.id, boardTime, alightTime⟩,
    ofTrip_eq_ok_iff.2 ⟨rfl, rfl, rfl, hboard, halight⟩⟩

/-- Leaving one ride and boarding the next keeps what is asked of the change: the transfer is
allowed, there is time enough, and an exact time is met to the second. -/
structure KeepsGap (rules : TransferRules) (a : Ridden) (walk : Option Span) (b : Ridden) :
    Prop where
  allowed : ruleBetween? rules a b ≠ some .forbidden
  enough : ∃ gap, neededGap a.ride walk b.ride (ruleBetween? rules a b) = .ok gap ∧
    a.alightTime.seconds + gap.wholeSeconds ≤ b.boardTime.seconds
  exact : ∀ time, ruleBetween? rules a b = some (.exactTime time) →
    b.boardTime.seconds = a.alightTime.seconds + time.wholeSeconds

/-- The recorded time is kept: the ride ends by then (forward) or starts no earlier (reverse). -/
def OnTime (direction : Direction) (r : Ridden) : Prop :=
  match direction with
  | .forward => r.alightTime ≤ r.ride.time
  | .reverse => r.ride.time ≤ r.boardTime

end Ridden

namespace TripSearch

variable {s : TripSearch} {r : Ridden}

/-! ## One scan -/

/-- A candidate can be ridden: it keeps its time, its transfer is allowed, and it is not beyond the
recorded time. -/
def Takes (s : TripSearch) (c : Trip × Nat) (r : Ridden) : Prop :=
  ∃ rule bound, s.requirement c.1 = .ok (rule, bound) ∧
    Ridden.ofTrip s.ride ⟨s.ride.hop.trip.pattern, c.2⟩ c.1 = .ok r ∧
    s.keeps rule bound r = true ∧ rule ≠ some .forbidden ∧ s.isBeyondRecord r = false

/-- A candidate is passed over: it does not keep its time, or its transfer is forbidden. -/
def PassesOver (s : TripSearch) (c : Trip × Nat) : Prop :=
  ∃ rule bound r, s.requirement c.1 = .ok (rule, bound) ∧
    Ridden.ofTrip s.ride ⟨s.ride.hop.trip.pattern, c.2⟩ c.1 = .ok r ∧
    (s.keeps rule bound r = false ∨ rule = some .forbidden)

/-- One step of the scan, for a candidate whose time is known. -/
theorem scan_cons {trip : Trip} {index : Nat} {more : List (Trip × Nat)}
    {skipped : Option ReconstructionError} {rule : Option TransferRule} {bound : Time}
    (hreq : s.requirement trip = .ok (rule, bound))
    (hr : Ridden.ofTrip s.ride ⟨s.ride.hop.trip.pattern, index⟩ trip = .ok r) :
    s.scan ((trip, index) :: more) skipped =
      if !s.keeps rule bound r then s.scan more skipped
      else if rule = some .forbidden then s.scan more (skipped.or (s.forbidden r))
      else if s.isBeyondRecord r then .error (s.failure skipped)
      else .ok r := by
  rw [scan, hreq, ok_bind]
  simp only [hr, ok_bind]
  rfl

/-- The scan finds the first candidate that is not passed over, if that one can be ridden. -/
theorem scan_eq_ok_iff {candidates : List (Trip × Nat)} {skipped : Option ReconstructionError} :
    s.scan candidates skipped = .ok r ↔
      ∃ passed c more, candidates = passed ++ c :: more ∧ (∀ p ∈ passed, s.PassesOver p) ∧
        s.Takes c r := by
  induction candidates generalizing skipped with
  | nil => simp [scan]
  | cons c more ih =>
    obtain ⟨trip, index⟩ := c
    constructor
    · intro h
      have hunfold := h
      rw [scan] at hunfold
      obtain ⟨⟨rule, bound⟩, hreq, hunfold⟩ := bind_eq_ok_iff.1 hunfold
      obtain ⟨r', hr', -⟩ := bind_eq_ok_iff.1 hunfold
      rw [scan_cons hreq hr'] at h
      -- whether this candidate is passed over or ridden, the later ones are as the induction says
      have hpass (hover : s.keeps rule bound r' = false ∨ rule = some .forbidden)
          {skipped' : Option ReconstructionError} (h : s.scan more skipped' = .ok r) :
          ∃ passed c after, (trip, index) :: more = passed ++ c :: after ∧
            (∀ p ∈ passed, s.PassesOver p) ∧ s.Takes c r := by
        obtain ⟨passed, c, after, hmore, hpassed, htakes⟩ := ih.1 h
        refine ⟨(trip, index) :: passed, c, after, by rw [hmore]; rfl, ?_, htakes⟩
        exact List.forall_mem_cons.2 ⟨⟨rule, bound, r', hreq, hr', hover⟩, hpassed⟩
      split at h
      · rename_i hkeeps
        exact hpass (Or.inl (by simpa using hkeeps)) h
      · rename_i hkeeps
        split at h
        · rename_i hforbidden
          exact hpass (Or.inr hforbidden) h
        · rename_i hallowed
          split at h
          · cases h
          · rename_i hrecord
            cases h
            refine ⟨[], (trip, index), more, rfl, by simp, rule, bound, hreq, hr', ?_, hallowed, ?_⟩
            · simpa using hkeeps
            · simpa using hrecord
    · rintro ⟨passed, c, after, hcandidates, hpassed, htakes⟩
      cases passed with
      | nil =>
        obtain ⟨rfl, rfl⟩ := List.cons.inj hcandidates
        obtain ⟨rule, bound, hreq, hr, hkeeps, hallowed, hrecord⟩ := htakes
        rw [scan_cons hreq hr]
        simp [hkeeps, hallowed, hrecord]
      | cons p passed =>
        obtain ⟨rfl, hmore⟩ := List.cons.inj hcandidates
        obtain ⟨hp, hpassed⟩ := List.forall_mem_cons.1 hpassed
        obtain ⟨rule, bound, r', hreq, hr', hover⟩ := hp
        have hfound (skipped' : Option ReconstructionError) : s.scan more skipped' = .ok r :=
          ih.2 ⟨passed, c, after, hmore, hpassed, htakes⟩
        rw [scan_cons hreq hr']
        rcases hover with hkeeps | hforbidden
        · simp [hkeeps, hfound]
        · simp [hforbidden, hfound]

theorem mem_candidates {c : Trip × Nat} :
    c ∈ s.candidates ↔ s.ride.pattern.trip? c.2 = some c.1 := by
  have hnumbered : c ∈ s.ride.pattern.numbered ↔ s.ride.pattern.trip? c.2 = some c.1 :=
    List.mem_zipIdx_iff_getElem?
  unfold candidates
  cases s.direction with
  | forward => exact hnumbered
  | reverse => exact List.mem_reverse.trans hnumbered

/-! ## What is asked of a candidate -/

/-- What is asked of the trip of a ride, in the order of travel. -/
def Keeps (s : TripSearch) (r : Ridden) : Prop :=
  match s.direction, s.neighbour with
  | .forward, none => s.anchor.seconds + s.ride.boardSlack.wholeSeconds ≤ r.boardTime.seconds
  | .reverse, none => r.alightTime.seconds + s.ride.alightSlack.wholeSeconds ≤ s.anchor.seconds
  | .forward, some ⟨previous, walk⟩ => Ridden.KeepsGap s.rules previous walk r
  | .reverse, some ⟨next, walk⟩ => Ridden.KeepsGap s.rules r walk next

/-- Going forward, a candidate leaves no earlier than its bound, and at the bound under an exact
rule. -/
theorem keeps_forward_iff (hs : s.direction = .forward) {rule : Option TransferRule}
    {bound : Time} :
    s.keeps rule bound r = true ↔ bound.seconds ≤ r.boardTime.seconds ∧
      ∀ time, rule = some (.exactTime time) → r.boardTime.seconds = bound.seconds := by
  unfold keeps
  rw [hs]
  rcases rule with _ | ⟨least⟩ | ⟨exact⟩ | _
  · simp [Time.le_iff]
  · simp [Time.le_iff]
  · simp only [decide_eq_true_eq, Time.ext_iff]
    constructor
    · intro h
      exact ⟨by omega, fun _ _ => h⟩
    · rintro ⟨-, h⟩
      exact h exact rfl
  · simp [Time.le_iff]

/-- Going back, a candidate arrives no later than its bound, and at the bound under an exact rule.
-/
theorem keeps_reverse_iff (hs : s.direction = .reverse) {rule : Option TransferRule}
    {bound : Time} :
    s.keeps rule bound r = true ↔ r.alightTime.seconds ≤ bound.seconds ∧
      ∀ time, rule = some (.exactTime time) → r.alightTime.seconds = bound.seconds := by
  unfold keeps
  rw [hs]
  rcases rule with _ | ⟨least⟩ | ⟨exact⟩ | _
  · simp [Time.le_iff]
  · simp [Time.le_iff]
  · simp only [decide_eq_true_eq, Time.ext_iff]
    constructor
    · intro h
      exact ⟨by omega, fun _ _ => h⟩
    · rintro ⟨-, h⟩
      exact h exact rfl
  · simp [Time.le_iff]

end TripSearch

/-- Without a rule, the slack on both sides and the walk are needed. -/
theorem neededGap_none_eq_ok_iff {before after : RecordedRide} {walk : Option Span} {gap : Span} :
    neededGap before walk after none = .ok gap ↔
      Span.sum? [before.alightSlack, walk.getD Span.zero, after.boardSlack] = some gap := by
  simp only [neededGap]
  split
  · rename_i gap' hsum
    simp [hsum]
  · rename_i hsum
    simp [hsum]

namespace Ridden

/-- Once the needed gap is known, keeping it is a matter of the two times. -/
theorem keepsGap_iff {rules : TransferRules} {a b : Ridden} {walk : Option Span} {gap : Span}
    (hgap : neededGap a.ride walk b.ride (ruleBetween? rules a b) = .ok gap) :
    KeepsGap rules a walk b ↔
      ruleBetween? rules a b ≠ some .forbidden ∧
        a.alightTime.seconds + gap.wholeSeconds ≤ b.boardTime.seconds ∧
        ∀ time, ruleBetween? rules a b = some (.exactTime time) →
          b.boardTime.seconds = a.alightTime.seconds + gap.wholeSeconds := by
  -- under an exact rule the needed gap is the time of the rule, walk and slack aside
  have hexact : ∀ time, ruleBetween? rules a b = some (.exactTime time) → time = gap := by
    intro time hrule
    rw [hrule] at hgap
    exact Except.ok.inj hgap
  constructor
  · rintro ⟨hallowed, ⟨gap', hgap', henough⟩, htime⟩
    obtain rfl : gap' = gap := Except.ok.inj (hgap'.symm.trans hgap)
    refine ⟨hallowed, henough, fun time hrule => ?_⟩
    rw [← hexact time hrule]
    exact htime time hrule
  · rintro ⟨hallowed, henough, htime⟩
    refine ⟨hallowed, ⟨gap, hgap, henough⟩, fun time hrule => ?_⟩
    rw [hexact time hrule]
    exact htime time hrule

/-- There is time for leaving one ride and boarding the next under a rule. -/
def Catches (rule : Option TransferRule) (a : Ridden) (walk : Option Span) (b : Ridden) : Prop :=
  match rule with
  | some (.exactTime exact) =>
    b.boardTime.seconds = a.alightTime.seconds + exact.wholeSeconds
  | some (.minimumTime least) =>
    a.alightTime.seconds + (max least (walk.getD Span.zero)).wholeSeconds ≤ b.boardTime.seconds
  | _ =>
    a.alightTime.seconds + (a.ride.alightSlack.nanos + (walk.getD Span.zero).nanos +
      b.ride.boardSlack.nanos).tdiv 1000000000 ≤ b.boardTime.seconds

theorem catches_iff {rule : Option TransferRule} {a b : Ridden} {walk : Option Span}
    {gap : Span} (hgap : neededGap a.ride walk b.ride rule = .ok gap) :
    Catches rule a walk b ↔ a.alightTime.seconds + gap.wholeSeconds ≤ b.boardTime.seconds ∧
      ∀ time, rule = some (.exactTime time) →
        b.boardTime.seconds = a.alightTime.seconds + gap.wholeSeconds := by
  -- without a rule about time, the needed gap is the sum of slack and walk
  have hsum (h : neededGap a.ride walk b.ride none = .ok gap) :
      gap.wholeSeconds = (a.ride.alightSlack.nanos + (walk.getD Span.zero).nanos +
        b.ride.boardSlack.nanos).tdiv 1000000000 := by
    rw [Span.wholeSeconds, Span.nanos_of_sum?_eq_some (neededGap_none_eq_ok_iff.1 h)]
  unfold Catches
  rcases rule with _ | ⟨least⟩ | ⟨exact⟩ | _
  · simp [hsum hgap]
  · obtain rfl := Except.ok.inj hgap
    simp
  · obtain rfl := Except.ok.inj hgap
    constructor
    · intro h
      exact ⟨by omega, fun _ _ => h⟩
    · rintro ⟨-, h⟩
      exact h _ rfl
  · simp [hsum hgap]

theorem keepsGap_iff_catches {rules : TransferRules} {a b : Ridden} {walk : Option Span}
    {gap : Span} (hgap : neededGap a.ride walk b.ride (ruleBetween? rules a b) = .ok gap) :
    KeepsGap rules a walk b ↔
      ruleBetween? rules a b ≠ some .forbidden ∧ Catches (ruleBetween? rules a b) a walk b := by
  rw [keepsGap_iff hgap, catches_iff hgap]

end Ridden

namespace TripSearch

variable {s : TripSearch} {r : Ridden}

/-- The rule between a candidate and the trip of the neighbouring ride. -/
def rule? (s : TripSearch) (r : Ridden) : Option TransferRule :=
  match s.direction, s.neighbour with
  | _, none => none
  | .forward, some ⟨previous, _⟩ => Ridden.ruleBetween? s.rules previous r
  | .reverse, some ⟨next, _⟩ => Ridden.ruleBetween? s.rules r next

/-- There is time to board the ride after the one before it, or to leave it for the one behind it.
The ride that is gone through first keeps its slack from the time of the access record. -/
def Boardable (s : TripSearch) (r : Ridden) : Prop :=
  match s.direction, s.neighbour with
  | .forward, none => s.anchor.seconds + s.ride.boardSlack.wholeSeconds ≤ r.boardTime.seconds
  | .reverse, none => r.alightTime.seconds + s.ride.alightSlack.wholeSeconds ≤ s.anchor.seconds
  | .forward, some ⟨previous, walk⟩ => previous.Catches (s.rule? r) walk r
  | .reverse, some ⟨next, walk⟩ => r.Catches (s.rule? r) walk next

/-- To keep the required time is to have time under the rule. -/
theorem keeps_iff_boardable {trip : Trip} {slot : TripSlot} {rule : Option TransferRule}
    {bound : Time} (hr : Ridden.ofTrip s.ride slot trip = .ok r)
    (hreq : s.requirement trip = .ok (rule, bound)) :
    rule = s.rule? r ∧ (s.keeps rule bound r = true ↔ s.Boardable r) := by
  obtain ⟨hride, -, hid, -, -⟩ := Ridden.ofTrip_eq_ok_iff.1 hr
  obtain ⟨direction, rules, anchor, ride, neighbour⟩ := s
  obtain rfl : r.ride = ride := hride
  cases direction with
  | forward =>
    rw [keeps_forward_iff rfl]
    cases neighbour with
    | none =>
      obtain ⟨earliest, hearliest, h⟩ := bind_eq_ok_iff.1 hreq
      cases h
      have hbound := Time.seconds_of_later hearliest
      exact ⟨rfl, by simp [Boardable, hbound]⟩
    | some neighbour =>
      obtain ⟨previous, walk⟩ := neighbour
      obtain ⟨gap, hgap, h⟩ := bind_eq_ok_iff.1 hreq
      obtain ⟨earliest, hearliest, h⟩ := bind_eq_ok_iff.1 h
      have hbound := Time.seconds_of_later hearliest
      cases h
      rw [← hid] at hgap ⊢
      refine ⟨rfl, ?_⟩
      rw [hbound]
      exact (Ridden.catches_iff hgap).symm
  | reverse =>
    rw [keeps_reverse_iff rfl]
    cases neighbour with
    | none =>
      obtain ⟨latest, hlatest, h⟩ := bind_eq_ok_iff.1 hreq
      cases h
      have hbound := Time.seconds_of_earlier hlatest
      refine ⟨rfl, ?_⟩
      simp only [Boardable, hbound]
      constructor
      · rintro ⟨h, -⟩
        omega
      · intro h
        exact ⟨by omega, by simp⟩
    | some neighbour =>
      obtain ⟨next, walk⟩ := neighbour
      obtain ⟨gap, hgap, h⟩ := bind_eq_ok_iff.1 hreq
      obtain ⟨latest, hlatest, h⟩ := bind_eq_ok_iff.1 h
      have hbound := Time.seconds_of_earlier hlatest
      cases h
      rw [← hid] at hgap ⊢
      refine ⟨rfl, ?_⟩
      have hle : r.alightTime.seconds ≤ next.boardTime.seconds - gap.wholeSeconds ↔
          r.alightTime.seconds + gap.wholeSeconds ≤ next.boardTime.seconds := by omega
      have heq : r.alightTime.seconds = next.boardTime.seconds - gap.wholeSeconds ↔
          next.boardTime.seconds = r.alightTime.seconds + gap.wholeSeconds := by omega
      rw [hbound, hle, heq]
      exact (Ridden.catches_iff hgap).symm

/-- A candidate keeps its time and is allowed exactly when it keeps what is asked of the two rides
in the order of travel. -/
theorem keeps_iff {trip : Trip} {slot : TripSlot} {rule : Option TransferRule} {bound : Time}
    (hr : Ridden.ofTrip s.ride slot trip = .ok r) (hreq : s.requirement trip = .ok (rule, bound)) :
    s.keeps rule bound r = true ∧ rule ≠ some .forbidden ↔ s.Keeps r := by
  obtain ⟨rfl, hkeeps⟩ := keeps_iff_boardable hr hreq
  obtain ⟨hride, -, hid, -, -⟩ := Ridden.ofTrip_eq_ok_iff.1 hr
  rw [hkeeps]
  obtain ⟨direction, rules, anchor, ride, neighbour⟩ := s
  obtain rfl : r.ride = ride := hride
  cases neighbour with
  | none => cases direction <;> simp [Boardable, Keeps, rule?]
  | some neighbour =>
    obtain ⟨ridden, walk⟩ := neighbour
    cases direction with
    | forward =>
      obtain ⟨gap, hgap, -⟩ := bind_eq_ok_iff.1 hreq
      rw [← hid] at hgap
      exact and_comm.trans (Ridden.keepsGap_iff_catches hgap).symm
    | reverse =>
      obtain ⟨gap, hgap, -⟩ := bind_eq_ok_iff.1 hreq
      rw [← hid] at hgap
      exact and_comm.trans (Ridden.keepsGap_iff_catches hgap).symm

theorem isBeyondRecord_eq_false_iff (hride : r.ride = s.ride) :
    s.isBeyondRecord r = false ↔ r.OnTime s.direction := by
  unfold isBeyondRecord Ridden.OnTime
  rw [← hride]
  cases s.direction <;> simp [Time.not_lt]

/-- The trip that a search finds is one of the pattern; it keeps what is asked of it and the
recorded time. -/
theorem of_run (h : s.run = .ok r) :
    r.ride = s.ride ∧ r.OnTrip ∧ s.Keeps r ∧ r.OnTime s.direction := by
  obtain ⟨passed, c, more, hcandidates, -, htakes⟩ := scan_eq_ok_iff.1 h
  obtain ⟨rule, bound, hreq, hr, hkeeps, hallowed, hrecord⟩ := htakes
  have hride := (Ridden.ofTrip_eq_ok_iff.1 hr).1
  have hmem : c ∈ s.candidates := by
    rw [hcandidates]
    simp
  refine ⟨hride, ?_, ?_, ?_⟩
  · exact Ridden.onTrip_of_ofTrip hr rfl (mem_candidates.1 hmem)
  · exact (keeps_iff hr hreq).1 ⟨hkeeps, hallowed⟩
  · exact (isBeyondRecord_eq_false_iff hride).1 hrecord

end TripSearch

namespace TripChoice

variable {c : TripChoice} {r : Ridden}

/-! ## All rides -/

theorem ride_of_choose {ride : RecordedRide} {neighbour : Option Neighbour}
    (h : c.choose ride neighbour = .ok r) : r.ride = ride := by
  unfold choose at h
  split at h
  · exact (Ridden.ofTrip_eq_ok_iff.1 h).1
  · exact (TripSearch.of_run h).1

/-- Of two rides that follow each other, one was chosen beside the other. -/
def Beside (c : TripChoice) (a : Ridden) (walk : Option Span) (b : Ridden) : Prop :=
  match c.direction with
  | .forward => c.choose b.ride (some ⟨a, walk⟩) = .ok b
  | .reverse => c.choose a.ride (some ⟨b, walk⟩) = .ok a

/-- The ride that is gone through first. -/
def outer (c : TripChoice) (rides : Linked (Option Span) Ridden) : Ridden :=
  match c.direction with
  | .forward => rides.first
  | .reverse => rides.last

theorem outer_of_forward (hc : c.direction = .forward) (rides : Linked (Option Span) Ridden) :
    c.outer rides = rides.first := by
  rw [outer, hc]

theorem outer_of_reverse (hc : c.direction = .reverse) (rides : Linked (Option Span) Ridden) :
    c.outer rides = rides.last := by
  rw [outer, hc]

/-- How the trips of all rides were chosen: the first one by itself, every other one beside the one
before it in search direction. -/
structure Chosen (c : TripChoice) (rides : Linked (Option Span) Ridden) : Prop where
  alone : c.choose (c.outer rides).ride none = .ok (c.outer rides)
  beside : Linked.Chained c.Beside rides.first rides.rest

theorem chained_of_chooseRest (hc : c.direction = .forward) {a : Ridden}
    {rides : List (Option Span × RecordedRide)} {rest : List (Option Span × Ridden)}
    (h : c.chooseRest a rides = .ok rest) :
    rest.map (Prod.map id Ridden.ride) = rides ∧ Linked.Chained c.Beside a rest := by
  induction rides generalizing a rest with
  | nil =>
    cases h
    exact ⟨rfl, trivial⟩
  | cons p rides ih =>
    obtain ⟨walk, ride⟩ := p
    obtain ⟨b, hb, h⟩ := bind_eq_ok_iff.1 h
    obtain ⟨behind, hbehind, h⟩ := bind_eq_ok_iff.1 h
    obtain ⟨hmap, hchain⟩ := ih hbehind
    have hride := ride_of_choose hb
    rw [← pure_eq_ok_iff.1 h]
    refine ⟨?_, ?_, hchain⟩
    · rw [List.map_cons, hmap, Prod.map_apply, hride]
      rfl
    · unfold Beside
      rw [hc, hride]
      exact hb

theorem chosen_of_chooseReverse (hc : c.direction = .reverse) {ride : RecordedRide}
    {rides : List (Option Span × RecordedRide)} {ridden : Linked (Option Span) Ridden}
    (h : c.chooseReverse ride rides = .ok ridden) :
    ridden.map id Ridden.ride = ⟨ride, rides⟩ ∧ c.Chosen ridden := by
  induction rides generalizing ride ridden with
  | nil =>
    obtain ⟨r, hr, h⟩ := bind_eq_ok_iff.1 h
    have hride := ride_of_choose hr
    rw [← pure_eq_ok_iff.1 h]
    refine ⟨?_, ?_, trivial⟩
    · rw [← hride]
      rfl
    · have hlast : (⟨r, []⟩ : Linked (Option Span) Ridden).last = r := rfl
      rw [outer_of_reverse hc, hlast, hride]
      exact hr
  | cons p rides ih =>
    obtain ⟨walk, next⟩ := p
    obtain ⟨behind, hbehind, h⟩ := bind_eq_ok_iff.1 h
    obtain ⟨a, ha, h⟩ := bind_eq_ok_iff.1 h
    obtain ⟨hmap, hchosen⟩ := ih hbehind
    have hride := ride_of_choose ha
    rw [← pure_eq_ok_iff.1 h]
    refine ⟨?_, ?_, ?_, hchosen.beside⟩
    · rw [Linked.map_cons, hmap, hride]
      rfl
    · rw [outer_of_reverse hc, Linked.last_cons, ← outer_of_reverse hc]
      exact hchosen.alone
    · have hbeside : c.Beside a walk behind.first := by
        rw [Beside, hc, hride]
        exact ha
      exact hbeside

/-- Choosing trips keeps the rides, and chooses each one as `Chosen` says. -/
theorem chosen_of_chooseAll {rides : Linked (Option Span) RecordedRide}
    {ridden : Linked (Option Span) Ridden} (h : c.chooseAll rides = .ok ridden) :
    ridden.map id Ridden.ride = rides ∧ c.Chosen ridden := by
  unfold chooseAll at h
  split at h
  · rename_i hc
    obtain ⟨first, hfirst, h⟩ := bind_eq_ok_iff.1 h
    obtain ⟨rest, hrest, h⟩ := bind_eq_ok_iff.1 h
    obtain ⟨hmap, hchain⟩ := chained_of_chooseRest hc hrest
    have hride := ride_of_choose hfirst
    rw [← pure_eq_ok_iff.1 h]
    refine ⟨?_, ?_, hchain⟩
    · obtain ⟨first', rest'⟩ := rides
      simp only [Linked.map, hmap, hride]
    · rw [outer_of_forward hc, hride]
      exact hfirst
  · rename_i hc
    exact chosen_of_chooseReverse hc h

theorem chooseRest_of_chained (hc : c.direction = .forward) {a : Ridden}
    {rest : List (Option Span × Ridden)} (h : Linked.Chained c.Beside a rest) :
    c.chooseRest a (rest.map (Prod.map id Ridden.ride)) = .ok rest := by
  induction rest generalizing a with
  | nil => rfl
  | cons p rest ih =>
    obtain ⟨walk, b⟩ := p
    obtain ⟨hb, hrest⟩ := h
    unfold Beside at hb
    rw [hc] at hb
    rw [List.map_cons, Prod.map_apply, id_eq, chooseRest, hb, ok_bind, ih hrest]
    rfl

theorem chooseReverse_of_chosen (hc : c.direction = .reverse) {a : Ridden}
    {rest : List (Option Span × Ridden)} (h : c.Chosen ⟨a, rest⟩) :
    c.chooseReverse a.ride (rest.map (Prod.map id Ridden.ride)) = .ok ⟨a, rest⟩ := by
  induction rest generalizing a with
  | nil =>
    have halone := h.alone
    rw [outer_of_reverse hc] at halone
    have halone : c.choose a.ride none = .ok a := halone
    rw [List.map_nil, chooseReverse, halone]
    rfl
  | cons p rest ih =>
    obtain ⟨walk, b⟩ := p
    obtain ⟨ha, hrest⟩ := h.beside
    have halone := h.alone
    rw [outer_of_reverse hc] at halone
    have hbehind : c.Chosen ⟨b, rest⟩ := by
      refine ⟨?_, hrest⟩
      rw [outer_of_reverse hc]
      exact halone
    unfold Beside at ha
    rw [hc] at ha
    rw [List.map_cons, Prod.map_apply, id_eq, chooseReverse, ih hbehind, ok_bind, ha]
    rfl

/-- Trips can be chosen exactly as `Chosen` says. -/
theorem chooseAll_eq_ok_iff {rides : Linked (Option Span) RecordedRide}
    {ridden : Linked (Option Span) Ridden} :
    c.chooseAll rides = .ok ridden ↔ ridden.map id Ridden.ride = rides ∧ c.Chosen ridden := by
  refine ⟨chosen_of_chooseAll, ?_⟩
  rintro ⟨rfl, h⟩
  unfold chooseAll
  split
  · rename_i hc
    have halone := h.alone
    rw [outer_of_forward hc] at halone
    have hfirst : c.choose (ridden.map id Ridden.ride).first none = .ok ridden.first := halone
    have hrest : c.chooseRest ridden.first (ridden.map id Ridden.ride).rest = .ok ridden.rest :=
      chooseRest_of_chained hc h.beside
    rw [chooseForward, hfirst, ok_bind, hrest]
    rfl
  · rename_i hc
    exact chooseReverse_of_chosen hc h

theorem outer_mem (c : TripChoice) (rides : Linked (Option Span) Ridden) :
    c.outer rides ∈ rides.toList := by
  unfold outer
  split
  · exact Linked.first_mem_toList rides
  · exact rides.last_mem_toList

/-- Rides each of which is chosen beside any other are chosen. -/
theorem Chosen.of_forall {rides : Linked (Option Span) Ridden}
    (h : ∀ r ∈ rides.toList, ∀ neighbour, c.choose r.ride neighbour = .ok r) :
    c.Chosen rides := by
  have hall : Linked.Chained (fun _ _ _ => True) rides.first rides.rest :=
    Linked.Chained.of_links fun _ _ => trivial
  refine ⟨h _ (c.outer_mem rides) none, hall.imp_of_mem ?_⟩
  intro a ha walk b hb _
  unfold Beside
  split
  · exact h b hb _
  · exact h a ha _

theorem Chosen.exists_choose {rides : Linked (Option Span) Ridden} (h : c.Chosen rides) :
    ∀ r ∈ rides.toList, ∃ neighbour, c.choose r.ride neighbour = .ok r := by
  obtain ⟨halone, hbeside⟩ := h
  cases hc : c.direction with
  | forward =>
    rw [outer_of_forward hc] at halone
    refine Linked.Chained.forall_of_first ⟨none, halone⟩ (hbeside.imp ?_)
    intro a walk b hab
    rw [Beside, hc] at hab
    exact ⟨_, hab⟩
  | reverse =>
    rw [outer_of_reverse hc] at halone
    refine Linked.Chained.forall_of_last ⟨none, halone⟩ (hbeside.imp ?_)
    intro a walk b hab
    rw [Beside, hc] at hab
    exact ⟨_, hab⟩

/-- All rides are on trips of their patterns, found or trusted. -/
theorem Chosen.onTrip {rides : Linked (Option Span) Ridden} (h : c.Chosen rides)
    (hrecorded : ∀ r ∈ rides.toList,
      r.ride.pattern.trip? r.ride.hop.trip.trip = some r.ride.recorded) :
    ∀ r ∈ rides.toList, r.OnTrip := by
  intro r hr
  obtain ⟨neighbour, hchoose⟩ := h.exists_choose r hr
  unfold choose at hchoose
  split at hchoose
  · exact Ridden.onTrip_of_ofTrip hchoose rfl (hrecorded r hr)
  · exact (TripSearch.of_run hchoose).2.1

/-! ## What an exact choice keeps -/

/-- What is known of rides whose trips were searched for: the one that is gone through first keeps
its slack from the time of the access record, every two that follow each other keep what is asked of
the change, and all keep their recorded times. -/
structure Fits (c : TripChoice) (rides : Linked (Option Span) Ridden) : Prop where
  anchored :
    match c.direction with
    | .forward => c.anchor.seconds + rides.first.ride.boardSlack.wholeSeconds ≤
        rides.first.boardTime.seconds
    | .reverse => rides.last.alightTime.seconds + rides.last.ride.alightSlack.wholeSeconds ≤
        c.anchor.seconds
  gaps : Linked.Chained (Ridden.KeepsGap c.rules) rides.first rides.rest
  onTime : ∀ r ∈ rides.toList, r.OnTime c.direction

theorem of_choose (hexact : c.approximate = false) {ride : RecordedRide}
    {neighbour : Option Neighbour} (h : c.choose ride neighbour = .ok r) :
    TripSearch.Keeps ⟨c.direction, c.rules, c.anchor, ride, neighbour⟩ r ∧
      r.OnTime c.direction := by
  rw [choose, hexact] at h
  obtain ⟨-, -, hkeeps, hontime⟩ := TripSearch.of_run h
  exact ⟨hkeeps, hontime⟩

theorem Chosen.fits (hexact : c.approximate = false) {rides : Linked (Option Span) Ridden}
    (h : c.Chosen rides) : c.Fits rides := by
  refine ⟨?_, h.beside.imp ?_, ?_⟩
  · have hkeeps := (of_choose hexact h.alone).1
    cases hc : c.direction with
    | forward => simpa [TripSearch.Keeps, hc, outer_of_forward hc] using hkeeps
    | reverse => simpa [TripSearch.Keeps, hc, outer_of_reverse hc] using hkeeps
  · intro a walk b hab
    unfold Beside at hab
    split at hab
    · rename_i hc
      have hkeeps := (of_choose hexact hab).1
      simpa [TripSearch.Keeps, hc] using hkeeps
    · rename_i hc
      have hkeeps := (of_choose hexact hab).1
      simpa [TripSearch.Keeps, hc] using hkeeps
  · intro r hr
    obtain ⟨neighbour, hchoose⟩ := h.exists_choose r hr
    exact (of_choose hexact hchoose).2

end TripChoice

end Journeys
