import Journeys.Proofs.Reconstruction
import Mathlib.Data.List.Chain

/-!
# Proofs: problems run backwards

The mirror of a problem is the same problem with time reversed. Vehicles run from the last stop of
their pattern to the first, at the opposite times, and the last trip of a pattern becomes the first
one; boarding and alighting change places, in the hops of the table, in the transfer rules and in
the slack. What a reverse search has recorded is, in the mirror, the record of a forward search.

Opposite times exist for all times but the earliest, so mirrors are only faithful for problems that
are bounded.
-/

namespace Journeys

namespace Time

/-- The opposite time. -/
def mirror (t : Time) : Time := clamp (-t.seconds)

theorem Moderate.seconds_mirror {t : Time} (h : t.Moderate) : t.mirror.seconds = -t.seconds := by
  obtain ⟨hlower, hupper⟩ := h
  refine seconds_clamp_of_inRange ?_
  unfold InRange
  omega

theorem Moderate.mirror {t : Time} (h : t.Moderate) : t.mirror.Moderate := by
  have hseconds := h.seconds_mirror
  obtain ⟨hlower, hupper⟩ := h
  unfold Moderate
  omega

/-- Whatever has the opposite seconds is the opposite time. -/
theorem eq_mirror {t t' : Time} (h : t'.seconds = -t.seconds) : t' = t.mirror := by
  refine Time.ext ?_
  have hrange : InRange (-t.seconds) := by
    rw [← h]
    exact ⟨t'.lower, t'.upper⟩
  rw [h]
  exact (seconds_clamp_of_inRange hrange).symm

theorem mirror_le_mirror {a b : Time} (h : a ≤ b) : b.mirror ≤ a.mirror := by
  rw [le_iff] at h ⊢
  show max (-2147483648) (min (-b.seconds) 2147483647) ≤
    max (-2147483648) (min (-a.seconds) 2147483647)
  omega

end Time

/-! ## Timetables -/

/-- A call of a trip that runs backwards: it arrives when it left. -/
def Call.mirror (c : Call) : Call := ⟨c.departure.mirror, c.arrival.mirror⟩

theorem Call.advancing_iff {calls : List Call} :
    Advancing calls ↔ calls.IsChain fun a b => a.departure ≤ b.arrival := by
  induction calls with
  | nil => exact ⟨fun _ => .nil, fun _ => trivial⟩
  | cons a calls ih =>
    cases calls with
    | nil => exact ⟨fun _ => .singleton a, fun _ => trivial⟩
    | cons b calls =>
      rw [List.isChain_cons_cons, ← ih]
      exact Iff.rfl

namespace Trip

/-- The trip run backwards. -/
def mirror (t : Trip) : Trip :=
  { id := t.id
    calls := (t.calls.map Call.mirror).reverse
    calls_ne_nil := by simpa using t.calls_ne_nil
    dwelling := by
      intro c hc
      obtain ⟨c, hmem, rfl⟩ := List.mem_map.1 (List.mem_reverse.1 hc)
      exact Time.mirror_le_mirror (t.dwelling c hmem)
    advancing := by
      rw [Call.advancing_iff, List.isChain_reverse, List.isChain_map]
      exact (Call.advancing_iff.1 t.advancing).imp fun _ _ h => Time.mirror_le_mirror h }

@[simp] theorem length_mirror (t : Trip) : t.mirror.length = t.length := by
  simp [mirror, length]

variable {t : Trip} {pos : Nat}

theorem getElem?_calls_mirror (h : pos < t.length) :
    t.mirror.calls[t.length - 1 - pos]? = t.calls[pos]?.map Call.mirror := by
  have hpos : t.length - 1 - (t.length - 1 - pos) = pos := by omega
  have hlength : (t.calls.map Call.mirror).length = t.length := List.length_map _
  rw [mirror, List.getElem?_reverse (by rw [hlength]; omega), hlength, hpos, List.getElem?_map]

theorem arrival?_mirror (h : pos < t.length) :
    t.mirror.arrival? (t.length - 1 - pos) = (t.departure? pos).map Time.mirror := by
  rw [arrival?, getElem?_calls_mirror h, departure?, Option.map_map, Option.map_map]
  rfl

theorem departure?_mirror (h : pos < t.length) :
    t.mirror.departure? (t.length - 1 - pos) = (t.arrival? pos).map Time.mirror := by
  rw [departure?, getElem?_calls_mirror h, arrival?, Option.map_map, Option.map_map]
  rfl

end Trip

namespace Pattern

/-- The pattern run backwards. -/
def mirror (p : Pattern) : Pattern :=
  { stops := p.stops.reverse
    trips := (p.trips.map Trip.mirror).reverse
    two_le_stops := by simpa using p.two_le_stops
    length_eq := by
      intro t ht
      obtain ⟨t, hmem, rfl⟩ := List.mem_map.1 (List.mem_reverse.1 ht)
      rw [Trip.length_mirror, List.length_reverse]
      exact p.length_eq t hmem }

/-- The position of a stop in the mirror of the pattern. -/
def mirrorPos (p : Pattern) (pos : Nat) : Nat := p.stops.length - 1 - pos

/-- The place of a trip in the mirror of the pattern. -/
def mirrorIndex (p : Pattern) (index : Nat) : Nat := p.trips.length - 1 - index

variable {p : Pattern} {pos index : Nat}

theorem stop?_mirror (h : pos < p.stops.length) :
    p.mirror.stop? (p.mirrorPos pos) = p.stop? pos := by
  have hpos : p.stops.length - 1 - (p.stops.length - 1 - pos) = pos := by omega
  rw [stop?, mirror, mirrorPos, List.getElem?_reverse (by omega), hpos]
  rfl

theorem trip?_mirror (h : index < p.trips.length) :
    p.mirror.trip? (p.mirrorIndex index) = (p.trip? index).map Trip.mirror := by
  have hindex : p.trips.length - 1 - (p.trips.length - 1 - index) = index := by omega
  have hlength : (p.trips.map Trip.mirror).length = p.trips.length := List.length_map _
  rw [trip?, mirror, mirrorIndex, List.getElem?_reverse (by rw [hlength]; omega), hlength, hindex,
    List.getElem?_map]
  rfl

/-- Running backwards, the last trip is the first one. -/
theorem numbered_mirror (p : Pattern) :
    p.mirror.numbered = p.numbered.reverse.map fun c => (c.1.mirror, p.mirrorIndex c.2) := by
  refine List.ext_getElem ?_ fun i hi hi' => ?_
  · simp [numbered, mirror]
  · have hlt : i < p.trips.length := by simpa [numbered, mirror] using hi
    have hindex : p.trips.length - 1 - (p.trips.length - 1 - i) = i := by omega
    simp [numbered, mirror, mirrorIndex, hindex]

theorem Moderate.mirror (h : p.Moderate) : p.mirror.Moderate := by
  intro trip' htrip' call' hcall'
  obtain ⟨trip, htrip, rfl⟩ := List.mem_map.1 (List.mem_reverse.1 htrip')
  obtain ⟨call, hcall, rfl⟩ := List.mem_map.1 (List.mem_reverse.1 hcall')
  obtain ⟨harrival, hdeparture⟩ := h trip htrip call hcall
  exact ⟨hdeparture.mirror, harrival.mirror⟩

end Pattern

namespace Network

/-- The timetable run backwards. -/
def mirror (n : Network) : Network := ⟨fun id => (n.pattern? id).map Pattern.mirror⟩

theorem Moderate.mirror {n : Network} (h : n.Moderate) : n.mirror.Moderate := by
  intro id pattern hpattern
  obtain ⟨p, hp, rfl⟩ := Option.map_eq_some_iff.1 hpattern
  exact (h id p hp).mirror

end Network

/-! ## Tables -/

/-- Where a trip stands in the mirror of its pattern. -/
def TripSlot.mirrorIn (p : Pattern) (slot : TripSlot) : TripSlot :=
  ⟨slot.pattern, p.mirrorIndex slot.trip⟩

/-- A hop in the mirror of its pattern: it is boarded where it was left. -/
def Hop.mirrorIn (p : Pattern) (hop : Hop) : Hop :=
  ⟨hop.trip.mirrorIn p, p.mirrorPos hop.alightPos, p.mirrorPos hop.boardPos⟩

/-- The trip and the positions of a hop are there in a pattern. -/
structure Hop.Within (p : Pattern) (hop : Hop) : Prop where
  trip : hop.trip.trip < p.trips.length
  boardPos : hop.boardPos < p.stops.length
  alightPos : hop.alightPos < p.stops.length

/-- A hop points at a trip and at positions of its pattern. -/
def Hop.Exists (network : Network) (hop : Hop) : Prop :=
  ∃ p, network.pattern? hop.trip.pattern = some p ∧ hop.Within p

instance (p : Pattern) (hop : Hop) : Decidable (hop.Within p) :=
  decidable_of_iff (hop.trip.trip < p.trips.length ∧ hop.boardPos < p.stops.length ∧
    hop.alightPos < p.stops.length)
    ⟨fun ⟨htrip, hboard, halight⟩ => ⟨htrip, hboard, halight⟩,
      fun ⟨htrip, hboard, halight⟩ => ⟨htrip, hboard, halight⟩⟩

instance (network : Network) (hop : Hop) : Decidable (hop.Exists network) :=
  inferInstanceAs (Decidable (∃ p ∈ network.pattern? hop.trip.pattern, hop.Within p))

/-- A hop in the mirror of a timetable. -/
def Hop.mirror (network : Network) (hop : Hop) : Hop :=
  match network.pattern? hop.trip.pattern with
  | some p => hop.mirrorIn p
  | none => hop

theorem Hop.mirror_eq {network : Network} {hop : Hop} {p : Pattern}
    (h : network.pattern? hop.trip.pattern = some p) : hop.mirror network = hop.mirrorIn p := by
  rw [mirror, h]

/-- The approach in the mirror of a timetable. -/
def Approach.mirror (network : Network) : Approach → Approach
  | .access street => .access street
  | .ride previous hop => .ride previous (hop.mirror network)
  | .walk previous duration => .walk previous duration

/-- The record in the mirror of a timetable. -/
def ArrivalRecord.mirror (network : Network) (record : ArrivalRecord) : ArrivalRecord :=
  { record with time := record.time.mirror, approach := record.approach.mirror network }

/-- The table in the mirror of a timetable. -/
def Arrivals.mirror (network : Network) (table : Arrivals) : Arrivals :=
  ⟨table.records.map (ArrivalRecord.mirror network)⟩

/-- The arrival with its time reversed. -/
def FinalArrival.mirror (arrival : FinalArrival) : FinalArrival :=
  { arrival with time := arrival.time.mirror }

theorem Arrivals.get?_mirror (network : Network) (table : Arrivals) (id : RecordId) :
    (table.mirror network).get? id = (table.get? id).map (ArrivalRecord.mirror network) :=
  Array.getElem?_map

theorem Arrivals.WalksLast.mirror {P : Span → Prop} {table : Arrivals} (h : table.WalksLast P)
    (network : Network) : (table.mirror network).WalksLast P := by
  intro record' hrecord' d hd
  obtain ⟨record, hrecord, rfl⟩ := Array.mem_map.1 hrecord'
  refine h record hrecord d ?_
  rw [← hd]
  show _ = (record.approach.mirror network).duration?
  cases record.approach <;> rfl

/-! ## Trails -/

/-- The step of a reverse search as one of a forward search in the mirror. -/
def RecordedStep.mirror (network : Network) : RecordedStep → RecordedStep
  | .ride hop board alight time => .ride (hop.mirror network) alight board time.mirror
  | .walk duration => .walk duration

/-- The trail of a reverse search as one of a forward search in the mirror. -/
def Trail.mirror (network : Network) (trail : Trail) : Trail :=
  { steps := trail.steps.map (RecordedStep.mirror network)
    start := trail.start
    anchor := trail.anchor.mirror }

namespace Trail

variable (network : Network) (table : Arrivals)

theorem lookup_mirror (id : RecordId) :
    lookup (table.mirror network) id = ArrivalRecord.mirror network <$> lookup table id := by
  rw [lookup, lookup, Arrivals.get?_mirror]
  cases table.get? id <;> rfl

theorem follow_mirror (fuel : Nat) (record : ArrivalRecord) :
    follow (table.mirror network) .forward fuel (record.mirror network) =
      mirror network <$> follow table .reverse fuel record := by
  induction fuel generalizing record with
  | zero => rfl
  | succ fuel ih =>
    obtain ⟨stop, round, time, approach⟩ := record
    cases approach with
    | access walk =>
      simp only [follow, ArrivalRecord.mirror, Approach.mirror]
      by_cases hstop : walk.stop = stop
      · simp only [hstop, ne_eq, not_true_eq_false, if_false, map_bind]
        rfl
      · simp only [hstop, ne_eq, not_false_eq_true, if_true]
        rfl
    -- behind a ride or a walk the same record is looked up, and its round, which has no direction,
    -- is checked
    | ride previous hop =>
      simp only [follow, ArrivalRecord.mirror, Approach.mirror]
      rw [lookup_mirror, bind_map_left, map_bind]
      refine bind_congr fun before => ?_
      by_cases hround : round = 0
      · simp only [hround, if_true]
        rfl
      · simp only [hround, if_false, ih, bind_map_left, map_bind]
        rfl
    | walk previous duration =>
      simp only [follow, ArrivalRecord.mirror, Approach.mirror]
      rw [lookup_mirror, bind_map_left, map_bind]
      refine bind_congr fun before => ?_
      simp only [ih, bind_map_left, map_bind]
      rfl

/-- The trail of the mirror is the mirror of the trail, and there is none for the same reasons. -/
theorem ofArrival_mirror (arrival : FinalArrival) :
    ofArrival (table.mirror network) .forward arrival.mirror =
      mirror network <$> ofArrival table .reverse arrival := by
  have hsize : (table.mirror network).size = table.size := by
    simp [Arrivals.size, Arrivals.mirror]
  rw [ofArrival, ofArrival, hsize]
  show (lookup (table.mirror network) arrival.previous >>= _) = _
  rw [lookup_mirror, bind_map_left, map_bind]
  refine bind_congr fun record => ?_
  show (if record.stop ≠ arrival.egress.stop then _ else _) = _
  split
  · rfl
  · rw [follow_mirror]
    simp only [map_bind]
    rfl

end Trail

/-! ## Rules and slack -/

/-- The key of the transfer the other way. -/
def RuleKey.mirror (key : RuleKey) : RuleKey := ⟨key.toTrip, key.toStop, key.fromTrip, key.fromStop⟩

theorem RuleKey.mirror_inj {key key' : RuleKey} : key.mirror = key'.mirror ↔ key = key' := by
  obtain ⟨a, b, c, d⟩ := key
  obtain ⟨a', b', c', d'⟩ := key'
  simp only [mirror, mk.injEq]
  tauto

/-- No duration of a rule is 2^28 seconds or more either way. -/
def TransferRule.Moderate : TransferRule → Prop
  | .minimumTime least => least.Moderate
  | .exactTime exact => exact.Moderate
  | .forbidden => True

instance : DecidablePred TransferRule.Moderate
  | .minimumTime least => inferInstanceAs (Decidable least.Moderate)
  | .exactTime exact => inferInstanceAs (Decidable exact.Moderate)
  | .forbidden => isTrue trivial

namespace RuleBook

/-- The rules with their ends exchanged. -/
def mirror (book : RuleBook) : RuleBook :=
  { entries := book.entries.map fun entry => (entry.1.mirror, entry.2)
    keys_ne := by
      rw [List.pairwise_map]
      exact book.keys_ne.imp fun hne heq => hne (RuleKey.mirror_inj.1 heq) }

theorem get?_mirror (book : RuleBook) (key : RuleKey) :
    book.mirror.get? key.mirror = book.get? key := by
  have hkey : (fun entry : RuleKey × TransferRule => decide (entry.1.mirror = key.mirror)) =
      fun entry => decide (entry.1 = key) := by
    funext entry
    rw [decide_eq_decide]
    exact RuleKey.mirror_inj
  simp only [get?, mirror, List.find?_map, Option.map_map, Function.comp_def, hkey]

/-- All rules of a book are moderate. -/
def Moderate (book : RuleBook) : Prop := ∀ entry ∈ book.entries, entry.2.Moderate

instance (book : RuleBook) : Decidable book.Moderate :=
  inferInstanceAs (Decidable (∀ entry ∈ book.entries, entry.2.Moderate))

theorem Moderate.of_get? {book : RuleBook} (h : book.Moderate) {key : RuleKey}
    {rule : TransferRule} (hrule : book.get? key = some rule) : rule.Moderate := by
  obtain ⟨entry, hentry, rfl⟩ := Option.map_eq_some_iff.1 hrule
  exact h entry (List.mem_of_find?_eq_some hentry)

end RuleBook

/-- The slack with boarding and alighting exchanged. -/
def UniformSlack.mirror (slack : UniformSlack) : UniformSlack := ⟨slack.alight, slack.board⟩

end Journeys
