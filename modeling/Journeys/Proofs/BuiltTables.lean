import Journeys.Proofs.ChainFaults
import Journeys.Proofs.Reconstruction

/-!
# Proofs: tables that the builders made

A table that is filled by `Arrivals.access`, `Arrivals.ride?` and `Arrivals.walk?` alone has its
chains in order. Every back-pointer leads to a record with a smaller number, rides count up the
rounds and walks keep them, and access walks end at the stop of their record (`Arrivals.Rooted`).
Numbers that a caller kept from before the table was cleared do no harm: they are refused, or they
stand for a record that is there now. So every record has a trail, as long as its number at most.
-/

namespace Journeys

namespace Arrivals

/-- A call to a table by the one who fills it. -/
inductive Call where
  /-- Records an access walk. -/
  | access (walk : StreetWalk) (time : Time)
  /-- Records a ride from an earlier record. -/
  | ride (previous : RecordId) (stop : Stop) (time : Time) (hop : Hop)
  /-- Records a walk from an earlier record. -/
  | walk (previous : RecordId) (stop : Stop) (time : Time) (duration : Span)
  /-- Drops all records. -/
  | clear
deriving DecidableEq

/-- The table after a call; one that is refused changes nothing. -/
def call (table : Arrivals) : Call → Arrivals
  | .access walk time => (table.access walk time).1
  | .ride previous stop time hop =>
    match table.ride? previous stop time hop with
    | some (table', _) => table'
    | none => table
  | .walk previous stop time duration =>
    match table.walk? previous stop time duration with
    | some (table', _) => table'
    | none => table
  | .clear => empty

/-- The table after a list of calls, one after the other. -/
def build (table : Arrivals) (calls : List Call) : Arrivals := calls.foldl call table

/-- The record that an approach leads back to, if any, is among those before this number, and the
round follows from it; an access walk ends at its stop, in round 0. -/
def RootedAt (table : Arrivals) (number : Nat) (record : ArrivalRecord) : Prop :=
  match record.approach with
  | .access walk => walk.stop = record.stop ∧ record.round = 0
  | .ride previous _ => previous.number < number ∧
      ∃ before, table.get? previous = some before ∧ record.round = before.round + 1
  | .walk previous _ => previous.number < number ∧
      ∃ before, table.get? previous = some before ∧ record.round = before.round

/-- All records of the table lead back to the street. -/
def Rooted (table : Arrivals) : Prop :=
  ∀ id record, table.get? id = some record → table.RootedAt id.number record

/-! ## One call -/

theorem lt_size_of_get? {table : Arrivals} {id : RecordId} {record : ArrivalRecord}
    (h : table.get? id = some record) : id.number < table.size :=
  (Array.getElem?_eq_some_iff.1 h).1

theorem RootedAt.push {table : Arrivals} {number : Nat} {record : ArrivalRecord}
    (h : table.RootedAt number record) (added : ArrivalRecord) :
    (table.push added).1.RootedAt number record := by
  unfold RootedAt at h ⊢
  split at h
  · exact h
  · obtain ⟨hlt, before, hbefore, hround⟩ := h
    exact ⟨hlt, before, get?_push_of_eq_some hbefore added, hround⟩
  · obtain ⟨hlt, before, hbefore, hround⟩ := h
    exact ⟨hlt, before, get?_push_of_eq_some hbefore added, hround⟩

theorem Rooted.push {table : Arrivals} (h : table.Rooted) {added : ArrivalRecord}
    (hadded : table.RootedAt table.size added) : (table.push added).1.Rooted := by
  intro id record hrecord
  have hlt := lt_size_of_get? hrecord
  rw [size_push] at hlt
  by_cases hold : id.number < table.size
  · rw [get?_push_of_lt hold added] at hrecord
    exact (h id record hrecord).push added
  · -- the one number that is new
    have hid : id = (table.push added).2 := by
      cases id
      simp only [Arrivals.push, RecordId.mk.injEq] at *
      omega
    rw [hid, get?_push_self] at hrecord
    obtain rfl := Option.some.inj hrecord
    rw [hid]
    exact hadded.push added

theorem rooted_empty : empty.Rooted := by
  intro id record hrecord
  cases lt_size_of_get? hrecord

/-- Whatever numbers it is given, a call keeps the table rooted. -/
theorem Rooted.call {table : Arrivals} (h : table.Rooted) (call : Call) :
    (table.call call).Rooted := by
  cases call with
  | access walk time => exact h.push ⟨rfl, rfl⟩
  | ride previous stop time hop =>
    cases hbefore : table.get? previous with
    | none => simpa [Arrivals.call, ride?, hbefore] using h
    | some before =>
      have hadded : table.RootedAt table.size
          { stop, round := before.round + 1, time, approach := .ride previous hop } :=
        ⟨lt_size_of_get? hbefore, before, hbefore, rfl⟩
      simpa [Arrivals.call, ride?, hbefore] using h.push hadded
  | walk previous stop time duration =>
    cases hbefore : table.get? previous with
    | none => simpa [Arrivals.call, walk?, hbefore] using h
    | some before =>
      have hadded : table.RootedAt table.size
          { stop, round := before.round, time, approach := .walk previous duration } :=
        ⟨lt_size_of_get? hbefore, before, hbefore, rfl⟩
      simpa [Arrivals.call, walk?, hbefore] using h.push hadded
  | clear => exact rooted_empty

/-- A record stays where it is until the table is cleared. -/
theorem get?_call_of_eq_some {table : Arrivals} {id : RecordId} {record : ArrivalRecord}
    (h : table.get? id = some record) {call : Call} (hcall : call ≠ .clear) :
    (table.call call).get? id = some record := by
  cases call with
  | access walk time => exact get?_push_of_eq_some h _
  | ride previous stop time hop =>
    cases hbefore : table.get? previous with
    | none => simpa [Arrivals.call, ride?, hbefore] using h
    | some before => simpa [Arrivals.call, ride?, hbefore] using get?_push_of_eq_some h _
  | walk previous stop time duration =>
    cases hbefore : table.get? previous with
    | none => simpa [Arrivals.call, walk?, hbefore] using h
    | some before => simpa [Arrivals.call, walk?, hbefore] using get?_push_of_eq_some h _
  | clear => exact absurd rfl hcall

/-! ## All calls -/

theorem Rooted.build {table : Arrivals} (h : table.Rooted) (calls : List Call) :
    (table.build calls).Rooted := by
  induction calls generalizing table with
  | nil => exact h
  | cons call calls ih => exact ih (h.call call)

theorem get?_build_of_eq_some {table : Arrivals} {id : RecordId} {record : ArrivalRecord}
    (h : table.get? id = some record) {calls : List Call} (hcalls : .clear ∉ calls) :
    (table.build calls).get? id = some record := by
  induction calls generalizing table with
  | nil => exact h
  | cons call calls ih =>
    rw [List.mem_cons, not_or] at hcalls
    obtain ⟨hcall, hcalls⟩ := hcalls
    exact ih (get?_call_of_eq_some h (Ne.symm hcall)) hcalls

/-! ## Trails -/

/-- Every record of a rooted table has a trail to the street, with no more steps than there are
records before it. -/
theorem Rooted.exists_followed {table : Arrivals} (h : table.Rooted) (direction : Direction)
    {id : RecordId} {record : ArrivalRecord} (hrecord : table.get? id = some record) :
    ∃ trail, Trail.Followed table direction record trail ∧ trail.steps.length ≤ id.number := by
  -- back-pointers lead to smaller numbers
  induction hn : id.number using Nat.strong_induction_on generalizing id record with
  | _ n ih =>
    have hrooted := h id record hrecord
    rw [RootedAt, hn] at hrooted
    split at hrooted
    · rename_i walk happroach
      exact ⟨_, .access happroach hrooted.1 hrooted.2, Nat.zero_le n⟩
    · rename_i previous hop happroach
      obtain ⟨hlt, before, hbefore, hround⟩ := hrooted
      obtain ⟨trail, hfollowed, hlength⟩ := ih _ hlt hbefore rfl
      exact ⟨_, .ride happroach hbefore hround hfollowed, Nat.lt_of_le_of_lt hlength hlt⟩
    · rename_i previous duration happroach
      obtain ⟨hlt, before, hbefore, hround⟩ := hrooted
      obtain ⟨trail, hfollowed, hlength⟩ := ih _ hlt hbefore rfl
      exact ⟨_, .walk happroach hbefore hround hfollowed, Nat.lt_of_le_of_lt hlength hlt⟩

theorem Rooted.exists_trail {table : Arrivals} (h : table.Rooted) (direction : Direction)
    {arrival : FinalArrival} {record : ArrivalRecord}
    (hrecord : table.get? arrival.previous = some record)
    (hround : arrival.round = record.round) (hstop : arrival.egress.stop = record.stop) :
    ∃ trail, Trail.ofArrival table direction arrival = .ok trail := by
  obtain ⟨trail, hfollowed, hlength⟩ := h.exists_followed direction hrecord
  have hsize : trail.steps.length ≤ table.size :=
    Nat.le_of_lt (Nat.lt_of_le_of_lt hlength (lt_size_of_get? hrecord))
  exact ⟨trail, Trail.ofArrival_eq_ok_iff.2
    ⟨record, hrecord, hstop.symm, hround.symm, hfollowed, hsize⟩⟩

theorem parts_of_destination? {table : Arrivals} {previous : RecordId} {egress : StreetWalk}
    {time : Time} {arrival : FinalArrival} {record : ArrivalRecord}
    (h : table.destination? previous egress time = some arrival)
    (hrecord : table.get? previous = some record) :
    arrival.previous = previous ∧ arrival.egress = egress ∧ arrival.round = record.round := by
  simp only [destination?, hrecord, Option.bind_eq_bind, Option.bind_some, Option.pure_def,
    Option.some.injEq] at h
  rw [← h]
  exact ⟨rfl, rfl, rfl⟩

end Arrivals

/-- Of a table that the builders made, by whatever calls, every arrival has its chain in order: it
has a trail, and no reconstruction, whichever way and however its trips are chosen, reports a
broken chain. It has to be an arrival at the stop of its record. More records may have been added
since it was made, but the table may not have been cleared. -/
theorem built_chains_are_whole (c : Reconstruction) (calls more : List Arrivals.Call)
    (hmore : .clear ∉ more) {previous : RecordId} {egress : StreetWalk} {time : Time}
    {arrival : FinalArrival} {record : ArrivalRecord}
    (harrival : (Arrivals.empty.build calls).destination? previous egress time = some arrival)
    (hrecord : (Arrivals.empty.build calls).get? previous = some record)
    (hstop : egress.stop = record.stop) :
    (∃ trail, Trail.ofArrival ((Arrivals.empty.build calls).build more) c.direction arrival =
        .ok trail) ∧
      ∀ e, c.journey ((Arrivals.empty.build calls).build more) arrival = .error (.unusable e) →
        e.breaksChain = false := by
  have hrooted : ((Arrivals.empty.build calls).build more).Rooted :=
    (Arrivals.rooted_empty.build calls).build more
  -- the record and its round are still those that the arrival was made from
  obtain ⟨rfl, rfl, hround⟩ := Arrivals.parts_of_destination? harrival hrecord
  have hthere := Arrivals.get?_build_of_eq_some hrecord hmore
  obtain ⟨trail, htrail⟩ := hrooted.exists_trail c.direction hthere hround hstop
  exact ⟨⟨trail, htrail⟩, fun e he => c.avoids_journey htrail _ he⟩

/-- The feeder and its connection, recorded after the table was cleared once. Of two numbers from
before, one is refused and the other one now stands for the new access walk. -/
def clearedCalls : List Arrivals.Call :=
  [.access ⟨⟨9⟩, minute⟩ (.ofHms 7 0 0),
   .ride ⟨0⟩ ⟨8⟩ (.ofHms 7 30 0) ⟨⟨⟨0⟩, 0⟩, 0, 1⟩,
   .clear,
   .walk ⟨1⟩ ⟨7⟩ (.ofHms 7 40 0) minute,
   .access ⟨⟨1⟩, minute⟩ (.ofHms 7 58 0),
   .ride ⟨0⟩ ⟨2⟩ (.ofHms 8 10 0) ⟨⟨⟨0⟩, 0⟩, 0, 1⟩,
   .ride ⟨1⟩ ⟨3⟩ (.ofHms 8 30 0) ⟨⟨⟨1⟩, 0⟩, 0, 1⟩]

/-- No connection arrives by the recorded time, and that is what is reported. -/
theorem built_chains_are_whole_feeder :
    let table := Arrivals.empty.build clearedCalls
    let more : List Arrivals.Call := [.walk ⟨2⟩ ⟨4⟩ (.ofHms 8 40 0) minute, .walk ⟨9⟩ ⟨4⟩
      (.ofHms 8 40 0) minute]
    let egress : StreetWalk := ⟨⟨3⟩, minute⟩
    let arrival : FinalArrival := { previous := ⟨2⟩, egress, time := .ofHms 8 31 0, round := 2 }
    let error : ReconstructionError := .tripNotFound ⟨1⟩ (.ofHms 8 30 0)
    .clear ∉ more ∧ table.destination? ⟨2⟩ egress (.ofHms 8 31 0) = some arrival ∧
      (table.get? ⟨2⟩).map ArrivalRecord.stop = some egress.stop ∧
      (∃ trail, Trail.ofArrival (table.build more) .forward arrival = .ok trail) ∧
      (feederSearch TransferRules.unconstrained false).journey (table.build more) arrival =
        .error (.unusable error) ∧ error.breaksChain = false := by
  intro table more egress arrival error
  have hmore : .clear ∉ more := by decide
  have harrival : table.destination? ⟨2⟩ egress (.ofHms 8 31 0) = some arrival := rfl
  have hstop : (table.get? ⟨2⟩).map ArrivalRecord.stop = some egress.stop := rfl
  have hjourney : (feederSearch TransferRules.unconstrained false).journey (table.build more)
      arrival = .error (.unusable error) := rfl
  obtain ⟨record, hrecord, hsame⟩ := Option.map_eq_some_iff.1 hstop
  obtain ⟨htrail, hwhole⟩ := built_chains_are_whole (feederSearch TransferRules.unconstrained false)
    clearedCalls more hmore harrival hrecord hsame.symm
  exact ⟨hmore, harrival, hstop, htrail, hjourney, hwhole error hjourney⟩

end Journeys
