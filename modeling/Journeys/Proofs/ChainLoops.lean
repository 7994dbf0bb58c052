import Journeys.Proofs.EndlessChains
import Journeys.Proofs.ChainFaults

/-!
# Proofs: loops in a table

Back-pointers are counted on the way, and the chain is given up when there were more of them than
the table has records. That is the right place to stop: a chain is given up exactly if it would
never end (`Trail.follow_eq_cyclic_iff_endless`). A loop with a ride in it fails a check on its
first round trip. What is counted is spelled out in a second version of the loop, `followCounting`,
which has the same outcome.
-/

namespace Journeys

/-- The failure is that rounds along the chain do not add up. -/
def ReconstructionError.miscounts : ReconstructionError → Bool
  | legOrder fault => fault = .rideInRoundZero
  | roundMismatch _ _ => true
  | _ => false

open Arrivals (LeadsBack)

namespace Trail

variable {table : Arrivals} {direction : Direction} {record before : ArrivalRecord} {fuel : Nat}

/-! ## One back-pointer -/

theorem lookup_eq_error {id : RecordId} (h : table.get? id = none) :
    lookup table id = .error (.dangling id) := by
  rw [lookup, h]

theorem expectRound_eq_error {round : Nat} (h : record.round ≠ round) :
    expectRound record round = .error (.roundMismatch round record.round) := by
  rw [expectRound, if_neg h]

theorem follow_ne_cyclic_of_access {walk : StreetWalk} (h : record.approach = .access walk) :
    follow table direction (fuel + 1) record ≠ .error .cyclic := by
  rw [follow, h]
  dsimp only
  split
  · simp
  · unfold expectRound
    split
    · simp [bind, Except.bind, pure, Except.pure]
    · simp [bind, Except.bind]

/-- A back-pointer is looked up and checked, and then the chain is followed from the record that it
leads to. The check passes exactly if the rounds add up. -/
theorem exists_follow_succ {previous : RecordId}
    (hprevious : record.approach.previous? = some previous) :
    ∃ (check : ArrivalRecord → Except ReconstructionError Unit)
      (extend : ArrivalRecord → Trail → Trail),
      (∀ before, ((⟨record, before⟩ : BackPointer).Counts ∧ check before = .ok ()) ∨
        (¬(⟨record, before⟩ : BackPointer).Counts ∧
          ∃ e, check before = .error e ∧ e.miscounts = true)) ∧
      ∀ fuel, follow table direction (fuel + 1) record = (do
        let before ← lookup table previous
        check before
        extend before <$> follow table direction fuel before) := by
  unfold BackPointer.Counts
  cases happroach : record.approach with
  | access walk =>
    rw [happroach] at hprevious
    cases hprevious
  | ride id hop =>
    rw [happroach] at hprevious
    obtain rfl : id = previous := Option.some.inj hprevious
    refine ⟨fun before => if record.round = 0 then .error (.legOrder .rideInRoundZero)
      else expectRound before (record.round - 1),
      fun before trail =>
        { trail with steps := recordedRide direction hop before record :: trail.steps }, ?_, ?_⟩
    · intro before
      by_cases hzero : record.round = 0
      · exact Or.inr ⟨by simp only [happroach]; omega, _, if_pos hzero, rfl⟩
      · by_cases hround : before.round = record.round - 1
        · have hpasses : expectRound before (record.round - 1) = .ok () :=
            expectRound_eq_ok_iff.2 hround
          exact Or.inl ⟨by simp only [happroach]; omega, (if_neg hzero).trans hpasses⟩
        · have hfails := expectRound_eq_error hround
          exact Or.inr ⟨by simp only [happroach]; omega, _, (if_neg hzero).trans hfails, rfl⟩
    · intro fuel
      rw [follow, happroach]
      dsimp only
      congr 1
      funext before
      split
      · rfl
      · rfl
  | walk id duration =>
    rw [happroach] at hprevious
    obtain rfl : id = previous := Option.some.inj hprevious
    refine ⟨fun before => expectRound before record.round,
      fun before trail => { trail with steps := .walk duration :: trail.steps }, ?_, ?_⟩
    · intro before
      by_cases hround : before.round = record.round
      · exact Or.inl ⟨by simp only [happroach]; omega, expectRound_eq_ok_iff.2 hround⟩
      · exact Or.inr ⟨by simp only [happroach]; omega, _, expectRound_eq_error hround, rfl⟩
    · intro fuel
      rw [follow, happroach]
      rfl

theorem follow_of_dangling {previous : RecordId}
    (hprevious : record.approach.previous? = some previous) (h : table.get? previous = none) :
    follow table direction (fuel + 1) record = .error (.dangling previous) := by
  obtain ⟨check, extend, -, hfollow⟩ := exists_follow_succ hprevious
  rw [hfollow, lookup_eq_error h]
  rfl

theorem exists_error_of_not_counts (h : table.LeadsTo record before)
    (hcounts : ¬(⟨record, before⟩ : BackPointer).Counts) :
    ∃ e, follow table direction (fuel + 1) record = .error e ∧ e.miscounts = true := by
  obtain ⟨previous, hprevious, hbefore⟩ := h
  obtain ⟨check, extend, hcheck, hfollow⟩ := exists_follow_succ hprevious
  rcases hcheck before with ⟨hpasses, -⟩ | ⟨-, e, he, hmiscounts⟩
  · exact absurd hpasses hcounts
  · refine ⟨e, ?_, hmiscounts⟩
    rw [hfollow, lookup_eq_ok_iff.2 hbefore, ok_bind, he]
    rfl

/-- Behind a back-pointer that passes its round check, the chain fails as it does from the record
that this one leads to. -/
theorem follow_eq_error_iff_of_counts (h : table.LeadsTo record before)
    (hcounts : (⟨record, before⟩ : BackPointer).Counts) {e : ReconstructionError} :
    follow table direction (fuel + 1) record = .error e ↔
      follow table direction fuel before = .error e := by
  obtain ⟨previous, hprevious, hbefore⟩ := h
  obtain ⟨check, extend, hcheck, hfollow⟩ := exists_follow_succ hprevious
  rcases hcheck before with ⟨-, hok⟩ | ⟨hfails, -⟩
  · rw [hfollow, lookup_eq_ok_iff.2 hbefore, ok_bind, hok, ok_bind]
    exact map_eq_error_iff
  · exact absurd hcounts hfails

theorem follow_eq_cyclic_succ_iff :
    follow table direction (fuel + 1) record = .error .cyclic ↔
      ∃ before, table.LeadsTo record before ∧ (⟨record, before⟩ : BackPointer).Counts ∧
        follow table direction fuel before = .error .cyclic := by
  constructor
  · intro h
    cases hprevious : record.approach.previous? with
    | none =>
      cases happroach : record.approach with
      | access walk => exact absurd h (follow_ne_cyclic_of_access happroach)
      | ride id hop => simp [happroach, Approach.previous?] at hprevious
      | walk id duration => simp [happroach, Approach.previous?] at hprevious
    | some previous =>
      cases hbefore : table.get? previous with
      | none =>
        rw [follow_of_dangling hprevious hbefore] at h
        cases h
      | some before =>
        have hto : table.LeadsTo record before := ⟨previous, hprevious, hbefore⟩
        by_cases hcounts : (⟨record, before⟩ : BackPointer).Counts
        · exact ⟨before, hto, hcounts, (follow_eq_error_iff_of_counts hto hcounts).1 h⟩
        · obtain ⟨e, he, hmiscounts⟩ := exists_error_of_not_counts hto hcounts
          obtain rfl := Except.error.inj (h.symm.trans he)
          cases hmiscounts
  · rintro ⟨before, hto, hcounts, h⟩
    exact (follow_eq_error_iff_of_counts hto hcounts).2 h

/-! ## Whole chains -/

/-- A chain is given up after so many back-pointers if there are that many that pass their checks.
-/
theorem follow_eq_cyclic_iff :
    follow table direction fuel record = .error .cyclic ↔
      ∃ pointers last, table.LeadsBack record pointers last ∧ pointers.length = fuel ∧
        ∀ p ∈ pointers, p.Counts := by
  -- each back-pointer takes one off the fuel, and nothing else ends the chain as too long
  induction fuel generalizing record with
  | zero =>
    constructor
    · intro _
      exact ⟨[], record, .here record, rfl, by simp⟩
    · intro _
      rfl
  | succ fuel ih =>
    rw [follow_eq_cyclic_succ_iff]
    constructor
    · rintro ⟨before, ⟨previous, hprevious, hbefore⟩, hfirst, h⟩
      obtain ⟨pointers, last, hbehind, hlength, hcounts⟩ := ih.1 h
      exact ⟨_, last, .back hprevious hbefore hbehind, by rw [List.length_cons, hlength],
        List.forall_mem_cons.2 ⟨hfirst, hcounts⟩⟩
    · rintro ⟨pointers, last, hback, hlength, hcounts⟩
      cases hback with
      | here record => cases hlength
      | back hprevious hbefore hbehind =>
        obtain ⟨hfirst, hrest⟩ := List.forall_mem_cons.1 hcounts
        exact ⟨_, ⟨_, hprevious, hbefore⟩, hfirst,
          ih.2 ⟨_, last, hbehind, Nat.succ.inj hlength, hrest⟩⟩

/-- A chain on which a record always leads to another one is given up, or its rounds do not add up.
-/
theorem exists_error_of_leadsTo
    (h : ∀ pointers last, table.LeadsBack record pointers last →
      ∃ before, table.LeadsTo last before) :
    ∃ e, follow table direction fuel record = .error e ∧ (e = .cyclic ∨ e.miscounts = true) := by
  -- what is behind the next record is behind this one too, so the assumption carries over
  induction fuel generalizing record with
  | zero => exact ⟨.cyclic, rfl, Or.inl rfl⟩
  | succ fuel ih =>
    obtain ⟨before, hto⟩ := h [] record (.here record)
    by_cases hcounts : (⟨record, before⟩ : BackPointer).Counts
    · obtain ⟨previous, hprevious, hbefore⟩ := hto
      have hbehind : ∀ pointers last, table.LeadsBack before pointers last →
          ∃ next, table.LeadsTo last next := by
        intro pointers last hback
        exact h _ last (.back hprevious hbefore hback)
      obtain ⟨e, he, hkind⟩ := ih hbehind
      exact ⟨e, (follow_eq_error_iff_of_counts ⟨previous, hprevious, hbefore⟩ hcounts).2 he, hkind⟩
    · obtain ⟨e, he, hmiscounts⟩ := exists_error_of_not_counts hto hcounts
      exact ⟨e, he, Or.inr hmiscounts⟩

end Trail

namespace Trail

variable {table : Arrivals} {direction : Direction} {record : ArrivalRecord}

/-- Following more back-pointers than there are records is enough to tell that a chain is endless.
-/
theorem follow_eq_cyclic_iff_endless (hrecord : record ∈ table.records) :
    follow table direction (table.size + 1) record = .error .cyclic ↔ table.Endless record := by
  rw [follow_eq_cyclic_iff]
  constructor
  · rintro ⟨pointers, last, hback, hlength, hcounts⟩
    obtain ⟨lead, loop, rest, x, rfl, hne, hlead, hloop⟩ := hback.exists_loop hrecord (by omega)
    exact Arrivals.endless_of_loop hlead hloop hne fun p hp =>
      hcounts p (List.mem_append_left _ hp)
  · intro h
    exact h.exists_leadsBack (table.size + 1)

/-- A chain that comes round to a ride miscounts its rounds. -/
theorem exists_miscount_of_loop (direction : Direction) {lead loop : List BackPointer}
    {x : ArrivalRecord}
    (hrecord : record ∈ table.records) (hlead : table.LeadsBack record lead x)
    (hloop : table.LeadsBack x loop x) (hride : ∃ p ∈ loop, p.record.approach.isRide = true) :
    ∃ e, follow table direction (table.size + 1) record = .error e ∧ e.miscounts = true := by
  obtain ⟨p, hp, hride⟩ := hride
  have hne : loop ≠ [] := List.ne_nil_of_mem hp
  have hleads : ∀ pointers last, table.LeadsBack record pointers last →
      ∃ before, table.LeadsTo last before := by
    intro pointers last hback
    obtain ⟨q, hq, rfl⟩ := LeadsBack.exists_mem_of_loop hlead hloop hne hback
    exact ⟨q.before, (hlead.append hloop).leadsTo hq⟩
  obtain ⟨e, he, rfl | hmiscounts⟩ := exists_error_of_leadsTo hleads
  · -- the bound is not reached: an endless chain comes round to walks only
    have hendless := (follow_eq_cyclic_iff_endless hrecord).1 he
    obtain ⟨previous, duration, hwalk⟩ := hendless.walk_of_loop hlead hloop hp
    rw [hwalk] at hride
    cases hride
  · exact ⟨e, he, hmiscounts⟩

theorem ofArrival_of_get? {arrival : FinalArrival} (h : table.get? arrival.previous = some record)
    (hstop : record.stop = arrival.egress.stop) :
    ofArrival table direction arrival =
      (do expectRound record arrival.round; follow table direction (table.size + 1) record) := by
  rw [ofArrival, lookup_eq_ok_iff.2 h, ok_bind, if_neg (not_not_intro hstop)]

theorem ofArrival_eq_cyclic_iff {arrival : FinalArrival} :
    ofArrival table direction arrival = .error .cyclic ↔
      ∃ record, table.get? arrival.previous = some record ∧ record.stop = arrival.egress.stop ∧
        record.round = arrival.round ∧ table.Endless record := by
  constructor
  · intro h
    cases hrecord : table.get? arrival.previous with
    | none =>
      rw [ofArrival, lookup_eq_error hrecord] at h
      cases h
    | some record =>
      by_cases hstop : record.stop = arrival.egress.stop
      · rw [ofArrival_of_get? hrecord hstop] at h
        by_cases hround : record.round = arrival.round
        · have hchecked : expectRound record arrival.round = .ok () :=
            expectRound_eq_ok_iff.2 hround
          rw [hchecked, ok_bind] at h
          exact ⟨record, rfl, hstop, hround,
            (follow_eq_cyclic_iff_endless (mem_records_of_get? hrecord)).1 h⟩
        · rw [expectRound_eq_error hround] at h
          cases h
      · rw [ofArrival, lookup_eq_ok_iff.2 hrecord, ok_bind, if_pos hstop] at h
        cases h
  · rintro ⟨record, hrecord, hstop, hround, hendless⟩
    have hchecked : expectRound record arrival.round = .ok () := expectRound_eq_ok_iff.2 hround
    rw [ofArrival_of_get? hrecord hstop, hchecked, ok_bind]
    exact (follow_eq_cyclic_iff_endless (mem_records_of_get? hrecord)).2 hendless

/-! ## Counting back-pointers -/

/-- A step that counts the back-pointers that it follows. -/
abbrev Counting : Type → Type := ExceptT ReconstructionError (StateM Nat)

namespace Counting

variable {α β : Type} {bound bound' : Nat}

/-- A step that follows no back-pointer. -/
def free (x : Except ReconstructionError α) : Counting α := ExceptT.mk (pure x)

/-- Follows a back-pointer, to a record or to none. -/
def lookup (table : Arrivals) (id : RecordId) : Counting ArrivalRecord := do
  modify (· + 1)
  free (Trail.lookup table id)

/-- A step that counts has the outcome of one that does not, within a number of back-pointers. -/
def Agrees (bound : Nat) (x : Counting α) (y : Except ReconstructionError α) : Prop :=
  ∀ n, ∃ count ≤ bound, x.run n = (y, n + count)

theorem agrees_free (x : Except ReconstructionError α) : Agrees 0 (free x) x :=
  fun n => ⟨0, Nat.le_refl 0, by rfl⟩

theorem agrees_lookup (table : Arrivals) (id : RecordId) :
    Agrees 1 (lookup table id) (Trail.lookup table id) :=
  fun n => ⟨1, Nat.le_refl 1, by rfl⟩

theorem Agrees.bind {x : Counting α} {y : Except ReconstructionError α} {f : α → Counting β}
    {g : α → Except ReconstructionError β} (hx : Agrees bound x y)
    (hf : ∀ a, Agrees bound' (f a) (g a)) : Agrees (bound + bound') (x >>= f) (y >>= g) := by
  intro n
  obtain ⟨count, hcount, hrun⟩ := hx n
  have hbind : (x >>= f).run n =
      match x.run n with
      | (.ok a, m) => (f a).run m
      | (.error e, m) => (.error e, m) := by
    show (ExceptT.bindCont f (x.run n).1) (x.run n).2 = _
    rcases x.run n with ⟨a | e, m⟩ <;> rfl
  rw [hbind, hrun]
  cases y with
  | ok a =>
    obtain ⟨count', hcount', hrun'⟩ := hf a (n + count)
    exact ⟨count + count', by omega, by rw [← Nat.add_assoc]; exact hrun'⟩
  | error e => exact ⟨count, by omega, rfl⟩

theorem Agrees.mono {x : Counting α} {y : Except ReconstructionError α} (h : Agrees bound x y)
    (hle : bound ≤ bound') : Agrees bound' x y := by
  intro n
  obtain ⟨count, hcount, hrun⟩ := h n
  exact ⟨count, Nat.le_trans hcount hle, hrun⟩

end Counting

/-- `follow`, counting. -/
def followCounting (table : Arrivals) (direction : Direction) :
    Nat → ArrivalRecord → Counting Trail
  | 0, _ => .free (.error .cyclic)
  | fuel + 1, record =>
    match record.approach with
    | .access walk =>
      if walk.stop ≠ record.stop then
        .free (.error (.walkMismatch walk.stop record.stop))
      else do
        .free (expectRound record 0)
        return { steps := [], start := walk, anchor := record.time }
    | .ride previous hop => do
      let before ← .lookup table previous
      if record.round = 0 then
        .free (.error (.legOrder .rideInRoundZero))
      else
        .free (expectRound before (record.round - 1))
        let trail ← followCounting table direction fuel before
        return { trail with steps := recordedRide direction hop before record :: trail.steps }
    | .walk previous duration => do
      let before ← .lookup table previous
      .free (expectRound before record.round)
      let trail ← followCounting table direction fuel before
      return { trail with steps := .walk duration :: trail.steps }

/-- `Trail.ofArrival`, counting the back-pointers of records. -/
def ofArrivalCounting (table : Arrivals) (direction : Direction) (arrival : FinalArrival) :
    Counting Trail := do
  let record ← .free (lookup table arrival.previous)
  if record.stop ≠ arrival.egress.stop then
    .free (.error (.walkMismatch arrival.egress.stop record.stop))
  else
    .free (expectRound record arrival.round)
    followCounting table direction (table.size + 1) record

open Counting (agrees_free agrees_lookup)

theorem agrees_followCounting (fuel : Nat) (record : ArrivalRecord) :
    (followCounting table direction fuel record).Agrees fuel
      (follow table direction fuel record) := by
  induction fuel generalizing record with
  | zero => exact agrees_free _
  | succ fuel ih =>
    unfold followCounting follow
    cases record.approach with
    | access walk =>
      dsimp only
      split
      · exact (agrees_free _).mono (Nat.zero_le _)
      · exact ((agrees_free _).bind fun _ => agrees_free _).mono (Nat.zero_le _)
    | ride previous hop =>
      -- one for the look-up, and what is left of the fuel for the rest
      rw [Nat.add_comm]
      refine (agrees_lookup _ _).bind fun before => ?_
      split
      · exact (agrees_free _).mono (Nat.zero_le _)
      · refine ((agrees_free _).bind fun _ => (ih before).bind fun trail => agrees_free _).mono ?_
        omega
    | walk previous duration =>
      rw [Nat.add_comm]
      refine (agrees_lookup _ _).bind fun before => ?_
      refine ((agrees_free _).bind fun _ => (ih before).bind fun trail => agrees_free _).mono ?_
      omega

/-- Following the chain of an arrival takes one more back-pointer than there are records at most. -/
theorem agrees_ofArrivalCounting (table : Arrivals) (direction : Direction)
    (arrival : FinalArrival) :
    (ofArrivalCounting table direction arrival).Agrees (table.size + 1)
      (ofArrival table direction arrival) := by
  refine ((agrees_free _).bind fun record => ?_ :
    Counting.Agrees (0 + (table.size + 1)) _ _).mono (by omega)
  split
  · exact (agrees_free _).mono (Nat.zero_le _)
  · refine ((agrees_free _).bind fun _ => agrees_followCounting _ record).mono ?_
    omega

end Trail

namespace RecordedJourney

variable {network : Network} {slack : SlackPolicy} {direction : Direction} {table : Arrivals}
  {arrival : FinalArrival}

theorem ofArrival_eq_error {e : ReconstructionError}
    (h : Trail.ofArrival table direction arrival = .error e) :
    ofArrival network slack direction table arrival = .error e := by
  rw [ofArrival, h]
  rfl

/-- Only following back-pointers gives a chain up as endless. -/
theorem ofArrival_eq_cyclic_iff :
    ofArrival network slack direction table arrival = .error .cyclic ↔
      Trail.ofArrival table direction arrival = .error .cyclic := by
  constructor
  · intro h
    cases htrail : Trail.ofArrival table direction arrival with
    | error e =>
      rw [ofArrival_eq_error htrail] at h
      rw [Except.error.inj h]
    | ok trail =>
      have hkind := avoids_ofArrival spares_breaksChain network slack htrail _ h
      cases hkind
  · exact ofArrival_eq_error

/-- How loops in a table are dealt with. -/
structure RecognisesLoops (network : Network) (slack : SlackPolicy) (direction : Direction)
    (table : Arrivals) (arrival : FinalArrival) : Prop where
  /-- Following the chain takes one more back-pointer than there are records at most. -/
  bounded : ∃ count ≤ table.size + 1, (Trail.ofArrivalCounting table direction arrival).run 0 =
    (Trail.ofArrival table direction arrival, count)
  /-- A chain from the street is not given up. -/
  street : ∀ record pointers last walk, table.get? arrival.previous = some record →
    table.LeadsBack record pointers last → last.approach = .access walk →
    ofArrival network slack direction table arrival ≠ .error .cyclic
  /-- The chain is given up if it would never end. -/
  cyclic_iff : ofArrival network slack direction table arrival = .error .cyclic ↔
    ∃ record, table.get? arrival.previous = some record ∧ record.stop = arrival.egress.stop ∧
      record.round = arrival.round ∧ table.Endless record
  /-- Then it runs into a loop, and there are only walks in the loop. -/
  walks : ofArrival network slack direction table arrival = .error .cyclic →
    ∃ record, table.get? arrival.previous = some record ∧
      (∃ lead loop x, table.LeadsBack record lead x ∧ table.LeadsBack x loop x ∧ loop ≠ []) ∧
      ∀ lead loop x, table.LeadsBack record lead x → table.LeadsBack x loop x →
        ∀ p ∈ loop, ∃ previous duration, p.record.approach = .walk previous duration
  /-- A loop with a ride in it fails on its rounds, never because it is too long. -/
  rides : ∀ record lead loop x, table.get? arrival.previous = some record →
    record.stop = arrival.egress.stop → table.LeadsBack record lead x →
    table.LeadsBack x loop x → (∃ p ∈ loop, p.record.approach.isRide = true) →
    ∃ e, ofArrival network slack direction table arrival = .error e ∧ e.miscounts = true

/-- Whatever the records of a table are, following a chain ends, and loops are told apart. -/
theorem ofArrival_recognises_loops (network : Network) (slack : SlackPolicy)
    (direction : Direction) (table : Arrivals) (arrival : FinalArrival) :
    RecognisesLoops network slack direction table arrival := by
  have hcyclic : ofArrival network slack direction table arrival = .error .cyclic ↔ _ :=
    ofArrival_eq_cyclic_iff.trans Trail.ofArrival_eq_cyclic_iff
  refine ⟨?_, ?_, hcyclic, ?_, ?_⟩
  · obtain ⟨count, hcount, hrun⟩ := Trail.agrees_ofArrivalCounting table direction arrival 0
    rw [Nat.zero_add] at hrun
    exact ⟨count, hcount, hrun⟩
  · intro record pointers last walk hrecord hback hlast h
    obtain ⟨record', hrecord', -, -, hendless⟩ := hcyclic.1 h
    obtain rfl := Option.some.inj (hrecord'.symm.trans hrecord)
    exact hendless.offStreet _ _ walk hback hlast
  · intro h
    obtain ⟨record, hrecord, -, -, hendless⟩ := hcyclic.1 h
    obtain ⟨pointers, last, hback, hlength, -⟩ := hendless.exists_leadsBack (table.size + 1)
    obtain ⟨lead, loop, rest, x, -, hne, hlead, hloop⟩ :=
      hback.exists_loop (Trail.mem_records_of_get? hrecord) (by omega)
    refine ⟨record, hrecord, ⟨lead, loop, x, hlead, hloop, hne⟩, ?_⟩
    intro lead loop x hlead hloop p hp
    exact hendless.walk_of_loop hlead hloop hp
  · intro record lead loop x hrecord hstop hlead hloop hride
    by_cases hround : record.round = arrival.round
    · obtain ⟨e, he, hmiscounts⟩ := Trail.exists_miscount_of_loop direction
        (Trail.mem_records_of_get? hrecord) hlead hloop hride
      have hchecked : Trail.expectRound record arrival.round = .ok () :=
        Trail.expectRound_eq_ok_iff.2 hround
      refine ⟨e, ofArrival_eq_error ?_, hmiscounts⟩
      rw [Trail.ofArrival_of_get? hrecord hstop, hchecked, ok_bind, he]
    · refine ⟨.roundMismatch arrival.round record.round, ofArrival_eq_error ?_, rfl⟩
      rw [Trail.ofArrival_of_get? hrecord hstop, Trail.expectRound_eq_error hround]
      rfl

/-- Two records, each reached from the other one by a walk. -/
def walkLoop : Arrivals where
  records := #[⟨⟨1⟩, 0, .ofHms 8 0 0, .walk ⟨1⟩ Span.zero⟩,
    ⟨⟨2⟩, 0, .ofHms 8 0 0, .walk ⟨0⟩ Span.zero⟩]

/-- A record that is reached from itself by a ride. -/
def rideLoop : Arrivals where
  records := #[⟨⟨1⟩, 1, .ofHms 8 0 0, .ride ⟨0⟩ ⟨⟨⟨0⟩, 0⟩, 0, 1⟩⟩]

example (network : Network) (slack : SlackPolicy) :
    ofArrival network slack .forward walkLoop ⟨⟨0⟩, ⟨⟨1⟩, Span.zero⟩, .ofHms 8 0 0, 0⟩ =
      .error .cyclic := rfl

example (network : Network) (slack : SlackPolicy) :
    ofArrival network slack .forward rideLoop ⟨⟨0⟩, ⟨⟨1⟩, Span.zero⟩, .ofHms 8 0 0, 1⟩ =
      .error (.roundMismatch 0 1) := rfl

end RecordedJourney

end Journeys
