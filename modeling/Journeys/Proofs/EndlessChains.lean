import Journeys.Proofs.BackPointers
import Mathlib.Data.List.Perm.Subperm

/-!
# Proofs: chains without an end

Back-pointers may lead in a circle. A chain of more back-pointers than the table has records goes
through one of them twice (`LeadsBack.exists_loop`), and from there on it only repeats what it went
through before (`LeadsBack.stays`). So a chain that passes its checks for that long passes them for
ever (`endless_of_loop`).

Rounds only ever fall along a chain that passes its checks, and they fall at every ride. A chain
that comes round to a record again is in the same round there, and has gone through walks only.
-/

namespace Journeys

/-- The round check of a back-pointer: a ride comes from the round before, a walk from the same
round. -/
def BackPointer.Counts (p : BackPointer) : Prop :=
  match p.record.approach with
  | .access _ => False
  | .ride _ _ => p.record.round = p.before.round + 1
  | .walk _ _ => p.record.round = p.before.round

/-- A stop is reached by a ride. -/
def Approach.isRide : Approach → Bool
  | ride _ _ => true
  | _ => false

namespace Arrivals

variable {table : Arrivals}

/-! ## Chains that come round -/

/-- A back-pointer leads from one record to another. -/
def LeadsTo (table : Arrivals) (record before : ArrivalRecord) : Prop :=
  ∃ previous, record.approach.previous? = some previous ∧ table.get? previous = some before

theorem LeadsTo.unique {record before before' : ArrivalRecord} (h : table.LeadsTo record before)
    (h' : table.LeadsTo record before') : before = before' := by
  obtain ⟨previous, hprevious, hbefore⟩ := h
  obtain ⟨previous', hprevious', hbefore'⟩ := h'
  obtain rfl := Option.some.inj (hprevious.symm.trans hprevious')
  exact Option.some.inj (hbefore.symm.trans hbefore')

namespace LeadsBack

variable {record last : ArrivalRecord} {pointers : List BackPointer}

theorem leadsTo (h : table.LeadsBack record pointers last) {p : BackPointer} (hp : p ∈ pointers) :
    table.LeadsTo p.record p.before := by
  induction h with
  | here record => cases hp
  | back hprevious hbefore _ ih =>
    rcases List.mem_cons.1 hp with rfl | hp
    · exact ⟨_, hprevious, hbefore⟩
    · exact ih hp

theorem record_mem (h : table.LeadsBack record pointers last) (hrecord : record ∈ table.records) :
    ∀ p ∈ pointers, p.record ∈ table.records := by
  induction h with
  | here record => simp
  | back _ hbefore _ ih =>
    exact List.forall_mem_cons.2 ⟨hrecord, ih (Trail.mem_records_of_get? hbefore)⟩

theorem split (h : table.LeadsBack record pointers last) {x : ArrivalRecord}
    (hx : x ∈ pointers.map BackPointer.record) :
    ∃ first rest, pointers = first ++ rest ∧ table.LeadsBack record first x ∧
      table.LeadsBack x rest last := by
  induction h with
  | here record => simp at hx
  | @back record before last previous pointers hprevious hbefore hbehind ih =>
    by_cases hsame : x = record
    · subst hsame
      exact ⟨[], _, rfl, .here _, .back hprevious hbefore hbehind⟩
    · have hrest : x ∈ pointers.map BackPointer.record := by
        rcases List.mem_cons.1 hx with heq | hmem
        · exact absurd heq hsame
        · exact hmem
      obtain ⟨first, rest, hpointers, hfirst, hlast⟩ := ih hrest
      exact ⟨_ :: first, rest, by rw [hpointers]; rfl, .back hprevious hbefore hfirst, hlast⟩

theorem exists_loop_of_not_nodup (h : table.LeadsBack record pointers last)
    (hdup : ¬(pointers.map BackPointer.record).Nodup) :
    ∃ lead loop rest x, pointers = lead ++ loop ++ rest ∧ loop ≠ [] ∧
      table.LeadsBack record lead x ∧ table.LeadsBack x loop x := by
  induction h with
  | here record => exact absurd List.nodup_nil hdup
  | @back record before last previous pointers hprevious hbefore hbehind ih =>
    by_cases hagain : record ∈ pointers.map BackPointer.record
    · obtain ⟨first, rest, hpointers, hfirst, -⟩ := hbehind.split hagain
      refine ⟨[], ⟨record, before⟩ :: first, rest, record, ?_, List.cons_ne_nil _ _, .here _,
        .back hprevious hbefore hfirst⟩
      rw [hpointers]
      rfl
    · have hrest : ¬(pointers.map BackPointer.record).Nodup := by
        intro hnodup
        exact hdup (List.nodup_cons.2 ⟨hagain, hnodup⟩)
      obtain ⟨lead, loop, rest, x, hpointers, hne, hlead, hloop⟩ := ih hrest
      refine ⟨⟨record, before⟩ :: lead, loop, rest, x, ?_, hne, .back hprevious hbefore hlead,
        hloop⟩
      rw [hpointers]
      rfl

/-- A chain of more back-pointers than there are records goes through a loop. -/
theorem exists_loop (h : table.LeadsBack record pointers last) (hrecord : record ∈ table.records)
    (hlength : table.size < pointers.length) :
    ∃ lead loop rest x, pointers = lead ++ loop ++ rest ∧ loop ≠ [] ∧
      table.LeadsBack record lead x ∧ table.LeadsBack x loop x := by
  apply h.exists_loop_of_not_nodup
  intro hnodup
  -- different records of the table cannot be more than there are
  have hsubset : pointers.map BackPointer.record ⊆ table.records.toList := by
    intro x hx
    obtain ⟨p, hp, rfl⟩ := List.mem_map.1 hx
    exact Array.mem_toList_iff.2 (h.record_mem hrecord p hp)
  have hle := (hnodup.subperm hsubset).length_le
  rw [List.length_map, Array.length_toList] at hle
  exact absurd hlength (Nat.not_lt.2 hle)

theorem append {x : ArrivalRecord} {more : List BackPointer}
    (h : table.LeadsBack record pointers last) (hmore : table.LeadsBack last more x) :
    table.LeadsBack record (pointers ++ more) x := by
  induction h with
  | here record => exact hmore
  | back hprevious hbefore _ ih => exact .back hprevious hbefore (ih hmore)

theorem before_eq_or (h : table.LeadsBack record pointers last) {p : BackPointer}
    (hp : p ∈ pointers) : p.before = last ∨ ∃ q ∈ pointers, q.record = p.before := by
  induction h with
  | here record => cases hp
  | back _ _ hbehind ih =>
    rcases List.mem_cons.1 hp with rfl | hp
    · cases hbehind with
      | here record => exact Or.inl rfl
      | back _ _ _ => exact Or.inr ⟨_, List.mem_cons_of_mem _ List.mem_cons_self, rfl⟩
    · rcases ih hp with hlast | ⟨q, hq, hrecord⟩
      · exact Or.inl hlast
      · exact Or.inr ⟨q, List.mem_cons_of_mem _ hq, hrecord⟩

/-- A chain that ends at a record which it went through before never leaves these records. -/
theorem stays (h : table.LeadsBack record pointers last) (hlast : ∃ p ∈ pointers, p.record = last)
    {x y : ArrivalRecord} {more : List BackPointer} (hmore : table.LeadsBack x more y)
    (hx : ∃ p ∈ pointers, p.record = x) : ∃ p ∈ pointers, p.record = y := by
  induction hmore with
  | here record => exact hx
  | back hprevious hbefore _ ih =>
    obtain ⟨p, hp, rfl⟩ := hx
    have hto : p.before = _ := (h.leadsTo hp).unique ⟨_, hprevious, hbefore⟩
    apply ih
    rcases h.before_eq_or hp with heq | ⟨q, hq, hrecord⟩
    · obtain ⟨q, hq, hrecord⟩ := hlast
      exact ⟨q, hq, by rw [hrecord, ← heq, hto]⟩
    · exact ⟨q, hq, by rw [hrecord, hto]⟩

theorem exists_mem_of_ne_nil (h : table.LeadsBack record pointers last) (hne : pointers ≠ []) :
    ∃ p ∈ pointers, p.record = record := by
  cases h with
  | here record => exact absurd rfl hne
  | back _ _ _ => exact ⟨_, List.mem_cons_self, rfl⟩

/-- A chain that runs into a loop never ends: from every record on it goes along one of its own
back-pointers. -/
theorem exists_mem_of_loop {lead loop : List BackPointer} {x y : ArrivalRecord}
    (hlead : table.LeadsBack record lead x) (hloop : table.LeadsBack x loop x) (hne : loop ≠ [])
    {more : List BackPointer} (hmore : table.LeadsBack record more y) :
    ∃ p ∈ lead ++ loop, p.record = y := by
  have hall := hlead.append hloop
  obtain ⟨p, hp, hx⟩ := hloop.exists_mem_of_ne_nil hne
  have hback : ∃ p ∈ lead ++ loop, p.record = x := ⟨p, List.mem_append_right _ hp, hx⟩
  have hstart : ∃ p ∈ lead ++ loop, p.record = record :=
    hall.exists_mem_of_ne_nil (List.append_ne_nil_of_right_ne_nil _ hne)
  exact hall.stays hback hmore hstart

/-! ## Rounds along a chain -/

/-- Along a chain that passes its checks the round falls by one at each ride. -/
theorem round_eq (h : table.LeadsBack record pointers last) (hcounts : ∀ p ∈ pointers, p.Counts) :
    record.round = last.round + pointers.countP fun p => p.record.approach.isRide := by
  induction h with
  | here record => rfl
  | @back record before last previous pointers hprevious hbefore hbehind ih =>
    obtain ⟨hfirst, hrest⟩ := List.forall_mem_cons.1 hcounts
    have hbehind := ih hrest
    unfold BackPointer.Counts at hfirst
    cases happroach : record.approach with
    | access walk => simp [happroach] at hfirst
    | ride previous hop =>
      simp only [happroach] at hfirst
      rw [List.countP_cons_of_pos (by simp [happroach, Approach.isRide]), hfirst, hbehind]
      omega
    | walk previous duration =>
      simp only [happroach] at hfirst
      rw [List.countP_cons_of_neg (by simp [happroach, Approach.isRide]), hfirst, hbehind]

theorem isRide_eq_false_of_loop {x : ArrivalRecord} {loop : List BackPointer}
    (h : table.LeadsBack x loop x) (hcounts : ∀ p ∈ loop, p.Counts) :
    ∀ p ∈ loop, p.record.approach.isRide = false := by
  have hround := h.round_eq hcounts
  have hzero : (loop.countP fun p => p.record.approach.isRide) = 0 := by omega
  intro p hp
  simpa using List.countP_eq_zero.1 hzero p hp

end LeadsBack

end Arrivals

/-! ## Chains without an end -/

namespace Arrivals

variable {table : Arrivals} {record : ArrivalRecord}

/-- The back-pointers from a record pass all their checks and never reach the street. -/
structure Endless (table : Arrivals) (record : ArrivalRecord) : Prop where
  /-- No record that is reached is one of a walk from the street. -/
  offStreet : ∀ pointers last walk, table.LeadsBack record pointers last →
    last.approach ≠ .access walk
  /-- Every back-pointer leads to a record of the round that it should have. -/
  counts : ∀ pointers last previous, table.LeadsBack record pointers last →
    last.approach.previous? = some previous →
    ∃ before, table.get? previous = some before ∧ (⟨last, before⟩ : BackPointer).Counts

/-- From every record on an endless chain a back-pointer leads on. -/
theorem endless_iff :
    table.Endless record ↔ ∀ pointers last, table.LeadsBack record pointers last →
      ∃ before, table.LeadsTo last before ∧ (⟨last, before⟩ : BackPointer).Counts := by
  constructor
  · intro h pointers last hback
    cases hprevious : last.approach.previous? with
    | none =>
      cases happroach : last.approach with
      | access walk => exact absurd happroach (h.offStreet _ _ walk hback)
      | ride id hop => simp [happroach, Approach.previous?] at hprevious
      | walk id duration => simp [happroach, Approach.previous?] at hprevious
    | some previous =>
      obtain ⟨before, hbefore, hcounts⟩ := h.counts _ _ previous hback hprevious
      exact ⟨before, ⟨previous, hprevious, hbefore⟩, hcounts⟩
  · intro h
    refine ⟨fun pointers last walk hback happroach => ?_,
      fun pointers last previous hback hprevious => ?_⟩
    · obtain ⟨before, ⟨previous, hprevious, -⟩, -⟩ := h _ _ hback
      rw [happroach] at hprevious
      cases hprevious
    · obtain ⟨before, ⟨previous', hprevious', hbefore⟩, hcounts⟩ := h _ _ hback
      obtain rfl := Option.some.inj (hprevious'.symm.trans hprevious)
      exact ⟨before, hbefore, hcounts⟩

theorem Endless.exists_leadsBack (h : table.Endless record) (n : Nat) :
    ∃ pointers last, table.LeadsBack record pointers last ∧ pointers.length = n ∧
      ∀ p ∈ pointers, p.Counts := by
  induction n with
  | zero => exact ⟨[], record, .here record, rfl, by simp⟩
  | succ n ih =>
    obtain ⟨pointers, last, hback, hlength, hcounts⟩ := ih
    obtain ⟨before, ⟨previous, hprevious, hbefore⟩, hlast⟩ := endless_iff.1 h _ _ hback
    have hmore : table.LeadsBack last [⟨last, before⟩] before :=
      .back hprevious hbefore (.here before)
    refine ⟨_, before, hback.append hmore, by simp [hlength], ?_⟩
    exact List.forall_mem_append.2 ⟨hcounts, by simpa using hlast⟩

/-- A chain that comes round and passes its checks until then is endless. -/
theorem endless_of_loop {lead loop : List BackPointer} {x : ArrivalRecord}
    (hlead : table.LeadsBack record lead x) (hloop : table.LeadsBack x loop x) (hne : loop ≠ [])
    (hcounts : ∀ p ∈ lead ++ loop, p.Counts) : table.Endless record := by
  refine endless_iff.2 fun pointers last hback => ?_
  obtain ⟨p, hp, rfl⟩ := LeadsBack.exists_mem_of_loop hlead hloop hne hback
  exact ⟨p.before, (hlead.append hloop).leadsTo hp, hcounts p hp⟩

theorem Endless.of_leadsBack {last : ArrivalRecord} {pointers : List BackPointer}
    (h : table.Endless record) (hback : table.LeadsBack record pointers last) :
    table.Endless last :=
  endless_iff.2 fun _ _ hmore => endless_iff.1 h _ _ (hback.append hmore)

theorem Endless.counts_of_mem {last : ArrivalRecord} {pointers : List BackPointer}
    (h : table.Endless record) (hback : table.LeadsBack record pointers last) :
    ∀ p ∈ pointers, p.Counts := by
  induction hback with
  | here record => simp
  | back hprevious hbefore hbehind ih =>
    obtain ⟨before, hto, hcounts⟩ := endless_iff.1 h _ _ (.here _)
    obtain rfl := hto.unique ⟨_, hprevious, hbefore⟩
    exact List.forall_mem_cons.2
      ⟨hcounts, ih (h.of_leadsBack (.back hprevious hbefore (.here _)))⟩

/-- On an endless chain, what comes round are walks. -/
theorem Endless.walk_of_loop {lead loop : List BackPointer} {x : ArrivalRecord}
    (h : table.Endless record) (hlead : table.LeadsBack record lead x)
    (hloop : table.LeadsBack x loop x) {p : BackPointer} (hp : p ∈ loop) :
    ∃ previous duration, p.record.approach = .walk previous duration := by
  have hcounts := (h.of_leadsBack hlead).counts_of_mem hloop
  have hride := hloop.isRide_eq_false_of_loop hcounts p hp
  have hp := hcounts p hp
  unfold BackPointer.Counts at hp
  cases happroach : p.record.approach with
  | access walk => simp [happroach] at hp
  | ride previous hop =>
    rw [happroach] at hride
    cases hride
  | walk previous duration => exact ⟨previous, duration, rfl⟩

end Arrivals

end Journeys
