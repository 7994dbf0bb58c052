import Journeys.Proofs.BestTrips
import Journeys.Proofs.ChainFaults

/-!
# Proofs: what a scan selects

What a candidate must keep depends on its own rule, so candidates that can be boarded and candidates
that cannot may follow each other in any order. Still the scan selects the first of all trips that
can be ridden: those before it are passed over one by one (`TripSearch.suitable_of_run`), and where
no trip overtakes at the stop that is held against the recorded time, it does not end too early
(`TripSearch.exists_run_of_suitable`). If there is no such trip, the failure is decided by the first
candidate that can be boarded at all (`TripSearch.eq_of_run_eq_error`).
-/

namespace Journeys

namespace TripSearch

variable {s : TripSearch} {r r' : Ridden} {c : Trip × Nat}

/-! ## Trips that can be boarded -/

/-- A trip of the pattern that can be boarded under its own rule, and keeps the recorded time. -/
structure Suitable (s : TripSearch) (r : Ridden) : Prop where
  ride : r.ride = s.ride
  onTrip : r.OnTrip
  boardable : s.Boardable r
  allowed : s.rule? r ≠ some .forbidden
  onTime : r.OnTime s.direction

/-- One place of the list of trips comes before another in search direction. -/
def Ahead (direction : Direction) (i j : Nat) : Prop :=
  match direction with
  | .forward => i < j
  | .reverse => j < i

/-- A trip that can be boarded, but whose transfer is forbidden. No trip that comes before it in
search direction can be boarded, so it is the first of its kind, and before all that are allowed. -/
structure FirstBarred (s : TripSearch) (r : Ridden) : Prop where
  ride : r.ride = s.ride
  onTrip : r.OnTrip
  boardable : s.Boardable r
  barred : s.rule? r = some .forbidden
  first : ∀ r', r'.ride = s.ride → r'.OnTrip → Ahead s.direction r'.trip.trip r.trip.trip →
    ¬s.Boardable r'

/-- The pattern has the positions of the ride, and no candidate asks for a time out of range. -/
structure Scannable (s : TripSearch) : Prop where
  boardPos : s.ride.hop.boardPos < s.ride.pattern.stops.length
  alightPos : s.ride.hop.alightPos < s.ride.pattern.stops.length
  bounds : ∀ trip ∈ s.ride.pattern.trips, s.requirement trip ≠ .error .timeOverflow

theorem exists_requirement_of_ne {trip : Trip} (h : s.requirement trip ≠ .error .timeOverflow) :
    ∃ rule bound, s.requirement trip = .ok (rule, bound) := by
  cases hreq : s.requirement trip with
  | ok req => exact ⟨req.1, req.2, rfl⟩
  | error e =>
    have hoverflow : Avoids (fun e => decide (e ≠ .timeOverflow)) (s.requirement trip) :=
      s.avoids_requirement rfl trip
    obtain rfl : e = .timeOverflow := by simpa using hoverflow e hreq
    exact absurd hreq h

/-! ## Candidates in their order -/

/-- The ride on a candidate. -/
def Considers (s : TripSearch) (c : Trip × Nat) (r : Ridden) : Prop :=
  c ∈ s.candidates ∧ Ridden.ofTrip s.ride ⟨s.ride.hop.trip.pattern, c.2⟩ c.1 = .ok r

theorem Considers.onTrip (h : s.Considers c r) : r.ride = s.ride ∧ r.OnTrip := by
  obtain ⟨hc, hr⟩ := h
  exact ⟨(Ridden.ofTrip_eq_ok_iff.1 hr).1,
    Ridden.onTrip_of_ofTrip hr rfl (mem_candidates.1 hc)⟩

theorem Considers.index_eq (h : s.Considers c r) : r.trip.trip = c.2 := by
  rw [(Ridden.ofTrip_eq_ok_iff.1 h.2).2.1]

theorem Considers.unique (h : s.Considers c r) (h' : s.Considers c r') : r = r' :=
  Except.ok.inj (h.2.symm.trans h'.2)

theorem Considers.eq_of_index {c' : Trip × Nat} (h : s.Considers c r) (h' : s.Considers c' r')
    (hindex : r.trip.trip = r'.trip.trip) : r = r' := by
  rw [h.index_eq, h'.index_eq] at hindex
  have htrip := mem_candidates.1 h.1
  rw [hindex, mem_candidates.1 h'.1] at htrip
  obtain rfl : c = c' := Prod.ext (Option.some.inj htrip).symm hindex
  exact h.unique h'

theorem exists_considers (h : s.Scannable) (hc : c ∈ s.candidates) : ∃ r, s.Considers c r := by
  have hmem : c.1 ∈ s.ride.pattern.trips := List.mem_of_getElem? (mem_candidates.1 hc)
  obtain ⟨r, hr⟩ := Ridden.exists_ofTrip_of_mem hmem h.boardPos h.alightPos _
  exact ⟨r, hc, hr⟩

theorem exists_considers_of_onTrip (hride : r.ride = s.ride) (hon : r.OnTrip) :
    ∃ c, s.Considers c r := by
  obtain ⟨c, hc, hr⟩ := exists_candidate hride hon
  exact ⟨c, hc, hr⟩

theorem Considers.exists_requirement (h : s.Considers c r) (hs : s.Scannable) :
    ∃ bound, s.requirement c.1 = .ok (s.rule? r, bound) ∧
      (s.keeps (s.rule? r) bound r = true ↔ s.Boardable r) := by
  have hmem : c.1 ∈ s.ride.pattern.trips := List.mem_of_getElem? (mem_candidates.1 h.1)
  obtain ⟨rule, bound, hreq⟩ := exists_requirement_of_ne (hs.bounds _ hmem)
  obtain ⟨rfl, hkeeps⟩ := keeps_iff_boardable h.2 hreq
  exact ⟨bound, hreq, hkeeps⟩

theorem pairwise_candidates_ahead (s : TripSearch) :
    s.candidates.Pairwise fun c d => Ahead s.direction c.2 d.2 := by
  have hnumbered : s.ride.pattern.numbered.Pairwise fun c d => c.2 < d.2 := by
    rw [← List.pairwise_map, Pattern.numbered, List.zipIdx_map_snd]
    exact List.pairwise_lt_range'
  unfold candidates Ahead
  cases s.direction with
  | forward => exact hnumbered
  | reverse => exact List.pairwise_reverse.2 hnumbered

theorem not_ahead_of_mem {before behind : List (Trip × Nat)} {c' : Trip × Nat}
    (hcandidates : s.candidates = before ++ c :: behind) (hc' : c' ∈ c :: behind) :
    ¬Ahead s.direction c'.2 c.2 := by
  have hpairs := s.pairwise_candidates_ahead
  rw [hcandidates] at hpairs
  have hbehind := (List.pairwise_cons.1 (List.pairwise_append.1 hpairs).2.1).1
  intro hahead
  rcases List.mem_cons.1 hc' with rfl | hin
  · unfold Ahead at hahead
    split at hahead <;> omega
  · have hafter := hbehind c' hin
    unfold Ahead at hahead hafter
    cases hs : s.direction with
    | forward =>
      simp only [hs] at hahead hafter
      omega
    | reverse =>
      simp only [hs] at hahead hafter
      omega

/-- Where no trip overtakes, a candidate that is on time follows on such ones only. -/
theorem onTime_of_behind (horder : s.InOrder) {before behind : List (Trip × Nat)} {c' : Trip × Nat}
    (hcandidates : s.candidates = before ++ c :: behind) (hr : s.Considers c r)
    (hr' : s.Considers c' r') (hc' : c' ∈ c :: behind) (htime : r'.OnTime s.direction) :
    r.OnTime s.direction := by
  rcases List.mem_cons.1 hc' with rfl | hin
  · rw [hr.unique hr']
    exact htime
  · have hgood := asGoodAs_of_behind horder hcandidates hin hr.2 hr'.2
    exact htime.of_asGoodAs (hr.onTrip.1.trans hr'.onTrip.1.symm) hgood

/-! ## The trip that is selected -/

theorem not_passesOver (hr : s.Considers c r) (hboard : s.Boardable r)
    (hallowed : s.rule? r ≠ some .forbidden) : ¬s.PassesOver c := by
  rintro ⟨rule, bound, r', hreq, hr', hover⟩
  obtain rfl := hr.unique ⟨hr.1, hr'⟩
  obtain ⟨rfl, hkeeps⟩ := keeps_iff_boardable hr' hreq
  rcases hover with hnot | hforbidden
  · rw [hkeeps.2 hboard] at hnot
    cases hnot
  · exact hallowed hforbidden

theorem passesOver_of_not (hr : s.Considers c r) (hs : s.Scannable)
    (h : ¬(s.Boardable r ∧ s.rule? r ≠ some .forbidden)) : s.PassesOver c := by
  obtain ⟨bound, hreq, hkeeps⟩ := hr.exists_requirement hs
  refine ⟨_, bound, r, hreq, hr.2, ?_⟩
  by_cases hforbidden : s.rule? r = some .forbidden
  · exact Or.inr hforbidden
  · refine Or.inl ?_
    rw [← Bool.not_eq_true, hkeeps]
    intro hboard
    exact h ⟨hboard, hforbidden⟩

theorem takes_iff (hr : s.Considers c r) (hs : s.Scannable) : s.Takes c r ↔ s.Suitable r := by
  obtain ⟨hride, hon⟩ := hr.onTrip
  constructor
  · rintro ⟨rule, bound, hreq, -, hkeeps, hallowed, hrecord⟩
    obtain ⟨rfl, hboard⟩ := keeps_iff_boardable hr.2 hreq
    exact ⟨hride, hon, hboard.1 hkeeps, hallowed, (isBeyondRecord_eq_false_iff hride).1 hrecord⟩
  · rintro ⟨-, -, hboard, hallowed, htime⟩
    obtain ⟨bound, hreq, hkeeps⟩ := hr.exists_requirement hs
    exact ⟨_, bound, hreq, hr.2, hkeeps.2 hboard, hallowed,
      (isBeyondRecord_eq_false_iff hride).2 htime⟩

/-- The trip that is found is suitable, and no suitable one comes before it. -/
theorem suitable_of_run (hs : s.Scannable) (h : s.run = .ok r) :
    s.Suitable r ∧ ∀ r', s.Suitable r' → ¬Ahead s.direction r'.trip.trip r.trip.trip := by
  obtain ⟨passed, c, more, hcandidates, hpassed, htakes⟩ := scan_eq_ok_iff.1 h
  have hc : c ∈ s.candidates := by
    rw [hcandidates]
    simp
  have hr : s.Considers c r := by
    obtain ⟨rule, bound, hreq, hr, -⟩ := htakes
    exact ⟨hc, hr⟩
  refine ⟨(takes_iff hr hs).1 htakes, fun r' hr' => ?_⟩
  obtain ⟨c', hcons⟩ := exists_considers_of_onTrip hr'.ride hr'.onTrip
  rw [hcons.index_eq, hr.index_eq]
  have hmem := hcons.1
  rw [hcandidates] at hmem
  rcases List.mem_append.1 hmem with hin | hin
  · -- a suitable trip is not passed over, however the rules of those beside it differ
    exact absurd (hpassed c' hin) (not_passesOver hcons hr'.boardable hr'.allowed)
  · exact not_ahead_of_mem hcandidates hin

/-- If there is a suitable trip, one is found: the first candidate that can be boarded and is
allowed is no later than the suitable one. -/
theorem exists_run_of_suitable (hs : s.Scannable) (horder : s.InOrder) (h : s.Suitable r) :
    ∃ r', s.run = .ok r' := by
  obtain ⟨c, hr⟩ := exists_considers_of_onTrip h.ride h.onTrip
  obtain ⟨before, c', behind, hcandidates, ⟨r', hr', hboard, hallowed⟩, hbefore⟩ :=
    exists_first (P := fun c => ∃ r, s.Considers c r ∧ s.Boardable r ∧ s.rule? r ≠ some .forbidden)
      hr.1 ⟨r, hr, h.boardable, h.allowed⟩
  have hin : c ∈ c' :: behind := by
    have hmem := hr.1
    rw [hcandidates] at hmem
    rcases List.mem_append.1 hmem with hin | hin
    · exact absurd ⟨r, hr, h.boardable, h.allowed⟩ (hbefore c hin)
    · exact hin
  -- the two may have different rules, so only the order of the trips tells that it is on time
  have htime := onTime_of_behind horder hcandidates hr' hr hin h.onTime
  have hpassed : ∀ p ∈ before, s.PassesOver p := by
    intro p hp
    have hmem : p ∈ s.candidates := by
      rw [hcandidates]
      exact List.mem_append_left _ hp
    obtain ⟨x, hx⟩ := exists_considers hs hmem
    apply passesOver_of_not hx hs
    rintro ⟨hboard, hallowed⟩
    exact hbefore p hp ⟨x, hx, hboard, hallowed⟩
  have htakes : s.Takes c' r' :=
    (takes_iff hr' hs).2 ⟨hr'.onTrip.1, hr'.onTrip.2, hboard, hallowed, htime⟩
  exact ⟨r', scan_eq_ok_iff.2 ⟨before, c', behind, hcandidates, hpassed, htakes⟩⟩

/-! ## The failure if there is none -/

/-- Candidates that cannot be boarded leave no trace. -/
theorem scan_of_not_boardable (hs : s.Scannable) {before : List (Trip × Nat)}
    (hbefore : ∀ c ∈ before, ∃ r, s.Considers c r ∧ ¬s.Boardable r) (rest : List (Trip × Nat))
    (skipped : Option ReconstructionError) :
    s.scan (before ++ rest) skipped = s.scan rest skipped := by
  induction before with
  | nil => rfl
  | cons c before ih =>
    obtain ⟨⟨r, hr, hboard⟩, hbefore⟩ := List.forall_mem_cons.1 hbefore
    obtain ⟨bound, hreq, hkeeps⟩ := hr.exists_requirement hs
    have hnot : s.keeps (s.rule? r) bound r = false := by
      rw [← Bool.not_eq_true, hkeeps]
      exact hboard
    rw [List.cons_append, scan_cons hreq hr.2, hnot]
    simpa using ih hbefore

/-- Once a forbidden transfer was passed over, the scan can only fail with it. -/
theorem eq_of_scan_some (hs : s.Scannable) {cs : List (Trip × Nat)}
    (hcs : ∀ c ∈ cs, c ∈ s.candidates) {e e' : ReconstructionError}
    (h : s.scan cs (some e) = .error e') : e' = e := by
  induction cs with
  | nil => exact (Except.error.inj h).symm
  | cons c cs ih =>
    obtain ⟨hc, hcs⟩ := List.forall_mem_cons.1 hcs
    obtain ⟨r, hr⟩ := exists_considers hs hc
    obtain ⟨bound, hreq, -⟩ := hr.exists_requirement hs
    rw [scan_cons hreq hr.2] at h
    split at h
    · exact ih hcs h
    · split at h
      · exact ih hcs h
      · split at h
        · exact (Except.error.inj h).symm
        · cases h

theorem exists_forbidden_of_rule? (h : s.rule? r = some .forbidden) :
    ∃ e, s.forbidden r = some e := by
  unfold rule? at h
  unfold forbidden
  cases hn : s.neighbour with
  | none =>
    simp only [hn] at h
    cases h
  | some n => exact ⟨_, rfl⟩

theorem eq_of_not_ahead {direction : Direction} {i j : Nat} (h : ¬Ahead direction i j)
    (h' : ¬Ahead direction j i) : i = j := by
  unfold Ahead at h h'
  cases direction with
  | forward =>
    simp only at h h'
    omega
  | reverse =>
    simp only at h h'
    omega

/-- The first candidate that can be boarded, between those before it and those behind. -/
structure FirstBoardable (s : TripSearch) (before : List (Trip × Nat)) (c : Trip × Nat)
    (behind : List (Trip × Nat)) (r : Ridden) : Prop where
  split : s.candidates = before ++ c :: behind
  considers : s.Considers c r
  boardable : s.Boardable r
  unboardable : ∀ c ∈ before, ∃ r, s.Considers c r ∧ ¬s.Boardable r

theorem exists_firstBoardable (hs : s.Scannable) (hr : s.Considers c r) (hboard : s.Boardable r) :
    ∃ before c behind r, s.FirstBoardable before c behind r := by
  obtain ⟨before, c, behind, hcandidates, ⟨r, hr, hboard⟩, hbefore⟩ :=
    exists_first (P := fun c => ∃ r, s.Considers c r ∧ s.Boardable r) hr.1 ⟨r, hr, hboard⟩
  refine ⟨before, c, behind, r, hcandidates, hr, hboard, ?_⟩
  intro p hp
  have hmem : p ∈ s.candidates := by
    rw [hcandidates]
    exact List.mem_append_left _ hp
  obtain ⟨x, hx⟩ := exists_considers hs hmem
  exact ⟨x, hx, fun hboard => hbefore p hp ⟨x, hx, hboard⟩⟩

namespace FirstBoardable

variable {before behind : List (Trip × Nat)}

theorem mem_candidates (h : s.FirstBoardable before c behind r) :
    ∀ d ∈ behind, d ∈ s.candidates := by
  intro d hd
  rw [h.split]
  exact List.mem_append_right _ (List.mem_cons_of_mem _ hd)

theorem not_ahead (h : s.FirstBoardable before c behind r) (hride : r'.ride = s.ride)
    (hon : r'.OnTrip) (hboard : s.Boardable r') :
    ¬Ahead s.direction r'.trip.trip r.trip.trip := by
  obtain ⟨c', hr'⟩ := exists_considers_of_onTrip hride hon
  rw [hr'.index_eq, h.considers.index_eq]
  have hmem := hr'.1
  rw [h.split] at hmem
  rcases List.mem_append.1 hmem with hin | hin
  · obtain ⟨x, hx, hnot⟩ := h.unboardable c' hin
    rw [hx.unique hr'] at hnot
    exact absurd hboard hnot
  · exact not_ahead_of_mem h.split hin

theorem eq_of_firstBarred (h : s.FirstBoardable before c behind r) (h' : s.FirstBarred r') :
    r' = r := by
  obtain ⟨hride, hon⟩ := h.considers.onTrip
  obtain ⟨c', hr'⟩ := exists_considers_of_onTrip h'.ride h'.onTrip
  apply hr'.eq_of_index h.considers
  apply eq_of_not_ahead (h.not_ahead h'.ride h'.onTrip h'.boardable)
  intro hahead
  exact h'.first r hride hon hahead h.boardable

theorem run_eq (h : s.FirstBoardable before c behind r) (hs : s.Scannable) :
    s.run =
      if s.rule? r = some .forbidden then s.scan behind (s.forbidden r)
      else if s.isBeyondRecord r then .error (s.failure none)
      else .ok r := by
  obtain ⟨bound, hreq, hkeeps⟩ := h.considers.exists_requirement hs
  rw [run, h.split, scan_of_not_boardable hs h.unboardable, scan_cons hreq h.considers.2,
    hkeeps.2 h.boardable, Option.none_or]
  rfl

end FirstBoardable

theorem run_of_not_boardable (hs : s.Scannable)
    (hnone : ∀ r, r.ride = s.ride → r.OnTrip → ¬s.Boardable r) :
    s.run = .error (s.failure none) := by
  have hall : ∀ c ∈ s.candidates, ∃ r, s.Considers c r ∧ ¬s.Boardable r := by
    intro c hc
    obtain ⟨r, hr⟩ := exists_considers hs hc
    exact ⟨r, hr, hnone r hr.onTrip.1 hr.onTrip.2⟩
  have hscan := scan_of_not_boardable hs hall [] none
  rw [List.append_nil] at hscan
  exact hscan

/-- How a scan fails is decided by the first candidate that can be boarded: the failure names its
transfer if that is forbidden, and otherwise no trip was found. -/
theorem eq_of_run_eq_error (hs : s.Scannable) {e : ReconstructionError} (h : s.run = .error e) :
    (∃ r, s.FirstBarred r ∧ s.forbidden r = some e) ∨
      (∀ r, ¬s.FirstBarred r) ∧ e = .tripNotFound s.ride.hop.trip.pattern s.ride.time := by
  by_cases hany : ∃ r, r.ride = s.ride ∧ r.OnTrip ∧ s.Boardable r
  · obtain ⟨x, hride, hon, hboard⟩ := hany
    obtain ⟨cx, hx⟩ := exists_considers_of_onTrip hride hon
    obtain ⟨before, c, behind, r, hfirst⟩ := exists_firstBoardable hs hx hboard
    rw [hfirst.run_eq hs] at h
    by_cases hrule : s.rule? r = some .forbidden
    · obtain ⟨e', he'⟩ := exists_forbidden_of_rule? hrule
      rw [if_pos hrule, he'] at h
      obtain rfl := eq_of_scan_some hs hfirst.mem_candidates h
      obtain ⟨hride, hon⟩ := hfirst.considers.onTrip
      refine Or.inl ⟨r, ⟨hride, hon, hfirst.boardable, hrule, ?_⟩, he'⟩
      intro r' hride' hon' hahead hboard'
      exact hfirst.not_ahead hride' hon' hboard' hahead
    · rw [if_neg hrule] at h
      refine Or.inr ⟨?_, ?_⟩
      · intro r' hr'
        rw [← hfirst.eq_of_firstBarred hr'] at hrule
        exact hrule hr'.barred
      · split at h
        · exact (Except.error.inj h).symm
        · cases h
  · have hnone : ∀ r, r.ride = s.ride → r.OnTrip → ¬s.Boardable r := by
      intro r hride hon hboard
      exact hany ⟨r, hride, hon, hboard⟩
    rw [run_of_not_boardable hs hnone] at h
    refine Or.inr ⟨?_, (Except.error.inj h).symm⟩
    intro r hr
    exact hnone r hr.ride hr.onTrip hr.boardable

theorem FirstBarred.unique (h : s.FirstBarred r) (h' : s.FirstBarred r') : r = r' := by
  obtain ⟨c, hr⟩ := exists_considers_of_onTrip h.ride h.onTrip
  obtain ⟨c', hr'⟩ := exists_considers_of_onTrip h'.ride h'.onTrip
  apply hr.eq_of_index hr'
  apply eq_of_not_ahead
  · intro hahead
    exact h'.first r h.ride h.onTrip hahead h.boardable
  · intro hahead
    exact h.first r' h'.ride h'.onTrip hahead h'.boardable

/-- What a scan selects. -/
structure Selects (s : TripSearch) (result : Except ReconstructionError Ridden) : Prop where
  /-- The trip that is found is the first suitable one in search direction. -/
  found : ∀ r, result = .ok r ↔
    s.Suitable r ∧ ∀ r', s.Suitable r' → r' = r ∨ Ahead s.direction r.trip.trip r'.trip.trip
  /-- It fails exactly if there is none. -/
  fails : (∃ e, result = .error e) ↔ ∀ r, ¬s.Suitable r
  /-- Then the failure names a forbidden transfer if one comes first among all that have time. -/
  forbidden : ∀ e, result = .error e → ∀ n r, s.neighbour = some n → s.FirstBarred r →
    e = match s.direction with
      | .forward => .forbiddenTransfer n.ridden.tripId r.tripId s.ride.board
      | .reverse => .forbiddenTransfer r.tripId n.ridden.tripId n.ridden.ride.board
  /-- Otherwise it says that no trip was found. -/
  notFound : ∀ e, result = .error e → (∀ r, ¬s.FirstBarred r) →
    e = .tripNotFound s.ride.hop.trip.pattern s.ride.time

theorem Suitable.eq_or_ahead (h : s.Suitable r) (h' : s.Suitable r')
    (hnot : ¬Ahead s.direction r'.trip.trip r.trip.trip) :
    r' = r ∨ Ahead s.direction r.trip.trip r'.trip.trip := by
  by_cases hahead : Ahead s.direction r.trip.trip r'.trip.trip
  · exact Or.inr hahead
  · obtain ⟨c, hr⟩ := exists_considers_of_onTrip h.ride h.onTrip
    obtain ⟨c', hr'⟩ := exists_considers_of_onTrip h'.ride h'.onTrip
    exact Or.inl (hr'.eq_of_index hr (eq_of_not_ahead hnot hahead))

theorem selects_run (hs : s.Scannable) (horder : s.InOrder) : s.Selects s.run := by
  refine ⟨fun r => ⟨fun h => ?_, fun ⟨hr, hbest⟩ => ?_⟩, ⟨?_, ?_⟩, ?_, ?_⟩
  · obtain ⟨hr, hbest⟩ := suitable_of_run hs h
    exact ⟨hr, fun r' hr' => hr.eq_or_ahead hr' (hbest r' hr')⟩
  · obtain ⟨r', hrun⟩ := exists_run_of_suitable hs horder hr
    obtain ⟨hr', hbest'⟩ := suitable_of_run hs hrun
    rcases hbest r' hr' with rfl | hbehind
    · exact hrun
    · exact absurd hbehind (hbest' r hr)
  · rintro ⟨e, he⟩ r hr
    obtain ⟨r', hrun⟩ := exists_run_of_suitable hs horder hr
    rw [hrun] at he
    cases he
  · intro hnone
    cases hrun : s.run with
    | error e => exact ⟨e, rfl⟩
    | ok r => exact absurd (suitable_of_run hs hrun).1 (hnone r)
  · intro e he n r hn hr
    rcases eq_of_run_eq_error hs he with ⟨r', hr', hforbidden⟩ | ⟨hnone, -⟩
    · obtain rfl := hr.unique hr'
      rw [TripSearch.forbidden, hn] at hforbidden
      exact (Option.some.inj hforbidden).symm
    · exact absurd hr (hnone r)
  · intro e he hnone
    rcases eq_of_run_eq_error hs he with ⟨r, hr, -⟩ | ⟨-, hfailure⟩
    · exact absurd hr (hnone r)
    · exact hfailure

end TripSearch

/-- The search for the trip of one ride beside its neighbour. -/
def TripChoice.search (c : TripChoice) (ride : RecordedRide) (neighbour : Option Neighbour) :
    TripSearch :=
  { direction := c.direction, rules := c.rules, anchor := c.anchor, ride, neighbour }

namespace Reconstruction

/-- For every ride of a recorded journey, beside any ride whose trip is known, the search finds the
first trip of the pattern that can be boarded under its own rule, is allowed and keeps the recorded
time. -/
theorem choose_selects (c : Reconstruction) {table : Arrivals} {arrival : FinalArrival}
    {recorded : RecordedJourney} {ride : RecordedRide} (neighbour : Option Neighbour)
    (hexact : c.approximate = false)
    (hrecorded : RecordedJourney.ofArrival c.network c.slack c.direction table arrival =
      .ok recorded)
    (hride : ride ∈ recorded.rides.toList)
    (hbounds : ∀ trip ∈ ride.pattern.trips,
      ((c.choice recorded.anchor).search ride neighbour).requirement trip ≠ .error .timeOverflow)
    (horder : ((c.choice recorded.anchor).search ride neighbour).InOrder) :
    ((c.choice recorded.anchor).search ride neighbour).Selects
      ((c.choice recorded.anchor).choose ride neighbour) := by
  have hresolved := (RecordedJourney.sound_of_ofArrival hrecorded).resolved ride hride
  have hchoose : (c.choice recorded.anchor).choose ride neighbour =
      ((c.choice recorded.anchor).search ride neighbour).run := by
    rw [TripChoice.choose, show (c.choice recorded.anchor).approximate = false from hexact]
    rfl
  rw [hchoose]
  exact TripSearch.selects_run ⟨hresolved.boardPos_lt, hresolved.alightPos_lt, hbounds⟩ horder

/-- A rule that forbids the change from the feeder to the late connection. -/
def lateForbidden : TransferRules :=
  TransferRules.atEnds [(⟨⟨"feeder"⟩, ⟨2⟩, 1⟩, ⟨⟨"late"⟩, ⟨2⟩, 0⟩, .forbidden)]

/-- Behind the feeder, the early connection is missed and the late one forbidden. -/
theorem choose_selects_later :
    let choice := (feederSearch lateForbidden false).choice feederRecorded.anchor
    let neighbour : Option Neighbour := some ⟨feederLater.first, none⟩
    choice.choose onwardRide neighbour =
        .ok ⟨onwardRide, ⟨⟨1⟩, 2⟩, ⟨"later"⟩, .ofHms 8 30 0, .ofHms 8 50 0⟩ ∧
      (choice.search onwardRide neighbour).Selects (choice.choose onwardRide neighbour) := by
  have hrecorded : RecordedJourney.ofArrival (Network.ofPatterns [feederPattern, onwardPattern])
      UniformSlack.zero.policy .forward feederTable feederArrival = .ok feederRecorded := rfl
  intro choice neighbour
  refine ⟨rfl, choose_selects (feederSearch lateForbidden false) neighbour rfl hrecorded
    (by simp [feederRecorded, Linked.toList]) ?_ ?_⟩
  · decide
  · show onwardPattern.trips.Pairwise _
    decide

end Reconstruction

end Journeys
