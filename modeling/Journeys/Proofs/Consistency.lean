import Journeys.Proofs.Reconstruction
import Journeys.Results

/-!
# Proofs: legs that contradict each other

An arrival that makes no journey is dropped, and the search goes on. Legs that contradict each other
would stop it. A table may hold any records, so nothing speaks for the trips of a chain but the
checks that it passed; still, as long as no walk takes less than no time, legs never contradict each
other if their trips were searched for. Trusted trips can overlap, and nothing worse.
-/

namespace Journeys

namespace Reconstruction

/-- Whatever the table holds, a journey may only fail in that the arrival is unusable, or in that
trips overlap that were not searched for. -/
theorem gives_journey (c : Reconstruction) {table : Arrivals} {arrival : FinalArrival}
    (htable : table.WalksLast (Span.zero ≤ ·)) (hegress : Span.zero ≤ arrival.egress.duration) :
    Gives (MayFail (c.approximate = false) False) (fun _ => True) (c.journey table arrival) := by
  have hpass {d : Span} (hd : Span.zero ≤ d) : d.Passable False := ⟨hd, False.elim⟩
  cases hrides : c.rides table arrival with
  | error e =>
    have hjourney : c.journey table arrival = .error (.unusable e) := by
      rw [journey, hrides]
      rfl
    rw [hjourney]
    exact not_false
  | ok result =>
    obtain ⟨recorded, settled⟩ := result
    obtain ⟨ridden, hsteps⟩ := rides_eq_ok_iff.1 hrides
    refine hsteps.gives_journey False.elim False.elim ?_ (hpass hegress)
    intro record hrecord d hd
    exact hpass (htable record hrecord d hd)

end Reconstruction

/-- A result set whose journeys are rebuilt without contradiction never answers with an error. -/
theorem ResultSet.exists_outcome (s : ResultSet) {table : Arrivals} {arrival : FinalArrival}
    (h : ∀ e, s.rebuild table arrival = .error e → ∃ error, e = .unusable error) :
    ∃ outcome, (s.consider table arrival).2.outcome = .ok outcome := by
  unfold consider
  split
  · cases hrebuild : s.rebuild table arrival with
    | ok journey =>
      simp only [judge]
      split
      · exact ⟨_, rfl⟩
      · exact ⟨_, rfl⟩
      · exact ⟨_, rfl⟩
    | error e =>
      obtain ⟨error, rfl⟩ := h e hrebuild
      exact ⟨_, rfl⟩
  · exact ⟨_, rfl⟩

/-- If no walk takes less than no time, a journey whose trips are searched for only fails because
the arrival is unusable, so a result set never answers with an error. If the trips are trusted, legs
can contradict each other in that they overlap, and in no other way. -/
theorem journey_contradicts_only_by_overlap (c : Reconstruction) {table : Arrivals}
    {arrival : FinalArrival} (htable : table.WalksLast (Span.zero ≤ ·))
    (hegress : Span.zero ≤ arrival.egress.duration) :
    (c.approximate = false →
      (∀ e, c.journey table arrival = .error e → ∃ error, e = .unusable error) ∧
        ∀ s : ResultSet, s.rebuild = c.journey →
          ∃ outcome, (s.consider table arrival).2.outcome = .ok outcome) ∧
      (c.approximate = true → ∀ e, c.journey table arrival = .error (.inconsistent e) →
        ∃ previousFinish nextStart, e = .overlapping previousFinish nextStart) := by
  have hgives := c.gives_journey htable hegress
  refine ⟨fun hexact => ?_, fun _ e he => ?_⟩
  · have hunusable : ∀ e, c.journey table arrival = .error e → ∃ error, e = .unusable error := by
      intro e he
      cases e with
      | unusable error => exact ⟨error, rfl⟩
      | inconsistent error =>
        obtain ⟨hnot, -⟩ := hgives.allows he
        exact absurd hexact hnot
    refine ⟨hunusable, fun s hs => s.exists_outcome ?_⟩
    rw [hs]
    exact hunusable
  · exact (hgives.allows he).2

/-- The trusted connection leaves before the feeder arrives; a search finds a later one. -/
theorem journey_contradicts_only_by_overlap_feeder :
    (feederSearch TransferRules.unconstrained true).journey feederTable feederArrival =
        .error (.inconsistent (.overlapping (.ofHms 8 10 0) (.ofHms 8 5 0))) ∧
      (∃ previousFinish nextStart, JourneyError.overlapping (.ofHms 8 10 0) (.ofHms 8 5 0) =
        .overlapping previousFinish nextStart) ∧
      ∀ e, (feederSearch TransferRules.unconstrained false).journey feederTable feederArrival =
        .error e → ∃ error, e = .unusable error := by
  have hoverlap : (feederSearch TransferRules.unconstrained true).journey feederTable
      feederArrival = .error (.inconsistent (.overlapping (.ofHms 8 10 0) (.ofHms 8 5 0))) :=
    rfl
  have htable : feederTable.WalksLast (Span.zero ≤ ·) := by decide
  have hegress : Span.zero ≤ feederArrival.egress.duration := by decide
  refine ⟨hoverlap, ?_, ?_⟩
  · exact (journey_contradicts_only_by_overlap _ htable hegress).2 rfl _ hoverlap
  · exact ((journey_contradicts_only_by_overlap _ htable hegress).1 rfl).1

end Journeys
