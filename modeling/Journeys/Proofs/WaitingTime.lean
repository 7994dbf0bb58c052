import Journeys.Proofs.CompleteJourneys
import Journeys.Proofs.Timing
import Mathlib.Algebra.Order.BigOperators.Group.List
import Mathlib.Algebra.Ring.Int.Defs

/-!
# Proofs: waiting time

What a journey waits is computed as its duration less the time spent on its legs. From the start of
the first leg to the end of the last one, time passes either on a leg or between two of them, so
what is left over is the sum of the gaps (`Journey.gaps`). Neither legs nor gaps run backwards in a
checked journey, so no sum of some of them is longer than the journey, and none leaves the range of
spans.
-/

namespace Journeys

/-! ## Sums of spans -/

namespace Span

variable {ds : List Span}

/-- The nanoseconds of a list of spans, which may be out of range. -/
def totalNanos (ds : List Span) : Int := (ds.map nanos).sum

@[simp] theorem totalNanos_nil : totalNanos [] = 0 := rfl

@[simp] theorem totalNanos_cons (d : Span) (ds : List Span) :
    totalNanos (d :: ds) = d.nanos + totalNanos ds := by
  simp [totalNanos]

theorem totalNanos_nonneg (h : ∀ d ∈ ds, zero ≤ d) : 0 ≤ totalNanos ds := by
  apply List.sum_nonneg
  intro n hn
  obtain ⟨d, hd, rfl⟩ := List.mem_map.1 hn
  exact h d hd

theorem totalNanos_take_le (h : ∀ d ∈ ds, zero ≤ d) (n : Nat) :
    totalNanos (ds.take n) ≤ totalNanos ds := by
  have hsplit : totalNanos (ds.take n) + totalNanos (ds.drop n) = totalNanos ds := by
    simp [totalNanos, List.map_take, List.map_drop]
  have hrest : 0 ≤ totalNanos (ds.drop n) :=
    totalNanos_nonneg fun d hd => h d (List.mem_of_mem_drop hd)
  omega

/-- Spans that do not run backwards are added up from any span on, unless their total is out of
range. -/
theorem foldlM_add?_of_nonneg (h : ∀ d ∈ ds, zero ≤ d) {start : Span}
    (hrange : start.nanos + totalNanos ds ≤ 9223372036854775807000000) :
    ∃ total, ds.foldlM add? start = some total ∧
      total.nanos = start.nanos + totalNanos ds := by
  induction ds generalizing start with
  | nil => exact ⟨start, rfl, by simp⟩
  | cons d ds ih =>
    obtain ⟨hd, hds⟩ := List.forall_mem_cons.1 h
    have hnonneg : 0 ≤ d.nanos := hd
    have hrest := totalNanos_nonneg hds
    have hlower := start.lower
    rw [totalNanos_cons] at hrange
    obtain ⟨next, hnext⟩ := exists_ofNanos? (n := start.nanos + d.nanos) (by omega) (by omega)
    have hnanos := ofNanos?_eq_some_iff.1 hnext
    have hnextRange : next.nanos + totalNanos ds ≤ 9223372036854775807000000 := by omega
    obtain ⟨total, htotal, hsum⟩ := ih hds hnextRange
    refine ⟨total, ?_, ?_⟩
    · rw [List.foldlM_cons, add?, hnext]
      exact htotal
    · rw [totalNanos_cons]
      omega

theorem sum?_of_nonneg (h : ∀ d ∈ ds, zero ≤ d)
    (hrange : totalNanos ds ≤ 9223372036854775807000000) :
    ∃ total, sum? ds = some total ∧ total.nanos = totalNanos ds := by
  have hstart : zero.nanos + totalNanos ds ≤ 9223372036854775807000000 := by simpa using hrange
  obtain ⟨total, htotal, hsum⟩ := foldlM_add?_of_nonneg h hstart
  exact ⟨total, htotal, by simpa using hsum⟩

end Span

/-! ## Between the legs -/

namespace Journey

/-- The gaps between legs, each from the end of a leg to the start of the next. -/
def gaps : List Leg → List Span
  | a :: b :: rest => b.start.since a.finish :: gaps (b :: rest)
  | _ => []

variable {legs : List Leg}

/-- All time from the start of the first leg to the end of the last one is spent on a leg or in a
gap. -/
theorem totalNanos_durations_add_gaps (hne : legs ≠ []) :
    Span.totalNanos (legs.map Leg.duration) + Span.totalNanos (gaps legs) =
      ((legs.getLast hne).finish.since (legs.head hne).start).nanos := by
  induction legs with
  | nil => exact absurd rfl hne
  | cons a legs ih =>
    cases legs with
    | nil => simp [gaps, Leg.duration]
    | cons b rest =>
      have hrest := ih (List.cons_ne_nil b rest)
      have hleg : a.duration.nanos = (a.finish.seconds - a.start.seconds) * 1000000000 := rfl
      rw [List.map_cons, gaps, List.getLast_cons (List.cons_ne_nil b rest)]
      simp only [Span.totalNanos_cons, Time.nanos_since, List.head_cons] at hrest ⊢
      omega

theorem zero_le_duration (h : ∀ leg ∈ legs, leg.check = .ok ()) :
    ∀ d ∈ legs.map Leg.duration, Span.zero ≤ d := by
  intro d hd
  obtain ⟨leg, hleg, rfl⟩ := List.mem_map.1 hd
  have htimes := Time.le_iff.1 (Leg.check_eq_ok_iff.1 (h leg hleg)).1
  rw [Span.le_iff, Leg.duration, Time.nanos_since, Span.nanos_zero]
  omega

theorem zero_le_gap (h : legs.IsChain Leg.Precedes) : ∀ d ∈ gaps legs, Span.zero ≤ d := by
  induction legs with
  | nil => simp [gaps]
  | cons a legs ih =>
    cases legs with
    | nil => simp [gaps]
    | cons b rest =>
      obtain ⟨⟨-, htimes⟩, hrest⟩ := List.isChain_cons_cons.1 h
      rw [gaps, List.forall_mem_cons]
      refine ⟨?_, ih hrest⟩
      rw [Time.le_iff] at htimes
      rw [Span.le_iff, Time.nanos_since, Span.nanos_zero]
      omega

/-- A journey waits the sum of the gaps between its legs, which is neither negative nor longer than
the journey, and makes up its duration together with the legs. Adding up the legs from the front
never goes beyond the duration of the journey, and no sum or difference leaves the range of
spans. -/
theorem waiting_eq_sum_gaps (j : Journey) :
    ∃ moving waiting,
      (j.waiting? = some waiting ∧ Span.sum? (gaps j.legs) = some waiting) ∧
      (Span.zero ≤ waiting ∧ waiting ≤ j.duration) ∧
      (Span.sum? (j.legs.map Leg.duration) = some moving ∧
        moving.add? waiting = some j.duration ∧ j.duration.sub? moving = some waiting) ∧
      ∀ n, ∃ part, Span.sum? ((j.legs.take n).map Leg.duration) = some part ∧
        Span.zero ≤ part ∧ part ≤ j.duration := by
  obtain ⟨hne, -, -, hsound, hlinked⟩ := check_eq_ok_iff.1 j.checked
  have hdurations := zero_le_duration hsound
  have hgaps := zero_le_gap hlinked
  have hspent := Span.totalNanos_nonneg hdurations
  have hwaited := Span.totalNanos_nonneg hgaps
  have htotal : Span.totalNanos (j.legs.map Leg.duration) + Span.totalNanos (gaps j.legs) =
      j.duration.nanos := totalNanos_durations_add_gaps hne
  have hupper := j.duration.upper
  obtain ⟨moving, hmoving, hmovingNanos⟩ := Span.sum?_of_nonneg hdurations (by omega)
  obtain ⟨waiting, hwaiting, hwaitingNanos⟩ := Span.sum?_of_nonneg hgaps (by omega)
  have hadd : moving.add? waiting = some j.duration := Span.ofNanos?_eq_some_iff.2 (by omega)
  have hsub : j.duration.sub? moving = some waiting := Span.ofNanos?_eq_some_iff.2 (by omega)
  refine ⟨moving, waiting, ⟨?_, hwaiting⟩, ⟨?_, ?_⟩, ⟨hmoving, hadd, hsub⟩, ?_⟩
  · rw [waiting?, hmoving]
    exact hsub
  · rw [Span.le_iff, Span.nanos_zero]
    omega
  · rw [Span.le_iff]
    omega
  · intro n
    have hpart : ∀ d ∈ (j.legs.map Leg.duration).take n, Span.zero ≤ d :=
      fun d hd => hdurations d (List.mem_of_mem_take hd)
    have hnonneg := Span.totalNanos_nonneg hpart
    have hle := Span.totalNanos_take_le hdurations n
    obtain ⟨part, hsum, hpartNanos⟩ := Span.sum?_of_nonneg hpart (by omega)
    rw [List.map_take]
    refine ⟨part, hsum, ?_, ?_⟩
    · rw [Span.le_iff, Span.nanos_zero]
      omega
    · rw [Span.le_iff]
      omega

end Journey

end Journeys
