import Journeys.Reconstruction.Error
import Journeys.Timetable.Pattern
import Mathlib.Data.Nat.Init

/-!
# Proofs: spans, times and trips

Spans count nanoseconds and times whole seconds, so a span is cut to whole seconds wherever it
moves a time. For spans that are not negative the cut is a division that `omega` understands, and
cutting the parts of a sum loses at least as much as cutting the sum.
-/

namespace Journeys

namespace Span

theorem wholeSeconds_of_nonneg {d : Span} (h : zero ≤ d) : d.wholeSeconds = d.nanos / 1000000000 :=
  Int.tdiv_eq_ediv_of_nonneg h

theorem wholeSeconds_nonneg {d : Span} (h : zero ≤ d) : 0 ≤ d.wholeSeconds := by
  rw [wholeSeconds_of_nonneg h]
  have hd : 0 ≤ d.nanos := h
  omega

theorem le_refl (d : Span) : d ≤ d := Int.le_refl d.nanos

theorem zero_le_clampNonneg (d : Span) : zero ≤ d.clampNonneg := by
  rw [le_iff, nanos_clampNonneg, nanos_zero]
  omega

/-- A sum of three spans has the nanoseconds of all three. -/
theorem nanos_of_sum?_eq_some {a b c d : Span} (h : sum? [a, b, c] = some d) :
    d.nanos = a.nanos + b.nanos + c.nanos := by
  simp only [sum?, List.foldlM_cons, List.foldlM_nil, add?, Option.bind_eq_bind,
    Option.bind_eq_some_iff, Option.pure_def, Option.some.injEq, ofNanos?_eq_some_iff,
    nanos_zero] at h
  obtain ⟨x, hx, y, hy, z, hz, rfl⟩ := h
  omega

/-- A span well within the range, under 2^28 seconds either way. -/
def Moderate (d : Span) : Prop := -268435456000000000 < d.nanos ∧ d.nanos < 268435456000000000

instance (d : Span) : Decidable d.Moderate := inferInstanceAs (Decidable (_ ∧ _))

theorem Moderate.wholeSeconds_lt {d : Span} (h : d.Moderate) (hd : zero ≤ d) :
    d.wholeSeconds < 268435456 := by
  rw [wholeSeconds_of_nonneg hd]
  have hlt := h.2
  omega

theorem exists_ofNanos? {n : Int} (hlower : -9223372036854775807000000 ≤ n)
    (hupper : n ≤ 9223372036854775807000000) : ∃ d, ofNanos? n = some d :=
  ⟨{ nanos := n, lower := hlower, upper := hupper }, ofNanos?_eq_some_iff.2 rfl⟩

/-- Three moderate spans have a sum. -/
theorem exists_sum? {a b c : Span} (ha : a.Moderate) (hb : b.Moderate) (hc : c.Moderate) :
    ∃ d, sum? [a, b, c] = some d := by
  obtain ⟨ha₀, ha₁⟩ := ha
  obtain ⟨hb₀, hb₁⟩ := hb
  obtain ⟨hc₀, hc₁⟩ := hc
  obtain ⟨x, hx⟩ := exists_ofNanos? (n := zero.nanos + a.nanos)
    (by rw [nanos_zero]; omega) (by rw [nanos_zero]; omega)
  have hxa := ofNanos?_eq_some_iff.1 hx
  rw [nanos_zero] at hxa
  obtain ⟨y, hy⟩ := exists_ofNanos? (n := x.nanos + b.nanos) (by omega) (by omega)
  have hyb := ofNanos?_eq_some_iff.1 hy
  obtain ⟨d, hd⟩ := exists_ofNanos? (n := y.nanos + c.nanos) (by omega) (by omega)
  exact ⟨d, by simp only [sum?, List.foldlM_cons, List.foldlM_nil, add?, hx, hy, hd,
    Option.bind_eq_bind, Option.bind_some, Option.pure_def]⟩

theorem Moderate.clampNonneg {d : Span} (h : d.Moderate) : d.clampNonneg.Moderate := by
  obtain ⟨hlower, hupper⟩ := h
  unfold Moderate
  rw [nanos_clampNonneg]
  omega

theorem moderate_zero : zero.Moderate := by
  unfold Moderate
  rw [nanos_zero]
  omega

end Span

namespace Time

/-- A time well within the range, under 2^28 seconds from midnight. -/
def Moderate (t : Time) : Prop := -268435456 < t.seconds ∧ t.seconds < 268435456

instance (t : Time) : Decidable t.Moderate := inferInstanceAs (Decidable (_ ∧ _))

theorem seconds_of_later {t t' : Time} {d : Span} (h : t.later d = .ok t') :
    t'.seconds = t.seconds + d.wholeSeconds := by
  unfold later add? at h
  split at h
  · rename_i u hu
    cases h
    split at hu
    · exact ofSeconds?_eq_some_iff.1 hu
    · cases hu
  · cases h

theorem seconds_of_earlier {t t' : Time} {d : Span} (h : t.earlier d = .ok t') :
    t'.seconds = t.seconds - d.wholeSeconds := by
  unfold earlier sub? at h
  split at h
  · rename_i u hu
    cases h
    split at hu
    · exact ofSeconds?_eq_some_iff.1 hu
    · cases hu
  · cases h

theorem exists_ofSeconds? {n : Int} (h : InRange n) : ∃ t, ofSeconds? n = some t :=
  ⟨{ seconds := n, lower := h.1, upper := h.2 }, ofSeconds?_eq_some_iff.2 rfl⟩

/-- A time can be moved on by a span if neither the span nor the result is out of range. -/
theorem exists_later {t : Time} {d : Span} (hd : InRange d.wholeSeconds)
    (h : InRange (t.seconds + d.wholeSeconds)) : ∃ t', t.later d = .ok t' := by
  obtain ⟨t', ht'⟩ := exists_ofSeconds? h
  exact ⟨t', by simp [later, add?, hd, ht']⟩

theorem exists_earlier {t : Time} {d : Span} (hd : InRange d.wholeSeconds)
    (h : InRange (t.seconds - d.wholeSeconds)) : ∃ t', t.earlier d = .ok t' := by
  obtain ⟨t', ht'⟩ := exists_ofSeconds? h
  exact ⟨t', by simp [earlier, sub?, hd, ht']⟩

/-- From a moderate time, there is a time after three moderate spans. -/
theorem exists_later_of_moderate {t : Time} {d : Span} (ht : t.Moderate)
    (hlower : 0 ≤ d.wholeSeconds) (hupper : d.wholeSeconds < 805306368) :
    ∃ t', t.later d = .ok t' := by
  obtain ⟨ht₀, ht₁⟩ := ht
  refine exists_later ?_ ?_
  · unfold InRange
    omega
  · unfold InRange
    omega

/-- From a moderate time, there is a time before three moderate spans. -/
theorem exists_earlier_of_moderate {t : Time} {d : Span} (ht : t.Moderate)
    (hlower : 0 ≤ d.wholeSeconds) (hupper : d.wholeSeconds < 805306368) :
    ∃ t', t.earlier d = .ok t' := by
  obtain ⟨ht₀, ht₁⟩ := ht
  refine exists_earlier ?_ ?_
  · unfold InRange
    omega
  · unfold InRange
    omega

end Time

/-! ## Along a trip -/

theorem Call.Advancing.departure_le_arrival {calls : List Call} (h : Call.Advancing calls)
    {i : Nat} {c d : Call} (hc : calls[i]? = some c) (hd : calls[i + 1]? = some d) :
    c.departure ≤ d.arrival := by
  induction calls generalizing i with
  | nil => simp at hc
  | cons a rest ih =>
    cases rest with
    | nil => simp at hd
    | cons b rest =>
      obtain ⟨hab, hrest⟩ := h
      cases i with
      | zero =>
        simp only [List.getElem?_cons_zero, List.getElem?_cons_succ, Option.some.injEq] at hc hd
        rw [← hc, ← hd]
        exact hab
      | succ i =>
        simp only [List.getElem?_cons_succ] at hc
        exact ih hrest hc (by simpa using hd)

namespace Trip

/-- A trip leaves a position no later than it arrives at any further one. -/
theorem departure_le_arrival (t : Trip) {i j : Nat} (hij : i < j) {d a : Time}
    (hd : t.departure? i = some d) (ha : t.arrival? j = some a) : d ≤ a := by
  simp only [departure?, arrival?, Option.map_eq_some_iff] at hd ha
  obtain ⟨c, hc, rfl⟩ := hd
  induction j, hij using Nat.le_induction generalizing a with
  | base =>
    obtain ⟨c', hc', rfl⟩ := ha
    exact t.advancing.departure_le_arrival hc hc'
  | succ j hj ih =>
    obtain ⟨c', hc', rfl⟩ := ha
    have hlt : j < t.calls.length := by
      have := (List.getElem?_eq_some_iff.1 hc').1
      omega
    have hcj : t.calls[j]? = some t.calls[j] := List.getElem?_eq_getElem hlt
    have hdwell : t.calls[j].arrival ≤ t.calls[j].departure :=
      t.dwelling _ (List.getElem_mem hlt)
    have hle := ih ⟨t.calls[j], hcj, rfl⟩
    exact Time.le_trans (Time.le_trans hle hdwell) (t.advancing.departure_le_arrival hcj hc')

theorem exists_arrival? (t : Trip) {i : Nat} (h : i < t.length) : ∃ a, t.arrival? i = some a :=
  ⟨t.calls[i].arrival, by simp only [arrival?, List.getElem?_eq_getElem h, Option.map_some]⟩

theorem exists_departure? (t : Trip) {i : Nat} (h : i < t.length) :
    ∃ d, t.departure? i = some d :=
  ⟨t.calls[i].departure, by simp only [departure?, List.getElem?_eq_getElem h, Option.map_some]⟩

end Trip

end Journeys
