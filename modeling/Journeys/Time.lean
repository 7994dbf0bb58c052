import Journeys.Span

/-!
# Times of the service day

Timetables count seconds from midnight of the service day. A service that runs past midnight keeps
counting (`25:10` is ten past one the next morning), and a time before midnight is negative, so
times do not wrap at 24 hours. A `Time` stays in the range of a signed 32-bit count.

There are two ways to move a time by a span. `Time.add?` and `Time.sub?` refuse what cannot be
represented and serve wherever a lost time must be reported; `Time.add` and `Time.sub` stop at the
ends of the range.
-/

namespace Journeys

/-- A time of the service day, in whole seconds past midnight. -/
structure Time where
  /-- The seconds past midnight. -/
  seconds : Int
  /-- The count fits a signed 32-bit number from below. -/
  lower : -2147483648 ≤ seconds := by omega
  /-- The count fits a signed 32-bit number from above. -/
  upper : seconds ≤ 2147483647 := by omega
deriving DecidableEq, Repr

namespace Time

/-- Midnight at the start of the service day. -/
def midnight : Time := { seconds := 0 }

instance : Inhabited Time := ⟨midnight⟩

/-- Whether a count of seconds can be a time. -/
def InRange (seconds : Int) : Prop := -2147483648 ≤ seconds ∧ seconds ≤ 2147483647

instance (seconds : Int) : Decidable (InRange seconds) :=
  inferInstanceAs (Decidable (_ ∧ _))

/-- The time this many seconds past midnight, if it is in range. -/
def ofSeconds? (seconds : Int) : Option Time :=
  if h : InRange seconds then
    some { seconds := seconds, lower := h.1, upper := h.2 }
  else
    none

/-- The time this many seconds past midnight, or the nearest end of the range. -/
def clamp (seconds : Int) : Time :=
  { seconds := max (-2147483648) (min seconds 2147483647) }

/-- The time of an hour, minute and second of the service day, held inside the range. -/
def ofHms (hours minutes seconds : Int) : Time :=
  clamp (hours * 3600 + minutes * 60 + seconds)

instance : LE Time := ⟨fun a b => a.seconds ≤ b.seconds⟩

instance : LT Time := ⟨fun a b => a.seconds < b.seconds⟩

instance (a b : Time) : Decidable (a ≤ b) := inferInstanceAs (Decidable (a.seconds ≤ b.seconds))

instance (a b : Time) : Decidable (a < b) := inferInstanceAs (Decidable (a.seconds < b.seconds))

/-- The time a span later. The whole seconds of the span must be a count that a time could hold,
and so must the sum. -/
def add? (t : Time) (d : Span) : Option Time :=
  if InRange d.wholeSeconds then ofSeconds? (t.seconds + d.wholeSeconds) else none

/-- The time a span earlier, under the same two conditions as `add?`. -/
def sub? (t : Time) (d : Span) : Option Time :=
  if InRange d.wholeSeconds then ofSeconds? (t.seconds - d.wholeSeconds) else none

/-- The time a span later, or the nearest end of the range. -/
def add (t : Time) (d : Span) : Time := clamp (t.seconds + d.wholeSeconds)

/-- The time a span earlier, or the nearest end of the range. -/
def sub (t : Time) (d : Span) : Time := clamp (t.seconds - d.wholeSeconds)

/-- The span from `earlier` to `t`, negative if `earlier` is in fact the later of the two. -/
def since (t earlier : Time) : Span :=
  { nanos := (t.seconds - earlier.seconds) * 1000000000
    lower := by have := t.lower; have := earlier.upper; omega
    upper := by have := t.upper; have := earlier.lower; omega }

/-! ## The operations in seconds -/

@[ext] theorem ext {a b : Time} (h : a.seconds = b.seconds) : a = b := by
  cases a; cases b; simp_all

theorem le_iff {a b : Time} : a ≤ b ↔ a.seconds ≤ b.seconds := Iff.rfl

theorem lt_iff {a b : Time} : a < b ↔ a.seconds < b.seconds := Iff.rfl

theorem not_lt {a b : Time} : ¬a < b ↔ b ≤ a := by
  simp only [lt_iff, le_iff]; omega

theorem le_refl (a : Time) : a ≤ a := Int.le_refl a.seconds

theorem le_trans {a b c : Time} (h : a ≤ b) (h' : b ≤ c) : a ≤ c := Int.le_trans h h'

/-- A count of seconds is a time exactly when it is in range. -/
theorem ofSeconds?_eq_some_iff {n : Int} {t : Time} : ofSeconds? n = some t ↔ t.seconds = n := by
  unfold ofSeconds?
  split
  · simp only [Option.some.injEq]
    constructor
    · rintro rfl; rfl
    · rintro rfl; rfl
  · rename_i h
    constructor
    · simp
    · rintro rfl
      exact absurd ⟨t.lower, t.upper⟩ h

/-- A count of seconds in range is kept as it is. -/
theorem seconds_clamp_of_inRange {n : Int} (h : InRange n) : (clamp n).seconds = n := by
  obtain ⟨h₁, h₂⟩ := h
  show max (-2147483648) (min n 2147483647) = n
  omega

theorem nanos_since (t earlier : Time) :
    (t.since earlier).nanos = (t.seconds - earlier.seconds) * 1000000000 := rfl

/-- The span between two times is a whole number of seconds. -/
theorem wholeSeconds_since (t earlier : Time) :
    (t.since earlier).wholeSeconds = t.seconds - earlier.seconds := by
  show ((t.seconds - earlier.seconds) * 1000000000).tdiv 1000000000 = _
  exact Int.mul_tdiv_cancel _ (by decide)

end Time

end Journeys
