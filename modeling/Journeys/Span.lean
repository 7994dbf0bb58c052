/-!
# Spans of time

A `Span` is a signed length of time, such as a walk, a slack or the gap between two rides. It counts
nanoseconds and stays within `±(2^63 - 1)` milliseconds; a count outside that range is no span, so
the constructors answer `none` there and callers decide what that means.

Timetables only know whole seconds. Wherever a span meets a time it is first cut to
`Span.wholeSeconds`, the number of whole seconds in it, counted toward zero.
-/

namespace Journeys

/-- A signed length of time in nanoseconds, at most `2^63 - 1` milliseconds either way. -/
structure Span where
  /-- The length in nanoseconds. -/
  nanos : Int
  /-- No span is longer backwards than the range allows. -/
  lower : -9223372036854775807000000 ≤ nanos := by omega
  /-- No span is longer forwards than the range allows. -/
  upper : nanos ≤ 9223372036854775807000000 := by omega
deriving DecidableEq, Repr

namespace Span

/-- The span of no length. -/
def zero : Span := { nanos := 0 }

instance : Inhabited Span := ⟨zero⟩

/-- The span of this many nanoseconds, if it is in range. -/
def ofNanos? (nanos : Int) : Option Span :=
  if h : -9223372036854775807000000 ≤ nanos ∧ nanos ≤ 9223372036854775807000000 then
    some { nanos := nanos, lower := h.1, upper := h.2 }
  else
    none

/-- The span of this many milliseconds, if it is in range. -/
def ofMillis? (millis : Int) : Option Span :=
  ofNanos? (millis * 1000000)

/-- The span of this many seconds, if it is in range. -/
def ofSeconds? (seconds : Int) : Option Span :=
  ofMillis? (seconds * 1000)

/-- The whole milliseconds in a span, counted toward zero. -/
def millis (d : Span) : Int := d.nanos.tdiv 1000000

/-- The whole seconds in a span, counted toward zero. -/
def wholeSeconds (d : Span) : Int := d.nanos.tdiv 1000000000

instance : LE Span := ⟨fun a b => a.nanos ≤ b.nanos⟩

instance : LT Span := ⟨fun a b => a.nanos < b.nanos⟩

instance (a b : Span) : Decidable (a ≤ b) := inferInstanceAs (Decidable (a.nanos ≤ b.nanos))

instance (a b : Span) : Decidable (a < b) := inferInstanceAs (Decidable (a.nanos < b.nanos))

instance : Max Span := ⟨fun a b => if a ≤ b then b else a⟩

/-- The sum of two spans, if it is in range. -/
def add? (a b : Span) : Option Span := ofNanos? (a.nanos + b.nanos)

/-- The difference of two spans, if it is in range. -/
def sub? (a b : Span) : Option Span := ofNanos? (a.nanos - b.nanos)

/-- The sum of a list of spans, front to back, if every partial sum is in range. -/
def sum? (ds : List Span) : Option Span := ds.foldlM add? zero

/-- The span, or zero if it is negative. -/
def clampNonneg (d : Span) : Span := max d zero

/-! ## The operations in nanoseconds -/

@[ext] theorem ext {a b : Span} (h : a.nanos = b.nanos) : a = b := by
  cases a; cases b; simp_all

@[simp] theorem nanos_zero : zero.nanos = 0 := rfl

theorem le_iff {a b : Span} : a ≤ b ↔ a.nanos ≤ b.nanos := Iff.rfl

theorem lt_iff {a b : Span} : a < b ↔ a.nanos < b.nanos := Iff.rfl

/-- A count of nanoseconds is a span exactly when it is in range. -/
theorem ofNanos?_eq_some_iff {n : Int} {d : Span} : ofNanos? n = some d ↔ d.nanos = n := by
  unfold ofNanos?
  split
  · simp only [Option.some.injEq]
    constructor
    · rintro rfl; rfl
    · rintro rfl; rfl
  · rename_i h
    constructor
    · simp
    · rintro rfl
      exact absurd ⟨d.lower, d.upper⟩ h

/-- A number of seconds is a span exactly when its nanoseconds are in range. -/
theorem ofSeconds?_eq_some_iff {n : Int} {d : Span} :
    ofSeconds? n = some d ↔ d.nanos = n * 1000000000 := by
  rw [ofSeconds?, ofMillis?, ofNanos?_eq_some_iff]
  omega

theorem nanos_max (a b : Span) : (max a b).nanos = max a.nanos b.nanos := by
  show (if a ≤ b then b else a).nanos = _
  simp only [le_iff]
  split <;> omega

theorem nanos_clampNonneg (d : Span) : d.clampNonneg.nanos = max d.nanos 0 :=
  nanos_max d zero

/-! ## Compact text -/

/-- The text of a span in hours, minutes and seconds, leaving out the parts that are zero: `1h5m`,
`7m`, `45s`. A span of no whole seconds is `0s`. -/
def text (d : Span) : String :=
  let total := d.wholeSeconds.natAbs
  let sign := if d.wholeSeconds < 0 then "-" else ""
  let hours := total / 3600
  let minutes := total / 60 % 60
  let seconds := total % 60
  let hoursText := if hours = 0 then "" else hours.repr ++ "h"
  let minutesText := if minutes = 0 then "" else minutes.repr ++ "m"
  let secondsText :=
    if seconds = 0 ∧ (hours ≠ 0 ∨ minutes ≠ 0) then "" else seconds.repr ++ "s"
  sign ++ hoursText ++ minutesText ++ secondsText

end Span

end Journeys
