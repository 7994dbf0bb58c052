import Journeys.Proofs.Timing

/-!
# Proofs: moving a time, checked and held

A time can be moved by a span in two ways. The one holds the result inside the range, the other
refuses what is outside it. Both are about the same exact count of seconds, so they should differ
only where that count is no time (`Moves.agree_iff`).

The checked way asks first whether the span by itself could be a time, which is more than it has to
ask: a span that is too long for that still leads from one side of midnight to a time on the other.
Such a count is given up (`Forgone`), and this is all that the two ways differ in.
-/

namespace Journeys

namespace Time

/-- The checked operation gives the time of the exact count, and nothing only if that is no time;
the other operation holds the count inside the range. -/
structure Agree (exact : Int) (checked : Option Time) (held : Time) : Prop where
  some_iff : ∀ x, checked = some x ↔ x.seconds = exact
  none_iff : checked = none ↔ ¬InRange exact
  held_seconds : held.seconds = max (-2147483648) (min exact 2147483647)

/-- The exact count is a time, but the span that leads there is too long to be looked at. -/
def Forgone (exact : Int) (d : Span) : Prop := InRange exact ∧ ¬InRange d.wholeSeconds

instance (exact : Int) (d : Span) : Decidable (Forgone exact d) :=
  inferInstanceAs (Decidable (_ ∧ _))

/-- What comes of moving a time by a span to an exact count of seconds. -/
structure Moves (t : Time) (exact : Int) (d : Span) (checked : Option Time) (held : Time) :
    Prop where
  /-- The count is held inside the range, whatever it is. -/
  held_seconds : held.seconds = max (-2147483648) (min exact 2147483647)
  /-- A checked result is the exact one, and what the other operation gives. -/
  some_exact : ∀ x, checked = some x → x.seconds = exact ∧ held = x
  /-- The two operations agree unless the count is given up. -/
  agree_iff : Agree exact checked held ↔ ¬Forgone exact d
  /-- A count that is given up is still the exact result of the other operation. Time and count are
  then on two sides of midnight. -/
  forgone : Forgone exact d →
    checked = none ∧ held.seconds = exact ∧ (t.seconds < 0 ↔ 0 ≤ exact)

variable {t x : Time} {d : Span} {exact : Int}

/-- The count that a checked operation gives, whichever way it moves the time. -/
def checkedAt (exact : Int) (d : Span) : Option Time :=
  if InRange d.wholeSeconds then ofSeconds? exact else none

theorem checkedAt_eq_some_iff :
    checkedAt exact d = some x ↔ InRange d.wholeSeconds ∧ x.seconds = exact := by
  unfold checkedAt
  split
  · rename_i hd
    simp [hd, ofSeconds?_eq_some_iff]
  · rename_i hd
    simp [hd]

theorem checkedAt_eq_none_iff :
    checkedAt exact d = none ↔ ¬InRange exact ∨ ¬InRange d.wholeSeconds := by
  unfold checkedAt ofSeconds?
  by_cases hd : InRange d.wholeSeconds
  · by_cases hexact : InRange exact
    · simp [hd, hexact]
    · simp [hd, hexact]
  · simp [hd]

theorem agree_iff_not_forgone :
    Agree exact (checkedAt exact d) (clamp exact) ↔ ¬Forgone exact d := by
  constructor
  · rintro h ⟨hexact, hd⟩
    exact h.none_iff.1 (checkedAt_eq_none_iff.2 (.inr hd)) hexact
  · intro hkept
    have hrange : InRange exact → InRange d.wholeSeconds := by
      intro hexact
      by_cases hd : InRange d.wholeSeconds
      · exact hd
      · exact absurd ⟨hexact, hd⟩ hkept
    refine ⟨fun x => ?_, ?_, rfl⟩
    · rw [checkedAt_eq_some_iff]
      constructor
      · exact fun hx => hx.2
      · rintro rfl
        exact ⟨hrange ⟨x.lower, x.upper⟩, rfl⟩
    · rw [checkedAt_eq_none_iff]
      constructor
      · rintro (hexact | hd)
        · exact hexact
        · exact fun hexact => hd (hrange hexact)
      · exact .inl

/-- Only a count across midnight is given up: on its own side a time is no further from midnight
than the range is wide. -/
theorem Forgone.across_midnight (h : Forgone exact d)
    (hdistance : exact = t.seconds + d.wholeSeconds ∨ exact = t.seconds - d.wholeSeconds) :
    t.seconds < 0 ↔ 0 ≤ exact := by
  obtain ⟨⟨hlower, hupper⟩, hd⟩ := h
  have htlower := t.lower
  have htupper := t.upper
  have hlong : d.wholeSeconds < -2147483648 ∨ 2147483647 < d.wholeSeconds := by
    unfold InRange at hd
    omega
  omega

theorem moves_checkedAt
    (hdistance : exact = t.seconds + d.wholeSeconds ∨ exact = t.seconds - d.wholeSeconds) :
    Moves t exact d (checkedAt exact d) (clamp exact) := by
  refine ⟨rfl, fun x hx => ?_, agree_iff_not_forgone, fun h => ⟨?_, ?_, ?_⟩⟩
  · obtain ⟨-, rfl⟩ := checkedAt_eq_some_iff.1 hx
    exact ⟨rfl, Time.ext (seconds_clamp_of_inRange ⟨x.lower, x.upper⟩)⟩
  · exact checkedAt_eq_none_iff.2 (.inr h.2)
  · exact seconds_clamp_of_inRange h.1
  · exact h.across_midnight hdistance

/-- Moving a time forwards and backwards by a span: the result is held inside the range, a checked
result is exact and the same, and the checked and the other way agree unless the exact result, on
the other side of midnight, is given up because the span is too long. -/
theorem add_and_sub_move (t : Time) (d : Span) :
    Moves t (t.seconds + d.wholeSeconds) d (t.add? d) (t.add d) ∧
      Moves t (t.seconds - d.wholeSeconds) d (t.sub? d) (t.sub d) :=
  ⟨moves_checkedAt (.inl rfl), moves_checkedAt (.inr rfl)⟩

/-- One second more than from midnight to the latest time. -/
def justTooLong : Span := { nanos := 2147483648 * 1000000000 }

/-- A second before midnight. -/
def beforeMidnight : Time := { seconds := -1 }

/-- From midnight on the span leads out of the range, and both ways say so. -/
theorem add_and_sub_move_midnight :
    midnight.add? justTooLong = none ∧ (midnight.add justTooLong).seconds = 2147483647 ∧
      Agree 2147483648 (midnight.add? justTooLong) (midnight.add justTooLong) := by
  obtain ⟨hadd, -⟩ := add_and_sub_move midnight justTooLong
  exact ⟨by decide, hadd.held_seconds, hadd.agree_iff.2 (by decide)⟩

/-- A second before midnight the same span leads to the latest time, which is given up. -/
theorem latest_time_is_forgone :
    beforeMidnight.add? justTooLong = none ∧
      InRange (beforeMidnight.seconds + justTooLong.wholeSeconds) ∧
      (beforeMidnight.add justTooLong).seconds =
        beforeMidnight.seconds + justTooLong.wholeSeconds := by
  decide

end Time

end Journeys
