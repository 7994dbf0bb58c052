import Journeys.Timetable.Pattern

/-!
# Arrival tables

A search by rounds records every improved arrival at a stop in its `Arrivals`. A record points
back at the arrival that it was reached from, so an arrival at the destination stands for a whole
chain of boardings, and no journey needs to be kept while the search runs.

- An access walk starts a chain, in round 0.
- A ride leads to a record of the next round.
- A walk between stops leads to a record of the same round.

Times are in search direction: a forward search records when it reaches a stop and its chains run
from the destination to the origin; a reverse search records the latest time to leave a stop, and
its chains run from the origin to the destination.

The builders keep these rules. `Arrivals.push` adds any record at all, so nothing that reads a
table relies on them.
-/

namespace Journeys

/-- Which way a search runs. -/
inductive Direction where
  /-- Depart after a given time. -/
  | forward
  /-- Arrive before a given time. -/
  | reverse
deriving DecidableEq, Repr, Inhabited

/-- The number of a record in an arrival table. -/
structure RecordId where
  /-- The number. -/
  number : Nat
deriving DecidableEq, Repr, Inhabited

/-- The text of a record number with its kind in front, as messages show it: `ArrivalId(42)`. -/
def RecordId.tagged (id : RecordId) : String := "ArrivalId(" ++ id.number.repr ++ ")"

/-- A walk between a street location and a stop: an access walk or an egress walk. -/
structure StreetWalk where
  /-- The stop at one end. -/
  stop : Stop
  /-- How long it takes. -/
  duration : Span
deriving DecidableEq, Repr

/-- A ride as the search recorded it. Positions are in order of travel in both search directions. -/
structure Hop where
  /-- The trip. -/
  trip : TripSlot
  /-- The position of the boarding in the pattern. -/
  boardPos : Nat
  /-- The position of the alighting in the pattern. -/
  alightPos : Nat
deriving DecidableEq, Repr

/-- How a stop was reached. -/
inductive Approach where
  /-- By a walk from the street. -/
  | access (walk : StreetWalk)
  /-- By a ride from an earlier record. -/
  | ride (previous : RecordId) (hop : Hop)
  /-- By a walk from an earlier record. -/
  | walk (previous : RecordId) (duration : Span)
deriving DecidableEq, Repr

/-- The record that a stop was reached from, if it was not the street. -/
def Approach.previous? : Approach → Option RecordId
  | access _ => none
  | ride previous _ => some previous
  | walk previous _ => some previous

/-- The best arrival at one stop in one round. -/
structure ArrivalRecord where
  /-- The stop. -/
  stop : Stop
  /-- The number of rides so far. -/
  round : Nat
  /-- When the stop is reached (forward), or has to be left (reverse). -/
  time : Time
  /-- How the stop was reached. -/
  approach : Approach
deriving DecidableEq, Repr

/-- An arrival at the destination of a search. -/
structure FinalArrival where
  /-- The record that the last walk starts from. -/
  previous : RecordId
  /-- The last walk of the search. -/
  egress : StreetWalk
  /-- When the destination is reached (forward), or the origin has to be left (reverse). -/
  time : Time
  /-- The round in which the destination was reached. -/
  round : Nat
deriving DecidableEq, Repr

/-- The arrivals at stops that a search recorded, numbered in order. -/
structure Arrivals where
  /-- The records. -/
  records : Array ArrivalRecord := #[]
deriving Inhabited

namespace Arrivals

/-- The table of no records. -/
def empty : Arrivals := {}

/-- The number of records. -/
def size (table : Arrivals) : Nat := table.records.size

/-- Whether there are no records. -/
def isEmpty (table : Arrivals) : Bool := table.records.isEmpty

/-- The record with a number. -/
def get? (table : Arrivals) (id : RecordId) : Option ArrivalRecord := table.records[id.number]?

/-- Adds a record and answers its number. Its round is the caller's responsibility. -/
def push (table : Arrivals) (record : ArrivalRecord) : Arrivals × RecordId :=
  (⟨table.records.push record⟩, ⟨table.size⟩)

/-- Records that a stop is reached by a walk from the street. -/
def access (table : Arrivals) (walk : StreetWalk) (time : Time) : Arrivals × RecordId :=
  table.push { stop := walk.stop, round := 0, time, approach := .access walk }

/-- Records that a stop is reached by a ride from an earlier record, if that record exists. -/
def ride? (table : Arrivals) (previous : RecordId) (stop : Stop) (time : Time)
    (hop : Hop) : Option (Arrivals × RecordId) := do
  let start ← table.get? previous
  return table.push { stop, round := start.round + 1, time, approach := .ride previous hop }

/-- Records that a stop is reached by a walk from an earlier record, if that record exists. -/
def walk? (table : Arrivals) (previous : RecordId) (stop : Stop) (time : Time)
    (duration : Span) : Option (Arrivals × RecordId) := do
  let start ← table.get? previous
  return table.push { stop, round := start.round, time, approach := .walk previous duration }

/-- The arrival at the destination by a walk from a record, if that record exists. -/
def destination? (table : Arrivals) (previous : RecordId) (egress : StreetWalk)
    (time : Time) : Option FinalArrival := do
  let start ← table.get? previous
  return { previous, egress, time, round := start.round }

/-! ## The records after an addition -/

@[simp] theorem size_push (table : Arrivals) (record : ArrivalRecord) :
    (table.push record).1.size = table.size + 1 := by
  simp [push, size]

/-- A new record is found under its number. -/
@[simp] theorem get?_push_self (table : Arrivals) (record : ArrivalRecord) :
    (table.push record).1.get? (table.push record).2 = some record := by
  simp [push, get?, size]

/-- Adding a record leaves the others where they were. -/
theorem get?_push_of_lt {table : Arrivals} {id : RecordId} (h : id.number < table.size)
    (record : ArrivalRecord) : (table.push record).1.get? id = table.get? id := by
  have h' : id.number ≠ table.records.size := Nat.ne_of_lt h
  simp [push, get?, Array.getElem?_push, h']

/-- A record that is there stays there. -/
theorem get?_push_of_eq_some {table : Arrivals} {id : RecordId} {found : ArrivalRecord}
    (h : table.get? id = some found) (record : ArrivalRecord) :
    (table.push record).1.get? id = some found := by
  rw [get?_push_of_lt (Array.getElem?_eq_some_iff.1 h).1 record]
  exact h

end Arrivals

end Journeys
