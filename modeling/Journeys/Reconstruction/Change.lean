import Journeys.Reconstruction.Ridden

/-!
# Changes

Once the trips are known, the transfer rules between them are settled: every two rides that follow
each other get the rule between their trips, and a rule takes away the slack on both sides of the
change. A forbidden transfer ends the reconstruction here too, because trusted trips were not
held against the rules before.

All rules are looked up before any of them is checked, so a forbidden transfer anywhere is reported
rather than a violated time.
-/

namespace Journeys

/-- What lies between two rides. -/
structure Change where
  /-- The walk, if there is one. -/
  walk : Option Span
  /-- The rule between the two trips, if there is one. -/
  rule : Option TransferRule
deriving DecidableEq, Repr

/-- How long the walk of a change takes. -/
def Change.walkTime (c : Change) : Span := c.walk.getD Span.zero

/-- Whether a rule holds for a gap between two rides with a walk in it. -/
def TransferRule.holds (rule : TransferRule) (gap walk : Span) : Bool :=
  match rule with
  | minimumTime least => least ≤ gap && walk ≤ gap
  | exactTime exact => gap = exact && walk ≤ exact
  | forbidden => false

namespace Ridden

/-- The same ride without slack after alighting. -/
def withoutAlightSlack (r : Ridden) : Ridden :=
  { r with ride := { r.ride with alightSlack := Span.zero } }

/-- The same ride without slack before boarding. -/
def withoutBoardSlack (r : Ridden) : Ridden :=
  { r with ride := { r.ride with boardSlack := Span.zero } }

/-- The rule for leaving one ride and boarding the next. -/
def ruleBetween? (rules : TransferRules) (a b : Ridden) : Option TransferRule :=
  rules.find? (alightEnd a.ride a.tripId) (boardEnd b.ride b.tripId)

/-- The time between leaving one ride and boarding the next. -/
def gap (a b : Ridden) : Span := b.boardTime.since a.alightTime

end Ridden

namespace Change

/-- Looks up the rules between a ride and those behind it, and takes away the slack beside them. -/
def settle (rules : TransferRules) :
    Ridden → List (Option Span × Ridden) → Except ReconstructionError (Linked Change Ridden)
  | a, [] => .ok { first := a, rest := [] }
  | a, (walk, b) :: rest =>
    match Ridden.ruleBetween? rules a b with
    | none => do
      let behind ← settle rules b rest
      return behind.cons a ⟨walk, none⟩
    | some .forbidden => .error (.forbiddenTransfer a.tripId b.tripId b.ride.board)
    | some rule => do
      let behind ← settle rules b.withoutBoardSlack rest
      return behind.cons a.withoutAlightSlack ⟨walk, some rule⟩

/-- Checks that the rules behind a ride hold for the trips that are ridden. -/
def checkRules : Ridden → List (Change × Ridden) → Except ReconstructionError Unit
  | _, [] => .ok ()
  | a, (change, b) :: rest =>
    match change.rule with
    | none => checkRules b rest
    | some rule =>
      if rule.holds (a.gap b) change.walkTime then
        checkRules b rest
      else
        .error (.transferTimeViolated a.tripId b.tripId)

/-- Settles the rules between rides and checks them. -/
def ofRides (rules : TransferRules) (rides : Linked (Option Span) Ridden) :
    Except ReconstructionError (Linked Change Ridden) := do
  let settled ← settle rules rides.first rides.rest
  checkRules settled.first settled.rest
  return settled

end Change

end Journeys
