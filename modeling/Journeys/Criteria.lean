import Journeys.Decimal.Style
import Journeys.Front
import Journeys.Journey

/-!
# Criteria for journeys

Which journeys make another one unnecessary depends on what the traveller asked for. Arrival time
and the number of rides always count. Besides them a request may ask for late departures or for one
journey to every sequence of boardings, and it may compare costs, exactly or up to a factor. A
`Criteria` value is one such combination; `Criteria.better` is the relation that the front of a
search runs on, and `Criteria.ofFlags` picks the criteria from the flags of a request.
-/

namespace Journeys

/-- Why the settings of a search are refused. -/
inductive SettingsError where
  /-- A relax factor was given for a search that does not compare costs. -/
  | relaxedCostWithoutCost
  /-- A relax factor is not finite or below one. -/
  | invalidRelaxFactor (factor : Float)
  /-- Costs are asked for and nothing was supplied to compute them. -/
  | missingTariff
  /-- The file with the settings is missing or not text. -/
  | unreadableFile
  /-- The text is not that of settings. -/
  | malformedText

/-- The message for whoever supplied the settings. -/
def SettingsError.message : SettingsError → String
  | relaxedCostWithoutCost => "relaxed cost at destination requires generalized cost"
  | invalidRelaxFactor factor =>
    "invalid cost relax factor " ++ NumberStyle.plain.write factor
      ++ ": must be finite and at least 1.0"
  | missingTariff => "generalized cost requested but no cost calculator configured"
  | unreadableFile => "failed to read search config: the file cannot be read"
  | malformedText => "failed to read search config: the text is not a search config"

/-- What a request compares besides arrival time, number of rides and cost. -/
inductive Distinction where
  /-- Nothing. -/
  | nothing
  /-- The later departure is better. -/
  | lateDeparture
  /-- Journeys with different boardings do not compete. -/
  | boardings
deriving DecidableEq, Repr

/-- How a request compares costs. -/
inductive CostComparison where
  /-- Not at all. -/
  | ignored
  /-- The lower cost is better. -/
  | exact
  /-- A different cost is better if it is within this factor of the other one. -/
  | relaxed (factor : Float)

/-- The criteria of one search. -/
structure Criteria where
  /-- What is compared besides arrival time, number of rides and cost. -/
  distinction : Distinction
  /-- How costs are compared. -/
  cost : CostComparison

/-- Whether `l` has an advantage over `r` under the distinction. -/
def Distinction.better (d : Distinction) (l r : Journey) : Bool :=
  match d with
  | nothing => false
  | lateDeparture => r.startTime < l.startTime
  | boardings => l.boardings ≠ r.boardings

namespace CostComparison

/-- Whether the cost `l` has an advantage over the cost `r`. A journey without a cost never wins on
cost, and equal costs are a tie even within a factor. -/
def better (c : CostComparison) : Option Cost → Option Cost → Bool
  | some l, some r =>
    match c with
    | ignored => false
    | exact => l < r
    | relaxed factor => l ≠ r && l ≤ r.scale factor
  | _, _ => false

/-- The factor, if costs are compared up to one. -/
def factor? : CostComparison → Option Float
  | relaxed factor => some factor
  | ignored => none
  | exact => none

end CostComparison

namespace Criteria

/-- Whether the journey `l` is better than `r` on at least one criterion. -/
def better (c : Criteria) (l r : Journey) : Bool :=
  l.endTime < r.endTime || l.rideCount < r.rideCount
    || c.distinction.better l r || c.cost.better l.cost r.cost

/-- Whether journeys need a cost to be compared. -/
def usesCost (c : Criteria) : Bool :=
  match c.cost with
  | .ignored => false
  | .exact => true
  | .relaxed _ => true

/-- The name of the combination. -/
def name (c : Criteria) : String :=
  match c.distinction, c.cost with
  | .nothing, .ignored => "Standard"
  | .lateDeparture, .ignored => "StandardAndLatestDeparture"
  | .boardings, .ignored => "Timetable"
  | .nothing, .exact => "Cost"
  | .lateDeparture, .exact => "CostAndLatestDeparture"
  | .boardings, .exact => "TimetableAndCost"
  | .nothing, .relaxed _ => "RelaxedCost"
  | .lateDeparture, .relaxed _ => "RelaxedCostAndLatestDeparture"
  | .boardings, .relaxed _ => "TimetableAndRelaxedCost"

/-- The combination with this name; `factor` is used where costs are compared up to a factor. -/
def ofName? (name : String) (factor : Float) : Option Criteria :=
  [Distinction.nothing, .lateDeparture, .boardings].findSome? fun distinction =>
    [CostComparison.ignored, .exact, .relaxed factor].findSome? fun cost =>
      let criteria : Criteria := ⟨distinction, cost⟩
      if criteria.name = name then some criteria else none

/-- The criteria as diagnostics show them: the name, with the factor if there is one. -/
def tagged (c : Criteria) : String :=
  match c.cost.factor? with
  | some factor => c.name ++ " \x7b relax: " ++ NumberStyle.diagnostic.write factor ++ " \x7d"
  | none => c.name

end Criteria

/-! ## Selection -/

/-- The flags of a request that select its criteria. -/
structure CriteriaFlags where
  /-- Compare generalized cost. -/
  includeCost : Bool := false
  /-- Compare costs up to this factor. -/
  relax : Option Float := none
  /-- Keep one journey to every sequence of boardings. -/
  timetable : Bool := false
  /-- Prefer the later departure. -/
  lateDeparture : Bool := false

namespace CriteriaFlags

/-- The distinction that the flags ask for; boardings take precedence over late departures. -/
def distinction (o : CriteriaFlags) : Distinction :=
  if o.timetable then .boardings else if o.lateDeparture then .lateDeparture else .nothing

/-- The cost comparison that the flags ask for. A factor must be finite and at least one, and goes
only with cost. -/
def costComparison (o : CriteriaFlags) : Except SettingsError CostComparison :=
  match o.relax with
  | some factor =>
    if !o.includeCost then
      .error .relaxedCostWithoutCost
    else if !factor.isFinite || factor < 1.0 then
      .error (.invalidRelaxFactor factor)
    else
      .ok (.relaxed factor)
  | none => .ok (if o.includeCost then .exact else .ignored)

end CriteriaFlags

/-- The criteria for the flags of a request. -/
def Criteria.ofFlags (o : CriteriaFlags) : Except SettingsError Criteria :=
  o.costComparison.map fun cost => ⟨o.distinction, cost⟩

end Journeys
