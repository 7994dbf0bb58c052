import Journeys.Results

/-!
# The settings of a search

`SearchSettings` is what the user of a search may choose. `SearchSettings.check` looks at the
combination before a search starts. `Search` joins settings with the data of a network, and
builds the result set that fits them: its criteria from the flags, its reconstruction from the
direction, its limit from the time limit. Whether costs are compared and whether they are computed
is decided together.
-/

namespace Journeys

/-- The settings of one search. -/
structure SearchSettings where
  /-- Which way the search runs. -/
  direction : Direction := .forward
  /-- Compare generalized cost besides time and number of rides. -/
  includeCost : Bool := false
  /-- Compare costs up to this factor. -/
  relax : Option Float := none
  /-- Keep one journey to every sequence of boardings. -/
  timetable : Bool := false
  /-- Prefer the later departure. -/
  lateDeparture : Bool := false
  /-- Trust the trips that the search recorded. -/
  approximate : Bool := false
  /-- The latest arrival (forward) or the earliest departure (reverse). -/
  timeLimit : Option Time := none
  /-- The usual slack before boarding, in seconds. -/
  boardSlackSeconds : Int := 0
  /-- The usual slack after alighting, in seconds. -/
  alightSlackSeconds : Int := 0
deriving BEq

namespace SearchSettings

/-- The flags that select the criteria. -/
def flags (s : SearchSettings) : CriteriaFlags :=
  { includeCost := s.includeCost
    relax := s.relax
    timetable := s.timetable
    lateDeparture := s.lateDeparture }

/-- Checks that there are criteria for the flags. -/
def check (s : SearchSettings) : Except SettingsError Unit := do
  let _ ← Criteria.ofFlags s.flags
  return ()

/-- The settings, if they are valid. -/
def checked (s : SearchSettings) : Except SettingsError SearchSettings := do
  s.check
  return s

/-- The time limit in the terms of the direction. -/
def limit (s : SearchSettings) : Option TimeBound :=
  s.timeLimit.map (TimeBound.forDirection s.direction)

/-- The usual slack before boarding, if it is a span. -/
def boardSlack? (s : SearchSettings) : Option Span := Span.ofSeconds? s.boardSlackSeconds

/-- The usual slack after alighting, if it is a span. -/
def alightSlack? (s : SearchSettings) : Option Span := Span.ofSeconds? s.alightSlackSeconds

/-- The usual slack everywhere, if both parts are spans. -/
def slack? (s : SearchSettings) : Option UniformSlack := do
  let board ← s.boardSlack?
  let alight ← s.alightSlack?
  return UniformSlack.ofSpans board alight

end SearchSettings

/-- The settings of a search and the data it runs on. -/
structure Search where
  /-- The settings. -/
  settings : SearchSettings
  /-- The timetable. -/
  network : Network
  /-- The slack around boarding and alighting. -/
  slack : SlackPolicy
  /-- The transfer rules. -/
  rules : TransferRules := TransferRules.unconstrained
  /-- The formula for costs, if there is one. -/
  tariff : Option Tariff := none

namespace Search

/-- The reconstruction that fits the settings. -/
def reconstruction (c : Search) (tariff : Option Tariff) : Reconstruction :=
  { direction := c.settings.direction
    network := c.network
    slack := c.slack
    rules := c.rules
    tariff
    approximate := c.settings.approximate }

/-- The result set for these flags and this tariff. -/
def resultSet (c : Search) (flags : CriteriaFlags) (tariff : Option Tariff) :
    Except SettingsError ResultSet := do
  let criteria ← Criteria.ofFlags flags
  return { criteria, rebuild := (c.reconstruction tariff).journey, limit := c.settings.limit }

/-- A result set that computes and compares costs, whatever the settings say about them. -/
def pricedResults (c : Search) : Except SettingsError ResultSet :=
  match c.tariff with
  | none => .error .missingTariff
  | some tariff => c.resultSet { c.settings.flags with includeCost := true } (some tariff)

/-- A result set that leaves costs out, whatever the settings say about them. -/
def unpricedResults (c : Search) : Except SettingsError ResultSet :=
  c.resultSet { c.settings.flags with includeCost := false, relax := none } none

/-- The result set that the settings ask for. -/
def results (c : Search) : Except SettingsError ResultSet := do
  c.settings.check
  if c.settings.includeCost then c.pricedResults else c.unpricedResults

end Search

end Journeys
