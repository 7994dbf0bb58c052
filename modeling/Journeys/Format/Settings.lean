import Journeys.Format.Leg
import Journeys.Settings

/-!
# The JSON form of settings

Settings, criteria flags and reluctances are records in which every field may be left out; what
is left out has its default. Settings that were read are valid: a combination without criteria is
refused with its own error, after the text as a whole was found to be in order.
-/

namespace Journeys

namespace Format

/-- A search direction from JSON. -/
def direction : Decoder Direction :=
  Decoder.variant fun name v =>
    match name with
    | "forward" => Decoder.unit .forward v
    | "reverse" => Decoder.unit .reverse v
    | _ => .error .malformed

/-- What has been read of criteria flags. -/
structure FlagsDraft where
  /-- Whether cost is compared. -/
  includeCost : Option Bool := none
  /-- The relax factor, which may be `null`. -/
  relax : Option (Option Float) := none
  /-- Whether boardings are kept apart. -/
  timetable : Option Bool := none
  /-- Whether the later departure is preferred. -/
  lateDeparture : Option Bool := none

/-- Fills a field of criteria flags. -/
def FlagsDraft.set : Decoder.FieldSetter FlagsDraft := fun d name v => do
  match name with
  | "include_cost" => return { d with includeCost := ← Decoder.once d.includeCost Decoder.bool v }
  | "relax_cost_at_destination" =>
    return { d with relax := ← Decoder.once d.relax (Decoder.optional Decoder.float) v }
  | "timetable" => return { d with timetable := ← Decoder.once d.timetable Decoder.bool v }
  | "prefer_late_departure" =>
    return { d with lateDeparture := ← Decoder.once d.lateDeparture Decoder.bool v }
  | _ => Decoder.skip d v

/-- Criteria flags from JSON. -/
def flags : Decoder CriteriaFlags := fun v => do
  let d ← Decoder.record
    ["include_cost", "relax_cost_at_destination", "timetable", "prefer_late_departure"]
    true {} FlagsDraft.set v
  let defaults : CriteriaFlags := {}
  return {
    includeCost := d.includeCost.getD defaults.includeCost
    relax := d.relax.getD defaults.relax
    timetable := d.timetable.getD defaults.timetable
    lateDeparture := d.lateDeparture.getD defaults.lateDeparture }

/-- What has been read of reluctances. -/
structure ReluctanceDraft where
  /-- The weight of walking. -/
  walk : Option Float := none
  /-- The weight of waiting. -/
  wait : Option Float := none
  /-- The weight of riding. -/
  ride : Option Float := none
  /-- The penalty for boarding. -/
  board : Option Cost := none
  /-- The further penalty for boarding after the first. -/
  transfer : Option Cost := none

/-- Fills a field of reluctances. -/
def ReluctanceDraft.set : Decoder.FieldSetter ReluctanceDraft := fun d name v => do
  match name with
  | "walk_reluctance" => return { d with walk := ← Decoder.once d.walk Decoder.float v }
  | "wait_reluctance" => return { d with wait := ← Decoder.once d.wait Decoder.float v }
  | "transit_reluctance" => return { d with ride := ← Decoder.once d.ride Decoder.float v }
  | "board_cost" => return { d with board := ← Decoder.once d.board cost v }
  | "transfer_cost" => return { d with transfer := ← Decoder.once d.transfer cost v }
  | _ => Decoder.skip d v

/-- Reluctances from JSON. -/
def reluctance : Decoder Reluctance := fun v => do
  let d ← Decoder.record
    ["walk_reluctance", "wait_reluctance", "transit_reluctance", "board_cost", "transfer_cost"]
    true {} ReluctanceDraft.set v
  let defaults : Reluctance := {}
  return {
    walk := d.walk.getD defaults.walk
    wait := d.wait.getD defaults.wait
    ride := d.ride.getD defaults.ride
    board := d.board.getD defaults.board
    transfer := d.transfer.getD defaults.transfer }

/-- What has been read of settings. -/
structure SettingsDraft where
  /-- The direction. -/
  direction : Option Direction := none
  /-- Whether cost is compared. -/
  includeCost : Option Bool := none
  /-- The relax factor, which may be `null`. -/
  relax : Option (Option Float) := none
  /-- Whether boardings are kept apart. -/
  timetable : Option Bool := none
  /-- Whether the later departure is preferred. -/
  lateDeparture : Option Bool := none
  /-- Whether recorded trips are trusted. -/
  approximate : Option Bool := none
  /-- The time limit, which may be `null`. -/
  timeLimit : Option (Option Time) := none
  /-- The slack before boarding, in seconds. -/
  boardSlackSeconds : Option Int := none
  /-- The slack after alighting, in seconds. -/
  alightSlackSeconds : Option Int := none

/-- Fills a field of settings. -/
def SettingsDraft.set : Decoder.FieldSetter SettingsDraft := fun d name v => do
  match name with
  | "direction" => return { d with direction := ← Decoder.once d.direction Format.direction v }
  | "include_cost" => return { d with includeCost := ← Decoder.once d.includeCost Decoder.bool v }
  | "relax_cost_at_destination" =>
    return { d with relax := ← Decoder.once d.relax (Decoder.optional Decoder.float) v }
  | "timetable" => return { d with timetable := ← Decoder.once d.timetable Decoder.bool v }
  | "prefer_late_departure" =>
    return { d with lateDeparture := ← Decoder.once d.lateDeparture Decoder.bool v }
  | "approximate_trip_search" =>
    return { d with approximate := ← Decoder.once d.approximate Decoder.bool v }
  | "time_limit" =>
    return { d with timeLimit := ← Decoder.once d.timeLimit (Decoder.optional time) v }
  | "board_slack_secs" =>
    return { d with boardSlackSeconds := ← Decoder.once d.boardSlackSeconds Decoder.int64 v }
  | "alight_slack_secs" =>
    return { d with alightSlackSeconds := ← Decoder.once d.alightSlackSeconds Decoder.int64 v }
  | _ => Decoder.skip d v

/-- Settings from JSON, in whatever combination. -/
def settings : Decoder SearchSettings := fun v => do
  let d ← Decoder.record
    ["direction", "include_cost", "relax_cost_at_destination", "timetable",
      "prefer_late_departure", "approximate_trip_search", "time_limit", "board_slack_secs",
      "alight_slack_secs"]
    true {} SettingsDraft.set v
  let defaults : SearchSettings := {}
  return {
    direction := d.direction.getD defaults.direction
    includeCost := d.includeCost.getD defaults.includeCost
    relax := d.relax.getD defaults.relax
    timetable := d.timetable.getD defaults.timetable
    lateDeparture := d.lateDeparture.getD defaults.lateDeparture
    approximate := d.approximate.getD defaults.approximate
    timeLimit := d.timeLimit.getD defaults.timeLimit
    boardSlackSeconds := d.boardSlackSeconds.getD defaults.boardSlackSeconds
    alightSlackSeconds := d.alightSlackSeconds.getD defaults.alightSlackSeconds }

end Format

namespace SearchSettings

/-- Reads settings and checks them. -/
def ofText (text : String) : Except SettingsError SearchSettings :=
  match Decoder.ofText Format.settings text with
  | .ok settings => settings.checked
  | .error _ => .error .malformedText

/-- Settings from the contents of a file, which are missing if there is no such file. -/
def ofFile (contents : Option ByteArray) : Except SettingsError SearchSettings :=
  match contents.bind String.fromUTF8? with
  | some text => ofText text
  | none => .error .unreadableFile

end SearchSettings

end Journeys
