import Journeys.Journey
import Journeys.Json.Decode
import Journeys.Results.Decision

/-!
# The JSON form of legs

How legs and their parts are written as JSON and read back. Identities and times are bare numbers or
strings, kinds and places are variants, and details are records. Spans are written in whole seconds,
counted toward zero, so a fraction of a second is lost on the way.

A leg that was read has passed no check: its times and places are whatever the text says.
-/

namespace Journeys

namespace Format

/-! ## Writing -/

/-- A number as JSON. -/
def ofNat (n : Nat) : Json := .integer n

/-- A span as JSON: its whole seconds. -/
def ofSpan (d : Span) : Json := .integer d.wholeSeconds

/-- A time as JSON: its seconds. -/
def ofTime (t : Time) : Json := .integer t.seconds

/-- A cost as JSON: its value. -/
def ofCost (c : Cost) : Json := ofNat c.value

/-- A stop as JSON: its number. -/
def ofStop (s : Stop) : Json := ofNat s.number.toNat

/-- A pattern number as JSON. -/
def ofPatternId (p : PatternId) : Json := ofNat p.number.toNat

/-- A trip identity as JSON: its text. -/
def ofTripId (id : TripId) : Json := Json.ofString id.text

/-- What may be missing, as JSON: `null` if it is. -/
def ofOption {α : Type} (write : α → Json) : Option α → Json
  | some a => write a
  | none => .null

/-- A place as JSON. -/
def ofPlace : Place → Json
  | .origin => Json.ofString "Origin"
  | .stop s => Json.ofFields [("Stop", ofStop s)]
  | .destination => Json.ofString "Destination"

/-- A trip reference as JSON. -/
def ofTripSlot (r : TripSlot) : Json :=
  Json.ofFields [("pattern", ofPatternId r.pattern), ("trip", ofNat r.trip)]

/-- A transfer rule as JSON. -/
def ofRule : TransferRule → Json
  | .minimumTime least => Json.ofFields [("MinimumTime", ofSpan least)]
  | .exactTime exact => Json.ofFields [("ExactTime", ofSpan exact)]
  | .forbidden => Json.ofString "Forbidden"

/-- The details of a ride as JSON. -/
def ofDetails (d : RideDetails) : Json :=
  Json.ofFields [
    ("trip_id", ofTripId d.tripId),
    ("trip", ofTripSlot d.trip),
    ("board_pos", ofNat d.boardPos),
    ("alight_pos", ofNat d.alightPos),
    ("board_slack", ofSpan d.boardSlack),
    ("alight_slack", ofSpan d.alightSlack),
    ("constraint", ofOption ofRule d.rule)]

/-- The kind of a leg as JSON. -/
def ofKind : LegKind → Json
  | .access => Json.ofString "Access"
  | .ride ride => Json.ofFields [("Transit", ofDetails ride)]
  | .transfer => Json.ofString "Transfer"
  | .egress => Json.ofString "Egress"

/-- A leg as JSON. -/
def ofLeg (leg : Leg) : Json :=
  Json.ofFields [
    ("kind", ofKind leg.kind),
    ("from", ofPlace leg.fromPlace),
    ("to", ofPlace leg.toPlace),
    ("start", ofTime leg.start),
    ("end", ofTime leg.finish),
    ("cost", ofOption ofCost leg.cost)]

/-- A list of legs as JSON. -/
def ofLegs (legs : List Leg) : Json := Json.ofItems (legs.map ofLeg)

/-- A time limit as JSON. -/
def ofLimit : TimeBound → Json
  | .latestArrival time => Json.ofFields [("LatestArrival", ofTime time)]
  | .earliestDeparture time => Json.ofFields [("EarliestDeparture", ofTime time)]

/-! ## Reading -/

/-- A time from JSON. -/
def time : Decoder Time := fun v => do
  let seconds ← Decoder.int64 v
  Decoder.ofOption (Time.ofSeconds? seconds)

/-- A span from JSON. A number of seconds may be too long for a span, and is then refused for
that. -/
def span : Decoder Span := fun v => do
  let seconds ← Decoder.int64 v
  match Span.ofSeconds? seconds with
  | some d => .ok d
  | none => .error .spanOutOfRange

/-- A cost from JSON. -/
def cost : Decoder Cost := fun v => (Decoder.nat64 v).map Cost.ofNat

/-- A stop from JSON. -/
def stop : Decoder Stop := fun v => (Decoder.nat32 v).map Stop.mk

/-- A pattern number from JSON. -/
def patternId : Decoder PatternId := fun v => (Decoder.nat32 v).map PatternId.mk

/-- A trip identity from JSON. -/
def tripId : Decoder TripId := fun v => (Decoder.string v).map TripId.mk

/-- A place from JSON. -/
def place : Decoder Place :=
  Decoder.variant fun name v =>
    match name with
    | "Origin" => Decoder.unit .origin v
    | "Stop" => Decoder.payload (fun v => (stop v).map .stop) v
    | "Destination" => Decoder.unit .destination v
    | _ => .error .malformed

/-- A transfer rule from JSON. -/
def rule : Decoder TransferRule :=
  Decoder.variant fun name v =>
    match name with
    | "MinimumTime" => Decoder.payload (fun v => (span v).map .minimumTime) v
    | "ExactTime" => Decoder.payload (fun v => (span v).map .exactTime) v
    | "Forbidden" => Decoder.unit .forbidden v
    | _ => .error .malformed

/-- A time limit from JSON. -/
def limit : Decoder TimeBound :=
  Decoder.variant fun name v =>
    match name with
    | "LatestArrival" => Decoder.payload (fun v => (time v).map .latestArrival) v
    | "EarliestDeparture" => Decoder.payload (fun v => (time v).map .earliestDeparture) v
    | _ => .error .malformed

/-- What has been read of a trip reference. -/
structure TripSlotDraft where
  /-- The pattern. -/
  pattern : Option PatternId := none
  /-- The place in the departure order. -/
  trip : Option Nat := none

/-- Fills a field of a trip reference. -/
def TripSlotDraft.set : Decoder.FieldSetter TripSlotDraft := fun d name v => do
  match name with
  | "pattern" => return { d with pattern := ← Decoder.once d.pattern patternId v }
  | "trip" => return { d with trip := ← Decoder.once d.trip Decoder.nat64 v }
  | _ => Decoder.skip d v

/-- A trip reference from JSON. -/
def tripSlot : Decoder TripSlot := fun v => do
  let d ← Decoder.record ["pattern", "trip"] false {} TripSlotDraft.set v
  let pattern ← Decoder.ofOption d.pattern
  let trip ← Decoder.ofOption d.trip
  return { pattern, trip }

/-- What has been read of the details of a ride. -/
structure DetailsDraft where
  /-- The trip identity. -/
  tripId : Option TripId := none
  /-- The trip reference. -/
  trip : Option TripSlot := none
  /-- The position of the boarding. -/
  boardPos : Option Nat := none
  /-- The position of the alighting. -/
  alightPos : Option Nat := none
  /-- The slack before boarding. -/
  boardSlack : Option Span := none
  /-- The slack after alighting. -/
  alightSlack : Option Span := none
  /-- The rule, which may be `null`. -/
  rule : Option (Option TransferRule) := none

/-- Fills a field of the details of a ride. -/
def DetailsDraft.set : Decoder.FieldSetter DetailsDraft := fun d name v => do
  match name with
  | "trip_id" => return { d with tripId := ← Decoder.once d.tripId Format.tripId v }
  | "trip" => return { d with trip := ← Decoder.once d.trip tripSlot v }
  | "board_pos" => return { d with boardPos := ← Decoder.once d.boardPos Decoder.nat64 v }
  | "alight_pos" => return { d with alightPos := ← Decoder.once d.alightPos Decoder.nat64 v }
  | "board_slack" => return { d with boardSlack := ← Decoder.once d.boardSlack span v }
  | "alight_slack" => return { d with alightSlack := ← Decoder.once d.alightSlack span v }
  | "constraint" => return { d with rule := ← Decoder.once d.rule (Decoder.optional Format.rule) v }
  | _ => Decoder.skip d v

/-- The details of a ride from JSON. -/
def details : Decoder RideDetails := fun v => do
  let d ← Decoder.record
    ["trip_id", "trip", "board_pos", "alight_pos", "board_slack", "alight_slack", "constraint"]
    false {} DetailsDraft.set v
  let tripId ← Decoder.ofOption d.tripId
  let trip ← Decoder.ofOption d.trip
  let boardPos ← Decoder.ofOption d.boardPos
  let alightPos ← Decoder.ofOption d.alightPos
  let boardSlack ← Decoder.ofOption d.boardSlack
  let alightSlack ← Decoder.ofOption d.alightSlack
  return { tripId, trip, boardPos, alightPos, boardSlack, alightSlack, rule := d.rule.getD none }

/-- The kind of a leg from JSON. -/
def kind : Decoder LegKind :=
  Decoder.variant fun name v =>
    match name with
    | "Access" => Decoder.unit .access v
    | "Transit" => Decoder.payload (fun v => (details v).map .ride) v
    | "Transfer" => Decoder.unit .transfer v
    | "Egress" => Decoder.unit .egress v
    | _ => .error .malformed

/-- What has been read of a leg. -/
structure LegDraft where
  /-- The kind. -/
  kind : Option LegKind := none
  /-- Where it starts. -/
  fromPlace : Option Place := none
  /-- Where it ends. -/
  toPlace : Option Place := none
  /-- When it starts. -/
  start : Option Time := none
  /-- When it ends. -/
  finish : Option Time := none
  /-- The cost, which may be `null`. -/
  cost : Option (Option Cost) := none

/-- Fills a field of a leg. -/
def LegDraft.set : Decoder.FieldSetter LegDraft := fun d name v => do
  match name with
  | "kind" => return { d with kind := ← Decoder.once d.kind Format.kind v }
  | "from" => return { d with fromPlace := ← Decoder.once d.fromPlace place v }
  | "to" => return { d with toPlace := ← Decoder.once d.toPlace place v }
  | "start" => return { d with start := ← Decoder.once d.start time v }
  | "end" => return { d with finish := ← Decoder.once d.finish time v }
  | "cost" => return { d with cost := ← Decoder.once d.cost (Decoder.optional Format.cost) v }
  | _ => Decoder.skip d v

/-- A leg from JSON. -/
def leg : Decoder Leg := fun v => do
  let d ← Decoder.record ["kind", "from", "to", "start", "end", "cost"] false {} LegDraft.set v
  let kind ← Decoder.ofOption d.kind
  let fromPlace ← Decoder.ofOption d.fromPlace
  let toPlace ← Decoder.ofOption d.toPlace
  let start ← Decoder.ofOption d.start
  let finish ← Decoder.ofOption d.finish
  return { kind, fromPlace, toPlace, start, finish, cost := d.cost.getD none }

/-- A list of legs from JSON. -/
def legs : Decoder (List Leg) := Decoder.list leg

end Format

end Journeys
