import Journeys.Journey

/-!
# The line of a journey

A journey in one line of text: when it starts, then each leg (a ride by its trip and times, a walk
by its duration) with the stop that it leads to between tildes, when it ends, and what it costs.

    09:50 Walk 5m ~ Central ~ T1 10:00-10:20 ~ Harbour ~ Walk 3m 10:23 [$2700]
-/

namespace Journeys

/-- A leg in the line of a journey. -/
def Leg.line (names : StopNames) (leg : Leg) : String :=
  let body :=
    match leg.kind with
    | .ride ride =>
      " " ++ ride.tripId.text ++ " " ++ leg.start.text ++ "-" ++ leg.finish.text
    | _ => " Walk " ++ leg.duration.text
  match leg.toPlace with
  | .stop stop => body ++ " ~ " ++ names stop ++ " ~"
  | _ => body

/-- A journey in one line, with its stops under these names. -/
def Journey.line (names : StopNames) (j : Journey) : String :=
  let price :=
    match j.cost with
    | some cost => " [" ++ cost.text ++ "]"
    | none => ""
  j.startTime.text ++ String.join (j.legs.map (Leg.line names)) ++ " " ++ j.endTime.text ++ price

end Journeys
