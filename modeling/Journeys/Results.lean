import Journeys.Criteria
import Journeys.Results.Decision

/-!
# The result set of a search

A `ResultSet` holds the best journeys that one search has found. The search offers it every arrival
at the destination. Arrivals outside the time limit are rejected at once; the others are turned into
journeys and offered to a Pareto front. An arrival without a journey is dropped and the search goes
on; legs that contradict each other are an error and leave the set as it was.

Others may listen, to the decisions or to the progress of the search. They are told and never asked:
the journeys that are kept do not depend on them.
-/

namespace Journeys

/-- The journeys to the destination of one search that no other makes unnecessary. -/
structure ResultSet where
  /-- What makes a journey better than another. -/
  criteria : Criteria
  /-- What turns arrivals into journeys. -/
  rebuild : Rebuilder
  /-- The bound on arrivals, if there is one. -/
  limit : Option TimeBound := none
  /-- The journeys kept so far. -/
  front : Front criteria.better := Front.empty
  /-- Whether a journey was stored since the current round started. -/
  reached : Bool := false
  /-- The departure time of the current iteration, if the search runs over a range of them. -/
  iteration : Option Time := none
  /-- Whether someone listens to decisions. -/
  listened : Bool := false
  /-- How many observe the progress of the search. -/
  observers : Nat := 0

namespace ResultSet

/-- The journeys that are kept, in the order in which they joined. -/
def journeys (s : ResultSet) : List Journey := s.front.elements

/-- The same set with one more observer of progress, who is told after those before. -/
def subscribe (s : ResultSet) : ResultSet := { s with observers := s.observers + 1 }

/-- The same set with someone who listens to decisions. -/
def listen (s : ResultSet) : ResultSet := { s with listened := true }

/-- Decisions as events, if someone listens. -/
def announce (s : ResultSet) (decisions : List Decision) : List Event :=
  if s.listened then decisions.map .decision else []

/-- Progress as events, one to each observer in the order in which they subscribed. -/
def report (s : ResultSet) (progress : Progress) : List Event :=
  (List.range s.observers).map fun observer => .progress observer progress

/-! ## Offers -/

/-- Whether the time limit lets an arrival in. -/
def admits (s : ResultSet) (arrival : FinalArrival) : Bool :=
  s.limit.all fun limit => limit.admits arrival.time

/-- The journey as the current iteration found it. -/
def stamp (s : ResultSet) (journey : Journey) : Journey :=
  match s.iteration with
  | some time => journey.atIteration time
  | none => journey

/-- The set after a journey was offered to its front. -/
def store (s : ResultSet) (journey : Journey) : ResultSet :=
  { s with front := s.front.offer journey, reached := s.reached || s.front.admits journey }

/-- The answer to an offer. -/
structure Reply where
  /-- What became of the arrival, or that its legs contradict each other. -/
  outcome : Except JourneyError Outcome
  /-- What was decided, in order. -/
  decisions : List Decision

/-- The answer to a journey that is offered to the front. -/
def judge (s : ResultSet) (journey : Journey) : Reply :=
  match s.front.judge journey with
  | .accepted evicted =>
    { outcome := .ok (.accepted evicted.length)
      decisions := .accepted journey :: evicted.map fun old => .evicted old journey }
  | .dominated =>
    { outcome := .ok .dominated, decisions := [.rejected (some journey) .dominated] }
  | .duplicate =>
    { outcome := .ok .duplicate, decisions := [.rejected (some journey) .duplicate] }

/-- Offers an arrival at the destination. -/
def consider (s : ResultSet) (table : Arrivals) (arrival : FinalArrival) :
    ResultSet × Reply :=
  if s.admits arrival then
    match s.rebuild table arrival with
    | .ok journey => (s.store (s.stamp journey), s.judge (s.stamp journey))
    | .error (.unusable error) =>
      (s, { outcome := .ok (.dropped error), decisions := [.dropped arrival error] })
    | .error (.inconsistent error) => (s, { outcome := .error error, decisions := [] })
  else
    (s, { outcome := .ok .outsideTimeLimit, decisions := [.rejected none .outsideTimeLimit] })

/-! ## Actions of a search -/

/-- What a search does to its result set. -/
inductive Action where
  /-- It offers an arrival of a table. -/
  | offer (table : Arrivals) (arrival : FinalArrival)
  /-- It passes a boundary. -/
  | pass (progress : Progress)

/-- The set after the search passed a boundary: an iteration marks the journeys from now on with its
departure, and a round starts without having reached anything. -/
def pass (s : ResultSet) : Progress → ResultSet
  | .iterationStart departure => { s with iteration := some departure }
  | .roundStart _ => { s with reached := false }
  | .roundEnd _ => s
  | .searchComplete => s

/-- The result set after an action. -/
def act (s : ResultSet) : Action → ResultSet
  | .offer table arrival => (s.consider table arrival).1
  | .pass progress => s.pass progress

/-- What those who listen are told of an action. -/
def events (s : ResultSet) : Action → List Event
  | .offer table arrival => s.announce (s.consider table arrival).2.decisions
  | .pass progress => s.report progress

/-- The result set after a list of actions, one after the other. -/
def run (s : ResultSet) (actions : List Action) : ResultSet := actions.foldl act s

/-- What those who listen are told of a list of actions. -/
def runEvents (s : ResultSet) : List Action → List Event
  | [] => []
  | action :: actions => s.events action ++ (s.act action).runEvents actions

/-! ## Description -/

/-- The result set in one line, as diagnostics show it. -/
def describe (s : ResultSet) : String :=
  let limit :=
    match s.limit with
    | some limit => "Some(" ++ limit.tagged ++ ")"
    | none => "None"
  let reached := if s.reached then "true" else "false"
  "DestinationPaths \x7b comparator: " ++ s.criteria.tagged
    ++ ", paths: " ++ s.front.size.repr
    ++ ", time_limit: " ++ limit
    ++ ", reached_current_round: " ++ reached ++ ", .. \x7d"

end ResultSet

end Journeys
