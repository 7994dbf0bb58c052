import Journeys.Span
import Journeys.Timetable.Pattern

/-!
# Transfer rules and slack

Between alighting one trip and boarding the next, a traveller needs some slack, which the network's
`SlackPolicy` states per stop and trip. A `TransferRule` overrides it for one pair of trips: it
demands a least gap, an exact gap, or forbids the transfer. `TransferRules` is any way of looking a
rule up; `RuleBook` is the usual one, a list of rules by the trip and stop at each end.
-/

namespace Journeys

/-- A rule that replaces the usual slack between two trips. -/
inductive TransferRule where
  /-- The gap between alighting and boarding must be at least this long. -/
  | minimumTime (least : Span)
  /-- The gap between alighting and boarding must be exactly this long. -/
  | exactTime (exact : Span)
  /-- The transfer is not allowed. -/
  | forbidden
deriving DecidableEq, Repr

/-- One end of a transfer between two trips. -/
structure TransferEnd where
  /-- The trip alighted or boarded. -/
  trip : TripId
  /-- Where that happens. -/
  stop : Stop
  /-- The position of the stop in the pattern of the trip. -/
  position : Nat
deriving DecidableEq, Repr

/-- Looks up the rule, if any, for alighting at the first point and boarding at the second. -/
structure TransferRules where
  /-- The rule between two points. -/
  find? : TransferEnd → TransferEnd → Option TransferRule

namespace TransferRules

/-- A network without transfer rules. -/
def unconstrained : TransferRules := ⟨fun _ _ => none⟩

/-- Rules between exact points, positions included; the first entry for a pair counts. -/
def atEnds (entries : List (TransferEnd × TransferEnd × TransferRule)) : TransferRules :=
  ⟨fun a b => (entries.find? fun (a', b', _) => a' = a ∧ b' = b).map (·.2.2)⟩

end TransferRules

/-! ## Rules by trip and stop -/

/-- The trips and stops that a rule of a `RuleBook` joins. The position of a stop in its pattern is
not part of this, so a rule holds at every visit of a looping pattern. -/
structure RuleKey where
  /-- The trip alighted. -/
  fromTrip : TripId
  /-- Where it is alighted. -/
  fromStop : Stop
  /-- The trip boarded. -/
  toTrip : TripId
  /-- Where it is boarded. -/
  toStop : Stop
deriving DecidableEq, Repr

/-- The key under which the rule between two points is kept. -/
def RuleKey.between (a b : TransferEnd) : RuleKey := ⟨a.trip, a.stop, b.trip, b.stop⟩

/-- Rules by the trip and stop at each end, at most one to a key. -/
structure RuleBook where
  /-- The rules with their keys, the last one inserted first. -/
  entries : List (RuleKey × TransferRule)
  /-- No two rules share a key. -/
  keys_ne : entries.Pairwise fun a b => a.1 ≠ b.1

namespace RuleBook

/-- The book without rules. -/
def empty : RuleBook := ⟨[], List.Pairwise.nil⟩

/-- The rule under a key. -/
def get? (book : RuleBook) (key : RuleKey) : Option TransferRule :=
  (book.entries.find? (·.1 = key)).map (·.2)

/-- Adds the rule for a key, in place of the one that stood there. -/
def insert (book : RuleBook) (key : RuleKey) (rule : TransferRule) : RuleBook :=
  { entries := (key, rule) :: book.entries.filter (·.1 ≠ key)
    keys_ne := by
      refine List.pairwise_cons.2 ⟨fun entry h => ?_, book.keys_ne.filter _⟩
      have hne : entry.1 ≠ key := by simpa using (List.mem_filter.1 h).2
      exact hne.symm }

/-- The number of rules. -/
def size (book : RuleBook) : Nat := book.entries.length

/-- The book of a list of rules; of two rules for a key the later one counts. -/
def ofList (rules : List (RuleKey × TransferRule)) : RuleBook :=
  rules.foldl (fun book (key, rule) => book.insert key rule) empty

/-- A rule book as a way of looking rules up. -/
def rules (book : RuleBook) : TransferRules := ⟨fun a b => book.get? (RuleKey.between a b)⟩

/-- The rule just inserted is found under its key. -/
@[simp] theorem get?_insert_self (book : RuleBook) (key : RuleKey) (rule : TransferRule) :
    (book.insert key rule).get? key = some rule := by
  simp [get?, insert]

/-- Inserting a rule leaves all other keys as they were. -/
theorem get?_insert_of_ne (book : RuleBook) {key other : RuleKey} (rule : TransferRule)
    (h : other ≠ key) : (book.insert key rule).get? other = book.get? other := by
  have hkey : ¬key = other := fun e => h e.symm
  simp only [get?, insert, List.find?_cons, hkey, decide_false, List.find?_filter]
  congr 1
  congr 1
  funext entry
  by_cases he : entry.1 = other
  · simp [he, h]
  · simp [he]

end RuleBook

/-! ## Slack -/

/-- The buffers that a network asks for around boarding and alighting. -/
structure SlackPolicy where
  /-- The time that must pass between reaching a stop and boarding a trip there. -/
  board : Stop → TripSlot → Span
  /-- The time that must pass after alighting a trip at a stop. -/
  alight : Stop → TripSlot → Span

/-- The same slack everywhere, never negative. -/
structure UniformSlack where
  /-- The slack before boarding. -/
  board : Span
  /-- The slack after alighting. -/
  alight : Span
deriving DecidableEq, Repr

namespace UniformSlack

/-- Uniform slack; a negative span counts as none. -/
def ofSpans (board alight : Span) : UniformSlack := ⟨board.clampNonneg, alight.clampNonneg⟩

/-- No slack at all. -/
def zero : UniformSlack := ofSpans Span.zero Span.zero

/-- Uniform slack as a policy. -/
def policy (s : UniformSlack) : SlackPolicy := ⟨fun _ _ => s.board, fun _ _ => s.alight⟩

end UniformSlack

namespace SlackPolicy

/-- Slack by exception: what is listed for the trip, else what is listed for the stop, else the
rest. Each entry holds the slack before boarding and the slack after alighting. -/
def ofExceptions (byTrip : List (TripSlot × Span × Span)) (byStop : List (Stop × Span × Span))
    (rest : Span × Span) : SlackPolicy :=
  let spans (s : Stop) (r : TripSlot) : Span × Span :=
    match byTrip.find? (·.1 = r), byStop.find? (·.1 = s) with
    | some (_, spans), _ => spans
    | none, some (_, spans) => spans
    | none, none => rest
  ⟨fun s r => (spans s r).1, fun s r => (spans s r).2⟩

end SlackPolicy

end Journeys
