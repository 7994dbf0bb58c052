import Journeys.Journey

/-!
# Tariffs

The formula for generalized cost belongs to whoever runs the search. A `Tariff` is that formula: the
cost of travelling a leg, and the cost of boarding a ride after some wait. `Tariff.price` attaches
to every leg its cost, boarding included, and adds them up on the way, so the cost of a journey is
the sum of the costs of its legs (`Tariff.price_eq`). `Reluctance` is the usual tariff: time
weighted by activity, and a penalty for every boarding.
-/

namespace Journeys

/-- A formula for generalized cost. -/
structure Tariff where
  /-- The cost of travelling a leg. -/
  leg : Leg → Cost
  /-- The cost of boarding a ride after a wait; the flag says whether it is the first ride. -/
  boarding : Bool → Span → Leg → Cost := fun _ _ _ => Cost.zero

namespace Tariff

/-- The same cost for every leg, and boarding for free. -/
def flat (cost : Cost) : Tariff := { leg := fun _ => cost }

/-- The wait before a leg, given when the previous one ended: none before the first leg, and never
negative. -/
def waitBefore (previousFinish : Option Time) (leg : Leg) : Span :=
  match previousFinish with
  | some finish => (leg.start.since finish).clampNonneg
  | none => Span.zero

/-- The cost of a leg where it stands: a ride adds the cost of boarding it. -/
def costOf (tariff : Tariff) (first : Bool) (previousFinish : Option Time) (leg : Leg) : Cost :=
  if leg.isRide then
    tariff.leg leg + tariff.boarding first (waitBefore previousFinish leg) leg
  else
    tariff.leg leg

/-- Prices legs in order of travel, and adds what they cost to `total`; `first` says that no ride
came before them, and `previousFinish` when the leg before them ended. -/
def priceFrom (tariff : Tariff) : Bool → Option Time → Cost → List Leg → List Leg × Cost
  | _, _, total, [] => ([], total)
  | first, previousFinish, total, leg :: rest =>
    let cost := tariff.costOf first previousFinish leg
    let (pricedRest, sum) :=
      tariff.priceFrom (first && !leg.isRide) (some leg.finish) (total + cost) rest
    (leg.priced cost :: pricedRest, sum)

/-- The legs of a journey with their costs, and the sum of these. -/
def price (tariff : Tariff) (legs : List Leg) : List Leg × Cost :=
  tariff.priceFrom true none Cost.zero legs

/-! ## The legs and the total apart -/

/-- The legs that `priceFrom` prices. They do not depend on the total. -/
def priceLegs (tariff : Tariff) : Bool → Option Time → List Leg → List Leg
  | _, _, [] => []
  | first, previousFinish, leg :: rest =>
    leg.priced (tariff.costOf first previousFinish leg)
      :: tariff.priceLegs (first && !leg.isRide) (some leg.finish) rest

theorem priceFrom_eq (tariff : Tariff) (first : Bool) (previousFinish : Option Time) (total : Cost)
    (legs : List Leg) :
    tariff.priceFrom first previousFinish total legs =
      (tariff.priceLegs first previousFinish legs,
        ((tariff.priceLegs first previousFinish legs).map fun leg =>
          leg.cost.getD Cost.zero).foldl (· + ·) total) := by
  induction legs generalizing first previousFinish total with
  | nil => rfl
  | cons leg rest ih =>
    rw [priceFrom, ih]
    rfl

/-- Adding the costs up on the way comes to the same as adding up those of the priced legs. -/
theorem price_eq (tariff : Tariff) (legs : List Leg) :
    tariff.price legs =
      (tariff.priceLegs true none legs,
        Cost.sum ((tariff.priceLegs true none legs).map fun leg => leg.cost.getD Cost.zero)) :=
  tariff.priceFrom_eq true none Cost.zero legs

theorem fst_price (tariff : Tariff) (legs : List Leg) :
    (tariff.price legs).1 = tariff.priceLegs true none legs := by
  rw [price_eq]

end Tariff

/-- Weights for the time spent on a journey, and penalties for boarding. -/
structure Reluctance where
  /-- The weight of walking. -/
  walk : Float := 2.0
  /-- The weight of waiting for a ride. -/
  wait : Float := 1.0
  /-- The weight of riding. -/
  ride : Float := 1.0
  /-- The penalty for every boarding. -/
  board : Cost := Cost.ofNat 60000
  /-- The further penalty for every boarding after the first. -/
  transfer : Cost := Cost.zero

namespace Reluctance

/-- The cost of travelling a leg. -/
def costOfLeg (r : Reluctance) (leg : Leg) : Cost :=
  Cost.ofSeconds leg.duration.wholeSeconds (if leg.isRide then r.ride else r.walk)

/-- The cost of boarding after a wait. -/
def costOfBoarding (r : Reluctance) (first : Bool) (wait : Span) : Cost :=
  (if first then r.board else r.board + r.transfer) + Cost.ofSeconds wait.wholeSeconds r.wait

/-- The weights and penalties as a tariff. -/
def tariff (r : Reluctance) : Tariff :=
  { leg := r.costOfLeg, boarding := fun first wait _ => r.costOfBoarding first wait }

end Reluctance

end Journeys
