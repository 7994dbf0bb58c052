import Journeys.Proofs.TransferRules
import Mathlib.Data.List.Chain
import Mathlib.Data.List.Forall2

/-!
# Proofs: legs and back-pointers

Between collecting a chain of records and placing legs, the steps of the chain are turned round,
grouped into rides and walks, joined with trips and rules, and placed. Nothing gets lost, doubled or
moved on the way: between the two walks at the street there is one leg to each back-pointer of the
chain, in order of travel, and it shows what the record says (`Leg.Shows`).
-/

namespace Journeys

/-! ## Chains of records -/

/-- A record of a chain, and the record that it was reached from. -/
structure BackPointer where
  record : ArrivalRecord
  before : ArrivalRecord

namespace Arrivals

/-- Back-pointers lead from one record of a table to another. -/
inductive LeadsBack (table : Arrivals) : ArrivalRecord → List BackPointer → ArrivalRecord → Prop
  | here (record : ArrivalRecord) : LeadsBack table record [] record
  | back {record before last : ArrivalRecord} {previous : RecordId} {pointers : List BackPointer}
      (hprevious : record.approach.previous? = some previous)
      (hbefore : table.get? previous = some before)
      (hbehind : LeadsBack table before pointers last) :
      LeadsBack table record (⟨record, before⟩ :: pointers) last

/-- Every back-pointer starts where the one before it leads to. -/
theorem LeadsBack.isChain {table : Arrivals} {record last : ArrivalRecord}
    {pointers : List BackPointer} (h : table.LeadsBack record pointers last) :
    pointers.IsChain (fun p q => p.before = q.record) := by
  induction h with
  | here record => exact .nil
  | back _ _ hbehind ih =>
    cases hbehind with
    | here record => exact .singleton _
    | back _ _ _ => exact .cons_cons rfl ih

end Arrivals

/-- What follows back-pointers, put in order of travel. -/
def Direction.travelOrder {α : Type} (direction : Direction) (l : List α) : List α :=
  match direction with
  | .forward => l.reverse
  | .reverse => l

theorem Direction.forall₂_travelOrder {α β : Type} {R : α → β → Prop} {l : List α} {l' : List β}
    (direction : Direction) (h : List.Forall₂ R l l') :
    List.Forall₂ R (direction.travelOrder l) (direction.travelOrder l') := by
  cases direction with
  | forward => exact List.forall₂_reverse_iff.2 h
  | reverse => exact h

theorem Trail.travelled_eq (direction : Direction) (trail : Trail) :
    travelled direction trail = direction.travelOrder trail.steps := by
  cases direction <;> rfl

namespace BackPointer

/-- The stops that a step of a chain runs between, in order of travel. A forward search records
where a step leads to, a reverse search where it comes from. -/
def ends (direction : Direction) (p : BackPointer) : Stop × Stop :=
  match direction with
  | .forward => (p.before.stop, p.record.stop)
  | .reverse => (p.record.stop, p.before.stop)

/-- In order of travel, every step starts at the stop where the one before it ends. -/
theorem isChain_travelOrder {table : Arrivals} {record last : ArrivalRecord}
    {pointers : List BackPointer} (h : table.LeadsBack record pointers last)
    (direction : Direction) :
    (direction.travelOrder pointers).IsChain
      (fun p q => (p.ends direction).2 = (q.ends direction).1) := by
  cases direction with
  | forward =>
    refine List.isChain_reverse.2 (h.isChain.imp ?_)
    intro p q hpq
    exact congrArg ArrivalRecord.stop hpq.symm
  | reverse =>
    refine h.isChain.imp ?_
    intro p q hpq
    exact congrArg ArrivalRecord.stop hpq

/-- A back-pointer stands for a step of a trail. -/
def Records (direction : Direction) (p : BackPointer) : RecordedStep → Prop
  | .ride hop board alight _ =>
    (∃ previous, p.record.approach = .ride previous hop) ∧ p.ends direction = (board, alight)
  | .walk duration => ∃ previous, p.record.approach = .walk previous duration

end BackPointer

/-- Behind a trail that was followed there is a chain of back-pointers to a record of the walk from
the street, one to each step. -/
theorem Trail.Followed.exists_leadsBack {table : Arrivals} {direction : Direction}
    {record : ArrivalRecord} {trail : Trail} (h : Followed table direction record trail) :
    ∃ pointers start, table.LeadsBack record pointers start ∧
      start.approach = .access trail.start ∧ trail.start.stop = start.stop ∧
      List.Forall₂ (BackPointer.Records direction) pointers trail.steps := by
  induction h with
  | access happroach hstop _ => exact ⟨[], _, .here _, happroach, hstop, .nil⟩
  | ride happroach hbefore _ _ ih =>
    obtain ⟨pointers, start, hback, hstart, hstop, hrecords⟩ := ih
    refine ⟨_, start, .back ?_ hbefore hback, hstart, hstop, .cons ?_ hrecords⟩
    · rw [happroach]
      rfl
    · cases direction with
      | forward => exact ⟨⟨_, happroach⟩, rfl⟩
      | reverse => exact ⟨⟨_, happroach⟩, rfl⟩
  | walk happroach hbefore _ _ ih =>
    obtain ⟨pointers, start, hback, hstart, hstop, hrecords⟩ := ih
    refine ⟨_, start, .back ?_ hbefore hback, hstart, hstop, .cons ⟨_, happroach⟩ hrecords⟩
    rw [happroach]
    rfl

/-! ## What a leg shows of a record -/

namespace Leg

/-- The leg is a walk of this kind between two places, as long as the whole seconds of a span. -/
structure IsWalk (leg : Leg) (kind : LegKind) (fromPlace toPlace : Place) (d : Span) : Prop where
  kind : leg.kind = kind
  fromPlace : leg.fromPlace = fromPlace
  toPlace : leg.toPlace = toPlace
  duration : leg.duration.nanos = d.wholeSeconds * 1000000000

/-- The leg is a ride on the pattern of a hop, between its positions and between two stops. -/
structure IsHop (leg : Leg) (hop : Hop) (board alight : Stop) : Prop where
  ride : ∃ details, leg.kind = .ride details ∧ details.trip.pattern = hop.trip.pattern ∧
    details.boardPos = hop.boardPos ∧ details.alightPos = hop.alightPos
  fromPlace : leg.fromPlace = .stop board
  toPlace : leg.toPlace = .stop alight

/-- The leg shows what a record of the chain says about the step from the record before it. -/
def Shows (direction : Direction) (leg : Leg) (p : BackPointer) : Prop :=
  match p.record.approach with
  | .access _ => False
  | .ride _ hop => leg.IsHop hop (p.ends direction).1 (p.ends direction).2
  | .walk _ duration =>
    leg.IsWalk .transfer (.stop (p.ends direction).1) (.stop (p.ends direction).2) duration

/-- Of two legs that follow each other, a walk between stops is beside a ride. -/
def Spaced (a b : Leg) : Prop :=
  (a.isTransfer = true → b.isRide = true) ∧ (b.isTransfer = true → a.isRide = true)

theorem isWalk_unpriced {leg : Leg} {kind : LegKind} {fromPlace toPlace : Place} {d : Span} :
    leg.unpriced.IsWalk kind fromPlace toPlace d ↔ leg.IsWalk kind fromPlace toPlace d :=
  ⟨fun ⟨h₁, h₂, h₃, h₄⟩ => ⟨h₁, h₂, h₃, h₄⟩, fun ⟨h₁, h₂, h₃, h₄⟩ => ⟨h₁, h₂, h₃, h₄⟩⟩

theorem shows_unpriced {direction : Direction} {leg : Leg} {p : BackPointer} :
    leg.unpriced.Shows direction p ↔ leg.Shows direction p := by
  unfold Shows
  split
  · exact Iff.rfl
  · exact ⟨fun ⟨h₁, h₂, h₃⟩ => ⟨h₁, h₂, h₃⟩, fun ⟨h₁, h₂, h₃⟩ => ⟨h₁, h₂, h₃⟩⟩
  · exact isWalk_unpriced

/-- A leg that ends a span after it starts is as long as the whole seconds of that span. -/
theorem nanos_duration {leg : Leg} {d : Span}
    (h : leg.finish.seconds = leg.start.seconds + d.wholeSeconds) :
    leg.duration.nanos = d.wholeSeconds * 1000000000 := by
  rw [duration, Time.nanos_since, h]
  omega

end Leg

/-! ## Placing -/

namespace Placement

theorem isWalk_of_accessLeg {access : StreetWalk} {r : Ridden} {leg : Leg}
    (h : accessLeg access r = .ok leg) :
    leg.IsWalk .access .origin (.stop access.stop) access.duration := by
  obtain ⟨start, finish, rfl, -, hstart⟩ := exists_of_accessLeg h
  refine ⟨rfl, rfl, rfl, Leg.nanos_duration ?_⟩
  show finish.seconds = start.seconds + access.duration.wholeSeconds
  omega

theorem isWalk_of_egressLeg {egress : StreetWalk} {r : Ridden} {leg : Leg}
    (h : egressLeg egress r = .ok leg) :
    leg.IsWalk .egress (.stop egress.stop) .destination egress.duration := by
  obtain ⟨start, finish, rfl, -, hfinish⟩ := exists_of_egressLeg h
  exact ⟨rfl, rfl, rfl, Leg.nanos_duration hfinish⟩

theorem isWalk_of_transferLegs {a b : Ridden} {change : Change} {walk : List Leg}
    (h : transferLegs a change b = .ok walk) :
    List.Forall₂ (fun leg d => leg.IsWalk .transfer (.stop a.ride.alight) (.stop b.ride.board) d)
      walk change.walk.toList := by
  rcases exists_of_transferLegs h with ⟨hwalk, rfl⟩ | ⟨d, start, finish, hwalk, rfl, -, hfinish⟩
  · rw [hwalk]
    exact .nil
  · rw [hwalk]
    exact .cons ⟨rfl, rfl, rfl, Leg.nanos_duration hfinish⟩ .nil

/-- A ride shows the record that it was read from. -/
theorem shows_asLeg {direction : Direction} {p : BackPointer} {r : Ridden}
    (hpattern : r.trip.pattern = r.ride.hop.trip.pattern) (hp : p.Records direction r.ride.step)
    (rule : Option TransferRule) : (r.asLeg rule).Shows direction p := by
  obtain ⟨⟨previous, happroach⟩, hends⟩ := hp
  unfold Leg.Shows
  rw [happroach, hends]
  exact ⟨⟨r.details rule, rfl, hpattern, rfl, rfl⟩, rfl, rfl⟩

/-- The walk of a change shows its record, if there is one: it leads from the ride before it to the
one behind it. -/
theorem shows_transferLegs {direction : Direction} {a b : Ridden} {change : Change}
    {walk : List Leg} {p : BackPointer} {pointers : List BackPointer} {steps : List RecordedStep}
    (h : transferLegs a change b = .ok walk) (hp : p.Records direction a.ride.step)
    (hrecords : List.Forall₂ (BackPointer.Records direction) pointers
      (change.walk.toList.map .walk ++ b.ride.step :: steps))
    (hjoined : (p :: pointers).IsChain
      (fun p q => (p.ends direction).2 = (q.ends direction).1)) :
    ∃ walked further, pointers = walked ++ further ∧
      List.Forall₂ (Leg.Shows direction) walk walked ∧
      List.Forall₂ (BackPointer.Records direction) further (b.ride.step :: steps) ∧
      further.IsChain (fun p q => (p.ends direction).2 = (q.ends direction).1) := by
  have hwalks := isWalk_of_transferLegs h
  cases hchange : change.walk with
  | none =>
    rw [hchange] at hwalks hrecords
    obtain rfl := List.forall₂_nil_right_iff.1 hwalks
    exact ⟨[], pointers, rfl, .nil, hrecords, hjoined.tail⟩
  | some d =>
    rw [hchange] at hwalks hrecords
    obtain ⟨leg, more, hleg, hmore, rfl⟩ := List.forall₂_cons_right_iff.1 hwalks
    obtain rfl := List.forall₂_nil_right_iff.1 hmore
    obtain ⟨w, further, ⟨previous, happroach⟩, hfurther, rfl⟩ :=
      List.forall₂_cons_right_iff.1 hrecords
    obtain ⟨q, behind, hq, -, rfl⟩ := List.forall₂_cons_right_iff.1 hfurther
    obtain ⟨hpw, hjoined⟩ := List.isChain_cons_cons.1 hjoined
    obtain ⟨hwq, hjoined⟩ := List.isChain_cons_cons.1 hjoined
    refine ⟨[w], q :: behind, rfl, .cons ?_ .nil, hfurther, hjoined⟩
    have hpends : p.ends direction = (a.ride.board, a.ride.alight) := hp.2
    have hqends : q.ends direction = (b.ride.board, b.ride.alight) := hq.2
    unfold Leg.Shows
    rw [happroach, ← hpw, hwq, hpends, hqends]
    exact hleg

/-- From a ride on, there is one leg to each step, and behind them the walk to the destination. -/
theorem shows_legsFrom {direction : Direction} {egress : StreetWalk} {rule : Option TransferRule}
    {r : Ridden} {rest : List (Change × Ridden)} {legs : List Leg} {pointers : List BackPointer}
    (h : legsFrom egress rule r rest = .ok legs)
    (hpattern : ∀ x ∈ (⟨r, rest⟩ : Linked Change Ridden).toList,
      x.trip.pattern = x.ride.hop.trip.pattern)
    (hrecords : List.Forall₂ (BackPointer.Records direction) pointers (r.ride.step ::
      RecordedJourney.restSteps (rest.map (Prod.map Change.walk Ridden.ride))))
    (hjoined : pointers.IsChain (fun p q => (p.ends direction).2 = (q.ends direction).1)) :
    ∃ between last, legs = between ++ [last] ∧
      egressLeg egress (Linked.lastFrom r rest) = .ok last ∧
      List.Forall₂ (Leg.Shows direction) between pointers := by
  induction rest generalizing rule r legs pointers with
  | nil =>
    obtain ⟨last, hlast, rfl⟩ := exists_of_legsFrom_nil h
    obtain ⟨p, more, hp, hmore, rfl⟩ := List.forall₂_cons_right_iff.1 hrecords
    obtain rfl := List.forall₂_nil_right_iff.1 hmore
    have hleg := shows_asLeg (hpattern r (Linked.first_mem_toList _)) hp rule
    exact ⟨[r.asLeg rule], last, rfl, hlast, .cons hleg .nil⟩
  | cons link rest ih =>
    obtain ⟨change, next⟩ := link
    obtain ⟨walk, behind, hwalk, hbehind, rfl⟩ := exists_of_legsFrom_cons h
    obtain ⟨p, more, hp, hmore, rfl⟩ := List.forall₂_cons_right_iff.1 hrecords
    have hleg := shows_asLeg (hpattern r (Linked.first_mem_toList _)) hp rule
    have hsteps : RecordedJourney.restSteps
        (((change, next) :: rest).map (Prod.map Change.walk Ridden.ride)) =
        change.walk.toList.map .walk ++ next.ride.step ::
          RecordedJourney.restSteps (rest.map (Prod.map Change.walk Ridden.ride)) := by
      simp [RecordedJourney.restSteps]
    rw [hsteps] at hmore
    obtain ⟨walked, further, rfl, hwalked, hfurther, hjoined⟩ :=
      shows_transferLegs hwalk hp hmore hjoined
    have hpatterns := (List.forall_mem_cons.1 hpattern).2
    obtain ⟨between, last, rfl, hlast, hshows⟩ := ih hbehind hpatterns hfurther hjoined
    refine ⟨r.asLeg rule :: (walk ++ between), last, by simp, hlast, .cons hleg ?_⟩
    exact List.rel_append hwalked hshows

/-- Behind a ride, walks between stops are beside rides only. -/
theorem spaced_legsFrom {egress : StreetWalk} {rule : Option TransferRule} {r : Ridden}
    {rest : List (Change × Ridden)} {legs : List Leg}
    (h : legsFrom egress rule r rest = .ok legs) :
    ∃ behind, legs = r.asLeg rule :: behind ∧ legs.IsChain Leg.Spaced := by
  induction rest generalizing rule r legs with
  | nil =>
    obtain ⟨last, hlast, rfl⟩ := exists_of_legsFrom_nil h
    exact ⟨[last], rfl, .cons_cons ⟨nofun, fun _ => rfl⟩ (.singleton _)⟩
  | cons link rest ih =>
    obtain ⟨change, next⟩ := link
    obtain ⟨walk, behind, hwalk, hbehind, rfl⟩ := exists_of_legsFrom_cons h
    obtain ⟨more, rfl, hchain⟩ := ih hbehind
    refine ⟨_, rfl, ?_⟩
    have hwalks := isWalk_of_transferLegs hwalk
    cases hchange : change.walk with
    | none =>
      rw [hchange] at hwalks
      obtain rfl := List.forall₂_nil_right_iff.1 hwalks
      exact .cons_cons ⟨nofun, nofun⟩ hchain
    | some d =>
      rw [hchange] at hwalks
      obtain ⟨leg, none', hleg, hnone, rfl⟩ := List.forall₂_cons_right_iff.1 hwalks
      obtain rfl := List.forall₂_nil_right_iff.1 hnone
      exact .cons_cons ⟨nofun, fun _ => rfl⟩ (.cons_cons ⟨fun _ => rfl, nofun⟩ hchain)

end Placement

/-- The steps of rides do not depend on more than the step of each of them. -/
theorem RecordedJourney.steps_congr {rides rides' : Linked (Option Span) RecordedRide}
    (h : rides.map id RecordedRide.step = rides'.map id RecordedRide.step) :
    steps rides = steps rides' := by
  have hsteps (l : Linked (Option Span) RecordedRide) : steps l =
      (l.map id RecordedRide.step).first :: (l.map id RecordedRide.step).rest.flatMap
        fun p => p.1.toList.map .walk ++ [p.2] := by
    simp [steps, restSteps, Linked.map, List.flatMap_map]
  rw [hsteps, hsteps, h]

namespace Reconstruction

variable {c : Reconstruction} {table : Arrivals} {arrival : FinalArrival}
  {recorded : RecordedJourney} {ridden : Linked (Option Span) Ridden}
  {settled : Linked Change Ridden} {j : Journey}

namespace Steps

/-- Trips and rules leave the steps as they were recorded. -/
theorem steps_settled (h : c.Steps table arrival recorded ridden settled) :
    RecordedJourney.steps (settled.map Change.walk Ridden.ride) =
      RecordedJourney.steps recorded.rides := by
  obtain ⟨rfl, -, -⟩ := Change.ofRides_eq_ok_iff.1 h.settles
  refine RecordedJourney.steps_congr ?_
  rw [← h.assigns.rides, Linked.map_map, Linked.map_map]
  exact Change.map_settled (fun r => r.ride.step) (fun _ _ _ => rfl) c.rules none ridden.first
    ridden.rest

theorem length_settled (h : c.Steps table arrival recorded ridden settled) :
    settled.length = recorded.rides.length := by
  rw [← settled.length_links, ← recorded.rides.length_links, ← h.links, List.length_map]

end Steps

end Reconstruction

/-- The walks from and to the street, given the one that a search starts with and the one that it
ends with. -/
def Direction.streetWalks (direction : Direction) (start final : StreetWalk) :
    StreetWalk × StreetWalk :=
  match direction with
  | .forward => (start, final)
  | .reverse => (final, start)

theorem RecordedJourney.Reads.streetWalks {network : Network} {slack : SlackPolicy}
    {direction : Direction} {egress : StreetWalk} {trail : Trail} {journey : RecordedJourney}
    (h : Reads network slack direction egress trail journey) :
    journey.access = (direction.streetWalks trail.start egress).1 ∧
      journey.egress = (direction.streetWalks trail.start egress).2 := by
  cases direction with
  | forward => exact h.walks
  | reverse => exact h.walks

/-- The legs of a journey retrace a chain of records, from the walk that its search started with to
the arrival. -/
structure Journey.Retraces (j : Journey) (direction : Direction) (arrival : FinalArrival)
    (pointers : List BackPointer) (start : StreetWalk) : Prop where
  /-- Between the two walks at the street there is one leg to each record, in order of travel. -/
  legs : ∃ first between last, j.legs = first :: (between ++ [last]) ∧
    first.IsWalk .access .origin (.stop (direction.streetWalks start arrival.egress).1.stop)
      (direction.streetWalks start arrival.egress).1.duration ∧
    List.Forall₂ (Leg.Shows direction) between (direction.travelOrder pointers) ∧
    last.IsWalk .egress (.stop (direction.streetWalks start arrival.egress).2.stop) .destination
      (direction.streetWalks start arrival.egress).2.duration
  /-- Walks between stops are beside rides only. -/
  spaced : j.legs.IsChain Leg.Spaced
  /-- There are as many rides as the arrival has rounds. -/
  count : j.rideCount = arrival.round

/-- What was placed for a chain retraces it, whatever the prices. -/
theorem Journey.Retraces.of_legs {j : Journey} {direction : Direction} {arrival : FinalArrival}
    {pointers : List BackPointer} {start : StreetWalk}
    {settled : Linked Change Ridden} {legs : List Leg}
    (hlegs : Placement.legs (direction.streetWalks start arrival.egress).1
      (direction.streetWalks start arrival.egress).2 settled = .ok legs)
    (hj : j.legs.map Leg.unpriced = legs.map Leg.unpriced)
    (hpattern : ∀ r ∈ settled.toList, r.trip.pattern = r.ride.hop.trip.pattern)
    (hrecords : List.Forall₂ (BackPointer.Records direction) (direction.travelOrder pointers)
      (RecordedJourney.steps (settled.map Change.walk Ridden.ride)))
    (hjoined : (direction.travelOrder pointers).IsChain
      (fun p q => (p.ends direction).2 = (q.ends direction).1))
    (hcount : j.rideCount = arrival.round) : j.Retraces direction arrival pointers start := by
  obtain ⟨first, hfirst, h⟩ := bind_eq_ok_iff.1 hlegs
  obtain ⟨behind, hbehind, h⟩ := bind_eq_ok_iff.1 h
  obtain rfl := pure_eq_ok_iff.1 h
  obtain ⟨between, last, rfl, hlast, hshows⟩ :=
    Placement.shows_legsFrom hbehind hpattern hrecords hjoined
  obtain ⟨more, hmore, hspaced⟩ := Placement.spaced_legsFrom hbehind
  have haccess := Placement.isWalk_of_accessLeg hfirst
  have hegress := Placement.isWalk_of_egressLeg hlast
  have hchain : (first :: (between ++ [last])).IsChain Leg.Spaced := by
    rw [hmore] at hspaced ⊢
    refine .cons_cons ⟨fun _ => rfl, ?_⟩ hspaced
    exact nofun
  refine ⟨?_, ?_, hcount⟩
  · rw [List.map_cons, List.map_append, List.map_singleton] at hj
    obtain ⟨first', rest, hrest, hsame, hj⟩ := List.map_eq_cons_iff.1 hj
    obtain ⟨between', last', rfl, hbetween, hj⟩ := List.map_eq_append_iff.1 hj
    obtain ⟨last', rfl, hsame'⟩ := List.map_eq_singleton_iff.1 hj
    refine ⟨first', between', last', hrest, ?_, ?_, ?_⟩
    · rw [← Leg.isWalk_unpriced, hsame, Leg.isWalk_unpriced]
      exact haccess
    · have hshows' : List.Forall₂ (Leg.Shows direction) (between.map Leg.unpriced)
          (direction.travelOrder pointers) := by
        rw [List.forall₂_map_left_iff]
        exact hshows.imp fun _ _ => Leg.shows_unpriced.2
      rw [← hbetween, List.forall₂_map_left_iff] at hshows'
      exact hshows'.imp fun _ _ => Leg.shows_unpriced.1
    · rw [← Leg.isWalk_unpriced, hsame', Leg.isWalk_unpriced]
      exact hegress
  · have hunpriced : (j.legs.map Leg.unpriced).IsChain Leg.Spaced := by
      rw [hj, List.isChain_map]
      exact hchain
    rw [List.isChain_map] at hunpriced
    exact hunpriced

namespace Reconstruction

variable {c : Reconstruction} {table : Arrivals} {arrival : FinalArrival} {j : Journey}

/-- Whatever the table holds, the legs of a journey are those of the chain behind its arrival. -/
theorem journey_retraces_records (h : c.journey table arrival = .ok j) :
    ∃ record pointers last start, table.get? arrival.previous = some record ∧
      table.LeadsBack record pointers last ∧ last.approach = .access start ∧
      start.stop = last.stop ∧ j.Retraces c.direction arrival pointers start := by
  obtain ⟨recorded, ridden, settled, legs, hsteps, hlegs, hj⟩ := exists_steps_of_journey h
  obtain ⟨record, trail, hrecord, -, hfollowed, hreads, hrounds⟩ :=
    RecordedJourney.exists_followed_of_ofArrival hsteps.found
  obtain ⟨pointers, last, hback, hlast, hstop, hrecords⟩ := hfollowed.exists_leadsBack
  refine ⟨record, pointers, last, trail.start, hrecord, hback, hlast, hstop, ?_⟩
  obtain ⟨haccess, hegress⟩ := hreads.streetWalks
  have hsteps' : RecordedJourney.steps (settled.map Change.walk Ridden.ride) =
      c.direction.travelOrder trail.steps := by
    rw [hsteps.steps_settled, hreads.steps, Trail.travelled_eq]
  have hcount : j.rideCount = arrival.round := by
    obtain ⟨recorded', ridden', settled', hsteps', hlegsOf⟩ := exists_legsOf_of_journey h
    obtain ⟨rfl, rfl, rfl⟩ := hsteps.eq hsteps'
    rw [j.rideCount_eq, hlegsOf.length_rideLegs, hsteps.length_settled, hrounds]
  rw [haccess, hegress] at hlegs
  refine .of_legs hlegs hj ?_ ?_ (BackPointer.isChain_travelOrder hback c.direction) hcount
  · intro r hr
    exact (hsteps.scheduled r hr).onTrip.pattern
  · rw [hsteps']
    exact c.direction.forall₂_travelOrder hrecords

/-- The journey by the late connection retraces the records of the early one. -/
theorem journey_retraces_records_feeder :
    ∃ j, (feederSearch TransferRules.unconstrained false).journey feederTable feederArrival =
        .ok j ∧
      ∃ pointers start, j.Retraces .forward feederArrival pointers start := by
  have hrides : ((feederSearch TransferRules.unconstrained false).journey feederTable
      feederArrival).map (fun j => j.rideCount) = .ok 2 := rfl
  cases hj : (feederSearch TransferRules.unconstrained false).journey feederTable
      feederArrival with
  | error e =>
    rw [hj] at hrides
    cases hrides
  | ok j =>
    obtain ⟨-, pointers, -, start, -, -, -, -, hretraces⟩ := journey_retraces_records hj
    exact ⟨j, rfl, pointers, start, hretraces⟩

end Reconstruction

end Journeys
