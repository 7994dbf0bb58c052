import Journeys.Journey.Line
import Journeys.Format.Settings
import Journeys.Proofs.ParetoFront
import Journeys.Proofs.Consistency
import Journeys.Proofs.TransferRules
import Journeys.Proofs.BestTrips
import Journeys.Proofs.BackPointers
import Journeys.Proofs.Criteria
import Journeys.Proofs.Untimed
import Journeys.Proofs.Itinerary
import Journeys.Proofs.Mirror
import Journeys.Proofs.MirroredRides
import Journeys.Proofs.MirroredSearch
import Journeys.Proofs.Duality
import Journeys.Proofs.Verdict
import Journeys.Proofs.ResultSet
import Journeys.Proofs.Search
import Journeys.Proofs.RepeatedOffers
import Journeys.Proofs.BoardingPatterns
import Journeys.Proofs.RelaxedCost
import Journeys.Proofs.RecordedSearch
import Journeys.Proofs.TimeLimit
import Journeys.Proofs.ChainFaults
import Journeys.Proofs.BuiltTables
import Journeys.Proofs.Replay
import Journeys.Proofs.LegForm
import Journeys.Proofs.Prices
import Journeys.Proofs.RunHistory
import Journeys.Proofs.TrustedTrips
import Journeys.Proofs.ChainLoops
import Journeys.Proofs.TripSelection
import Journeys.Proofs.ViolatedRules
import Journeys.Proofs.RiddenSlack
import Journeys.Proofs.UnrelatedRules
import Journeys.Proofs.CompleteJourneys
import Journeys.Proofs.BuiltLegs
import Journeys.Proofs.LegPrices
import Journeys.Proofs.DecodedRecords
import Journeys.Proofs.OverlongSpans
import Journeys.Proofs.CheckedTimes
import Journeys.Proofs.TimeText
import Journeys.Proofs.WaitingTime
import Journeys.Proofs.AcceptedTrips
