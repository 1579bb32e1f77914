import StreetLinking.SettingsDocument
import StreetLinking.Linking.Permanent
import StreetLinking.Linking.Request
import StreetLinking.Fleet.Polling
import StreetLinking.Proofs.Linking.EdgeIndex
import StreetLinking.Proofs.Linking.Lineage
import StreetLinking.Proofs.Linking.OneWay
import StreetLinking.Proofs.Fleet.Reconciliation
import StreetLinking.Proofs.Linking.Reached
import StreetLinking.Proofs.Linking.OverlaySteps
import StreetLinking.Proofs.Linking.TrivialPaths
import StreetLinking.Proofs.Linking.EitherOrder
import StreetLinking.Proofs.Linking.Agreement
import StreetLinking.Proofs.Linking.Persistence
import StreetLinking.Proofs.Linking.Accounts
import StreetLinking.Proofs.Linking.AllOrNothing
import StreetLinking.Proofs.Fleet.SnapshotIndex
import StreetLinking.Fleet.Service
import StreetLinking.Proofs.Fleet.Schedules
import StreetLinking.Proofs.Plane.ExactNumbers
import StreetLinking.Proofs.Plane.Reversal
import StreetLinking.Proofs.Linking.BothWays
import StreetLinking.Proofs.Linking.AreaRegisters
import StreetLinking.Proofs.Linking.Connectors
import StreetLinking.Proofs.Linking.GuestSteps
import StreetLinking.Proofs.Linking.KeptCuts
import StreetLinking.Proofs.Fleet.StreetDistances
import StreetLinking.Proofs.Linking.ConsistentViews
import StreetLinking.Proofs.Nearest.Chains
import StreetLinking.Proofs.Plane.SearchBoxes
import StreetLinking.Proofs.Linking.StopIndex
import StreetLinking.Proofs.Linking.WholeSearch
import StreetLinking.Proofs.Plane.Landing
import StreetLinking.Proofs.Linking.EndCuts
import StreetLinking.Proofs.Linking.LinkEffects
import StreetLinking.Proofs.Linking.FilledAreas
import StreetLinking.Proofs.Number.Ordering
import StreetLinking.Proofs.Nearest.RankLists
import StreetLinking.Proofs.Nearest.Selection
import StreetLinking.Proofs.Plane.Locating
import StreetLinking.Proofs.Plane.Cutting
import StreetLinking.Proofs.Fleet.RoutableLinks
