import StandingQuery.Json.Reader
import StandingQuery.Patch.Application
import StandingQuery.Patch.Codec
import StandingQuery.Proofs.Patch.Difference
import StandingQuery.Proofs.Query.Invalidation
import StandingQuery.Session.Listening
import StandingQuery.Session.Live
import StandingQuery.Settings.Handle
import StandingQuery.Proofs.Feed.Connection
import StandingQuery.Proofs.Hub.Arrivals
import StandingQuery.Proofs.Hub.Departures
import StandingQuery.Proofs.Hub.Reports
import StandingQuery.Proofs.Hub.Messages
import StandingQuery.Proofs.System.Passage
import StandingQuery.Proofs.System.Quiescence
import StandingQuery.Proofs.Hub.Requests
import StandingQuery.Proofs.Hub.Batches
import StandingQuery.Proofs.System.Chronicle
import StandingQuery.Proofs.Hub.Announcements
import StandingQuery.Proofs.Hub.Patches
import StandingQuery.Proofs.Query.Membership
import StandingQuery.Proofs.Hub.Hearing
import StandingQuery.Proofs.System.Residue
import StandingQuery.Proofs.System.Restoration
import StandingQuery.Proofs.Feed.Delivery
import StandingQuery.Proofs.Json.Fingerprint
import StandingQuery.Proofs.Hub.Repetition
import StandingQuery.Proofs.Refresh.Silence
import StandingQuery.Proofs.Query.Sharing
import StandingQuery.Proofs.Query.Restatement
import StandingQuery.Proofs.Patch.Codec
import StandingQuery.Proofs.System.Economy
import StandingQuery.Proofs.System.Prefixes
import StandingQuery.Proofs.Patch.Indexing
import StandingQuery.Proofs.Patch.Replay
import StandingQuery.Proofs.Routing.Shape
import StandingQuery.Proofs.Store.Links
import StandingQuery.Proofs.Store.Locality
import StandingQuery.Proofs.Feed.Backoff
import StandingQuery.Proofs.Graph.Sorting
import StandingQuery.Proofs.Settings.Reload
import StandingQuery.Proofs.Filter.Expression
import StandingQuery.Proofs.Patch.Minimality
import StandingQuery.Proofs.Query.Pinning
import StandingQuery.Proofs.Graph.Distance
import StandingQuery.Proofs.Query.Version
import StandingQuery.Proofs.Query.Marking
import StandingQuery.Proofs.FieldPath.Prefixes
import StandingQuery.Proofs.Store.Views
import StandingQuery.Proofs.Patch.Endings
