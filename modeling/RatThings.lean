import RatThings.Library.Program
import RatThings.Library.Interleaving
import RatThings.Library.RelyGuarantee
import RatThings.Library.VersionedStore
import RatThings.Library.OrderedMap
import RatThings.Library.Digest
import RatThings.Library.RecordService
import RatThings.Library.Listing
import RatThings.Library.Padding
import RatThings.Library.Separator
import RatThings.Agents.Errors
import RatThings.Agents.SessionRuntime
import RatThings.Agents.Store
import RatThings.Runs.Record
import RatThings.Runs.Effects
import RatThings.Runs.Store
import RatThings.Runs.Participants
import RatThings.Runs.Lifecycle
import RatThings.Sessions.Record
import RatThings.Sessions.Planning
import RatThings.Sessions.Accepted
import RatThings.Sessions.Effects
import RatThings.Sessions.Service
import RatThings.Sessions.History
import RatThings.Sessions.Callers
import RatThings.Sessions.Admission
import RatThings.Sessions.Acknowledgement
import RatThings.Workspaces.Planning
import RatThings.Workspaces.Service
import RatThings.Workspaces.Update
import RatThings.Workspaces.Handover
import RatThings.Workspaces.SingleWriter
import RatThings.Workspaces.SnapshotLease
import RatThings.Owners.RateLimit
import RatThings.Deliveries.Fence
import RatThings.Deliveries.AtMostOnce
import RatThings.Domain.CanonicalJson
import RatThings.Executions.Commands
import RatThings.Executions.CommandsOnce
import RatThings.Executions.Drain
import RatThings.Tools.Attempts
import RatThings.Tools.Secrets
import RatThings.Stores.Sqlite
import RatThings.Stores.Dynamo
import RatThings.Stores.Items
import RatThings.Stores.Mirror
import RatThings.Stores.Operations
import RatThings.Stores.Transactions
import RatThings.Stores.Listings
import RatThings.Stores.Agreement
import RatThings.Stores.Contract
import RatThings.Native.Lease
import RatThings.Native.Changes
import RatThings.Native.Ids
import RatThings.Webhooks.Service
import RatThings.Webhooks.Deliveries
import RatThings.Schedules.Service
import RatThings.Schedules.Decisions
import RatThings.Connections.Service
import RatThings.Connections.Refresh
import RatThings.Connections.Revocation
import RatThings.Transfers.Service
import RatThings.Transfers.Copies
import RatThings.Workers.Service
import RatThings.Workers.SingleWorker
import RatThings.Integrations.Record
import RatThings.Integrations.Service
import RatThings.Integrations.Candidates
import RatThings.Integrations.Moves
import RatThings.Integrations.Preserved
import RatThings.Integrations.Callers
import RatThings.Integrations.Answers
import RatThings.Integrations.Filters
import RatThings.Integrations.Requests
import RatThings.Library.Anchors
import RatThings.Sessions.Items
import RatThings.Native.Publication
import RatThings.Runner.Control
import RatThings.Runner.SteeringOnce
import RatThings.Library.Marks
import RatThings.Sessions.Delivery
import RatThings.Native.Admission
import RatThings.Native.Machines
import RatThings.Native.SlotExclusive
import RatThings.Runner.PiCommands
import RatThings.Runner.PiReplay
import RatThings.Library.Json
import RatThings.Runtime.Items
import RatThings.Runtime.ItemOwner
import RatThings.Runtime.Finality
import RatThings.Runtime.State
import RatThings.Runtime.Reducer
import RatThings.Runtime.Steps
import RatThings.Runtime.Endings
import RatThings.Runtime.OwnThread
import RatThings.Runtime.Checkpoint
import RatThings.Runtime.Certified
import RatThings.Library.Scanning
import RatThings.Library.Utf16
import RatThings.Library.Fallible
import RatThings.Library.ReadyOrder
import RatThings.Library.GreedyMatch
import RatThings.Library.Protobuf
import RatThings.Network.RelayFrame
import RatThings.Library.IpText
import RatThings.Network.Destinations
import RatThings.Redaction.Patterns
import RatThings.Redaction.Outputs
import RatThings.Redaction.Responses
import RatThings.Library.Overlap
import RatThings.Library.Encodings
import RatThings.Runtime.LateBinding
import RatThings.Native.Releases
import RatThings.Library.Doubles
import RatThings.Environments.Narrowing
import RatThings.Library.NumberText
import RatThings.Environments.Substitution
import RatThings.Library.JsonText
import RatThings.Library.Forest
import RatThings.Runtime.Traces
import RatThings.Library.Pages
import RatThings.Library.Replay
import RatThings.Library.Decodings
import RatThings.Stores.Pages
import RatThings.Stores.ItemPages
import RatThings.Domain.CursorPages
import RatThings.Environments.FilePages
import RatThings.Runtime.Unchanged
import RatThings.Runner.ChildEvents
import RatThings.Runtime.BindingCommutes
import RatThings.Runtime.TokenSums
import RatThings.Runtime.Usage
import RatThings.Runtime.Families
import RatThings.Artifacts.Multipart
import RatThings.Runner.LocalJournal
import RatThings.Environments.Uploads
import RatThings.Environments.WholeUploads
import RatThings.Environments.UploadRetries
import RatThings.Library.Html
import RatThings.Library.UrlPaths
import RatThings.Artifacts.PublicationSafety
