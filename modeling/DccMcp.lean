import DccMcp.Lib.Blocks
import DccMcp.Lib.Bytes
import DccMcp.Lib.Machine
import DccMcp.Lib.Cancellation
import DccMcp.Lib.Dependency
import DccMcp.Lib.Digits
import DccMcp.Lib.Framing
import DccMcp.Lib.Json
import DccMcp.Lib.Ledger
import DccMcp.Lib.Masking
import DccMcp.Lib.MessagePack
import DccMcp.Lib.OrderedMap
import DccMcp.Lib.Process
import DccMcp.Lib.Histories
import DccMcp.Lib.Serde
import DccMcp.Lib.Sliding
import DccMcp.Lib.Service
import DccMcp.Lib.Text
import DccMcp.Lib.Threads
import DccMcp.Lib.Timestamp
import DccMcp.Lib.Tokens
import DccMcp.Lib.Uuid
import DccMcp.Lib.Delimited
import DccMcp.Naming.CursorSafe
import DccMcp.Naming.ResourceUri
import DccMcp.Job.Types
import DccMcp.Job.Circuit
import DccMcp.Job.Manager
import DccMcp.Job.Concurrent
import DccMcp.Job.Durability
import DccMcp.Job.Delivery
import DccMcp.Job.Retention
import DccMcp.Job.Runner
import DccMcp.Job.Recovery
import DccMcp.Job.Ownership
import DccMcp.Job.Storage
import DccMcp.Job.Collection
import DccMcp.Host.Dispatcher
import DccMcp.Host.Outcomes
import DccMcp.Host.Shutdown
import DccMcp.Host.Counters
import DccMcp.Lib.Python
import DccMcp.Lib.JsonText
import DccMcp.Host.Rpc
import DccMcp.Host.CommandPort
import DccMcp.Flow.Template
import DccMcp.Flow.Modes
import DccMcp.Flow.Spec
import DccMcp.Flow.State
import DccMcp.Flow.Idempotency
import DccMcp.Flow.Wire
import DccMcp.Flow.Executor
import DccMcp.Flow.Policy
import DccMcp.Flow.Composition
import DccMcp.Flow.Resume
import DccMcp.Flow.Retry
import DccMcp.Flow.Kept
import DccMcp.Flow.Bindings
import DccMcp.Flow.Progress
import DccMcp.Flow.Keys
import DccMcp.Actions.Registry
import DccMcp.Actions.Coherence
import DccMcp.Actions.Flags
import DccMcp.Capability.Record
import DccMcp.Capability.Index
import DccMcp.Capability.Fingerprint
import DccMcp.Capability.Builder
import DccMcp.Capability.Refresh
import DccMcp.Capability.Generation
import DccMcp.Skills.Resolver
import DccMcp.Skills.Ordering
import DccMcp.Skills.Cycles
import DccMcp.Skills.Catalog
import DccMcp.Skills.Shards
import DccMcp.Skills.Loads
import DccMcp.Skills.Operations
import DccMcp.Skills.Agreement
import DccMcp.Skills.Unload
import DccMcp.Skills.Groups
import DccMcp.Skills.GroupRuns
import DccMcp.Tunnel.Codec
import DccMcp.Tunnel.FrameReader
import DccMcp.Tunnel.Eviction
import DccMcp.Tunnel.Teardown
import DccMcp.Tunnel.Winding
import DccMcp.Tunnel.Capacity
import DccMcp.Tunnel.FrameSize
import DccMcp.Tunnel.HalfClose
import DccMcp.Tunnel.Sessions
import DccMcp.Registry.Map
import DccMcp.Registry.Entry
import DccMcp.Registry.Leases
import DccMcp.Registry.Rollback
import DccMcp.Registry.Transaction
import DccMcp.Registry.Format
import DccMcp.Registry.Merge
import DccMcp.Scheduler.Template
import DccMcp.Scheduler.Placeholders
import DccMcp.Scheduler.Concurrency
import DccMcp.Shm.Buffer
import DccMcp.Shm.Chunked
import DccMcp.Shm.Header
import DccMcp.Shm.Pool
import DccMcp.Gateway.Subscriber
import DccMcp.Gateway.Routes
import DccMcp.Gateway.Notifications
import DccMcp.Gateway.Election
import DccMcp.Gateway.Quota
import DccMcp.Gateway.ClientAddress
import DccMcp.Gateway.Redaction
import DccMcp.Gateway.RecordingRuns
import DccMcp.Gateway.Recordings
import DccMcp.Gateway.Search
import DccMcp.Gateway.SearchPages
import DccMcp.Gateway.SearchCache
import DccMcp.Gateway.Interleaving
import DccMcp.Gateway.Stations
import DccMcp.Gateway.Replay
import DccMcp.Gateway.Subscriptions
import DccMcp.Gateway.Reconnect
import DccMcp.Gateway.Resolver
import DccMcp.Gateway.Pins
import DccMcp.Gateway.Sticky
import DccMcp.Lib.Crash
import DccMcp.Lib.FileTree
import DccMcp.Updater.Names
import DccMcp.Updater.Disk
import DccMcp.Updater.Journal
import DccMcp.Updater.UpdateSet
import DccMcp.Updater.Planning
import DccMcp.Updater.Staging
import DccMcp.Updater.Admission
import DccMcp.Updater.Upgrades
import DccMcp.Sandbox.Paths
import DccMcp.Sandbox.Session
import DccMcp.Artefact.Store
import DccMcp.Artefact.Confinement
import DccMcp.Artefact.Lifetime
import DccMcp.Artefact.Memory
import DccMcp.Artefact.Retention
import DccMcp.Artefact.Backends
import DccMcp.Actions.Versioned
import DccMcp.Naming.BareNames
import DccMcp.Skills.Expansion
import DccMcp.Gateway.SseRecords
import DccMcp.Gateway.VersionOrder
