import Calod.Lib.Bytes
import Calod.Lib.Codes
import Calod.Lib.Crc32c
import Calod.Lib.Except
import Calod.Lib.HashChain
import Calod.Lib.Interleaving
import Calod.Lib.Map
import Calod.Lib.Program
import Calod.Lib.Sha256
import Calod.Lib.Transition
import Calod.Lib.Unwinding
import Calod.Core.Error
import Calod.Core.ApiKeys
import Calod.Serde.Json
import Calod.Serde.Canonical
import Calod.Storage.Wal
import Calod.Storage.Format
import Calod.Storage.Recovery
import Calod.Storage.Damage
import Calod.Storage.Writer
import Calod.Storage.Lifetimes
import Calod.Storage.Durability
import Calod.Ledger.Digest
import Calod.Ledger.Model
import Calod.Ledger.Indexes
import Calod.Ledger.Config
import Calod.Ledger.Faithful
import Calod.Ledger.Effects
import Calod.Ledger.Runs
import Calod.Ledger.Reads
import Calod.Ledger.Snapshot
import Calod.Ledger.Ledger
import Calod.Ledger.Decisions
import Calod.Ledger.Invariants
import Calod.Ledger.Recovery
import Calod.Ledger.Decoding
import Calod.Ledger.Concurrent
import Calod.Ledger.CommitLock
import Calod.Ledger.Watermarks
import Calod.Ledger.Timelines
import Calod.Ledger.Heads
import Calod.Ledger.Acknowledged
import Calod.Ledger.Replayable
import Calod.Ledger.Truncation
import Calod.Ledger.Histories
import Calod.Ledger.Crashes
import Calod.Ledger.LeaseProtocol
import Calod.Ledger.Leases
import Calod.Ledger.PartitionLock
import Calod.Ledger.Identities
import Calod.Ledger.Fencing
import Calod.Ledger.Executors
import Calod.Ledger.Retention
import Calod.Ledger.Ownership
import Calod.Ledger.Isolation
import Calod.Ledger.Finality
import Calod.Ledger.Payloads
import Calod.Ledger.Receipts
import Calod.Ledger.RunUpdates
import Calod.Api.Retention
import Calod.Api.Routes
import Calod.Api.Credentials
import Calod.Api.Export
import Calod.Sdk.Client
import Calod.Sdk.Wrapper
import Calod.Sdk.Failures
import Calod.Sdk.Network
import Calod.Sdk.Creations
import Calod.Sdk.Contracts
import Calod.Scripts.VerifyExport
import Calod.Api.Csv
import Calod.Sdk.Calls
import Calod.Store.Text
import Calod.Store.Decimal
import Calod.Store.SortedSet
import Calod.Store.Stream
import Calod.Store.Data
import Calod.Store.JsonPath
import Calod.Store.HyperLogLog
import Calod.Store.Shard
import Calod.Store.Sketches
import Calod.Store.Glob
import Calod.Store.Strings
import Calod.Store.Collections
import Calod.Store.Lists
import Calod.Store.StreamCommands
import Calod.Store.JsonCommands
import Calod.Store.Footprint
import Calod.Store.Counters
import Calod.Store.Snapshot
import Calod.Store.StringMap
import Calod.Server.Command
import Calod.Server.Dispatch
import Calod.Server.Replay
import Calod.Server.Restarts
import Calod.Server.SavesBesideWrites
import Calod.Server.Auth
import Calod.Resp.Value
import Calod.Resp.Parser
import Calod.Resp.Frames
import Calod.Resp.RoundTrip
import Calod.Resp.Extension
import Calod.Resp.Nesting
import Calod.Resp.Simd
import Calod.Server.Connection
import Calod.Server.Reading
import Calod.Server.Watch
import Calod.Server.CheckAndSet
import Calod.Server.Transactions
import Calod.Server.Atomicity
import Calod.Ledger.Crashes
