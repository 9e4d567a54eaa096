import Calod.Core.Error
import Calod.Ledger.Digest

/-!
# Records and views

`calod-ledger/src/model.rs`: the persisted records, the API views, and the event hash.

Times are milliseconds since the epoch. Counters that only ever step by one from 0 or 1
(`version`, `fencingToken`, `sequence`) are unbounded integers; sums with a clock value go
through `addI64`, which wraps as the release build does.
-/

namespace Calod.Ledger

open Calod.Core Calod.Serde

/-- Schema version stamped on every persisted record. -/
def schemaVersion : Nat := 1

/-- `i64` addition with the wrap of a release build. -/
def addI64 (a b : Int) : Int := (a + b).bmod (2 ^ 64)

/-- `i64::saturating_sub`. -/
def saturatingSubI64 (a b : Int) : Int := max (-2 ^ 63) (min (2 ^ 63 - 1) (a - b))

/-- Tenant and project the caller is scoped to. -/
structure Scope where
  tenantId : String
  projectId : String
  deriving DecidableEq, Repr

/-! ## Effects -/

inductive EffectStatus where
  | claimed
  | inProgress
  | committed
  | failedRetryable
  | failedTerminal
  | outcomeUnknown
  | reconciledCommitted
  | reconciledFailed
  deriving DecidableEq, Repr

/-- The OpenAPI `EffectState`: `claimed` has no counterpart and shows as `in_progress`. -/
inductive EffectState where
  | inProgress
  | committed
  | failedRetryable
  | failedTerminal
  | outcomeUnknown
  | reconciledCommitted
  | reconciledFailed
  deriving DecidableEq, Repr

namespace EffectStatus

def apiState : EffectStatus → EffectState
  | .claimed | .inProgress => .inProgress
  | .committed => .committed
  | .failedRetryable => .failedRetryable
  | .failedTerminal => .failedTerminal
  | .outcomeUnknown => .outcomeUnknown
  | .reconciledCommitted => .reconciledCommitted
  | .reconciledFailed => .reconciledFailed

/-- States that retention may prune by age: the outcome is final. -/
def isRetentionTerminal : EffectStatus → Bool
  | .committed | .failedTerminal | .reconciledCommitted | .reconciledFailed => true
  | .claimed | .inProgress | .failedRetryable | .outcomeUnknown => false

def asStr : EffectStatus → String
  | .claimed => "claimed"
  | .inProgress => "in_progress"
  | .committed => "committed"
  | .failedRetryable => "failed_retryable"
  | .failedTerminal => "failed_terminal"
  | .outcomeUnknown => "outcome_unknown"
  | .reconciledCommitted => "reconciled_committed"
  | .reconciledFailed => "reconciled_failed"

end EffectStatus

inductive EffectTransition where
  | start
  | renew
  | commit
  | failRetryable
  | failTerminal
  | markOutcomeUnknown
  | reconcileCommitted
  | reconcileFailed
  deriving DecidableEq, Repr

namespace EffectTransition

/-- Worker transitions need the active lease token; the others the reconcile capability. -/
def isWorkerTransition : EffectTransition → Bool
  | .start | .renew | .commit | .failRetryable | .failTerminal | .markOutcomeUnknown => true
  | .reconcileCommitted | .reconcileFailed => false

def asStr : EffectTransition → String
  | .start => "start"
  | .renew => "renew"
  | .commit => "commit"
  | .failRetryable => "fail_retryable"
  | .failTerminal => "fail_terminal"
  | .markOutcomeUnknown => "mark_outcome_unknown"
  | .reconcileCommitted => "reconcile_committed"
  | .reconcileFailed => "reconcile_failed"

end EffectTransition

inductive EffectDecisionType where
  | execute
  | replay
  | wait
  | reconcile
  deriving DecidableEq, Repr

structure EffectLease where
  expiresAt : String
  deriving DecidableEq, Repr

structure ExternalReceipt where
  provider : String
  id : String
  metadata : Option Value

structure EffectFailure where
  kind : String
  message : String
  retryable : Bool
  deriving DecidableEq, Repr

/-- The persisted effect. Only the SHA-256 of the bearer lease token is stored. -/
structure EffectRecord where
  schemaVersion : Nat
  tenantId : String
  projectId : String
  id : Uuid
  runId : Option Uuid
  scope : String
  idempotencyKey : String
  toolName : String
  inputDigest : String
  state : EffectStatus
  fencingToken : Int
  leaseExpiresAtMs : Option Int
  leaseDurationMs : Int
  leaseTokenDigest : Option String
  result : Option Value
  externalReceipt : Option ExternalReceipt
  failure : Option EffectFailure
  createdAtMs : Int
  updatedAtMs : Int

structure Effect where
  id : Uuid
  runId : Option Uuid
  scope : String
  idempotencyKey : String
  toolName : String
  inputDigest : String
  state : EffectState
  fencingToken : Int
  lease : Option EffectLease
  result : Option Value
  externalReceipt : Option ExternalReceipt
  failure : Option EffectFailure
  createdAt : String
  updatedAt : String

def EffectRecord.view (e : EffectRecord) : Effect where
  id := e.id
  runId := e.runId
  scope := e.scope
  idempotencyKey := e.idempotencyKey
  toolName := e.toolName
  inputDigest := e.inputDigest
  state := e.state.apiState
  fencingToken := e.fencingToken
  lease := e.leaseExpiresAtMs.map fun ms => { expiresAt := formatTimestamp ms }
  result := e.result
  externalReceipt := e.externalReceipt
  failure := e.failure
  createdAt := formatTimestamp e.createdAtMs
  updatedAt := formatTimestamp e.updatedAtMs

structure EffectDecision where
  decision : EffectDecisionType
  effect : Effect
  leaseToken : Option String
  pollAfterMs : Option Nat

structure AcquireEffectRequest where
  runId : Option Uuid
  scope : String
  toolName : String
  input : Value
  leaseDurationSeconds : Option Nat
  downstreamIdempotencySupported : Bool

structure UpdateEffectRequest where
  transition : EffectTransition
  leaseToken : Option String
  fencingToken : Int
  leaseDurationSeconds : Option Nat
  result : Option Value
  externalReceipt : Option ExternalReceipt
  failure : Option EffectFailure

structure CallerCapabilities where
  canReconcile : Bool
  canAdmin : Bool
  deriving DecidableEq, Repr

/-! ## Runs -/

inductive RunStatus where
  | running
  | suspended
  | completed
  | failed
  | cancelled
  deriving DecidableEq, Repr

namespace RunStatus

def isTerminal : RunStatus → Bool
  | .completed | .failed | .cancelled => true
  | .running | .suspended => false

def asStr : RunStatus → String
  | .running => "running"
  | .suspended => "suspended"
  | .completed => "completed"
  | .failed => "failed"
  | .cancelled => "cancelled"

end RunStatus

/-- The persisted run. `lastEventSequence` and `headHash` are the head of its timeline. -/
structure RunRecord where
  schemaVersion : Nat
  tenantId : String
  projectId : String
  id : Uuid
  externalId : String
  agentName : String
  status : RunStatus
  version : Int
  lastEventSequence : Int
  headHash : String
  parentRunId : Option Uuid
  forkedFromEventSequence : Option Int
  metadata : Option Value
  createdAtMs : Int
  updatedAtMs : Int

structure Run where
  id : Uuid
  externalId : String
  agentName : String
  status : RunStatus
  version : Int
  lastEventSequence : Int
  parentRunId : Option Uuid
  forkedFromEventSequence : Option Int
  metadata : Option Value
  createdAt : String
  updatedAt : String

def RunRecord.view (r : RunRecord) : Run where
  id := r.id
  externalId := r.externalId
  agentName := r.agentName
  status := r.status
  version := r.version
  lastEventSequence := r.lastEventSequence
  parentRunId := r.parentRunId
  forkedFromEventSequence := r.forkedFromEventSequence
  metadata := r.metadata
  createdAt := formatTimestamp r.createdAtMs
  updatedAt := formatTimestamp r.updatedAtMs

structure CreateRunRequest where
  externalId : String
  agentName : String
  metadata : Option Value

structure UpdateRunRequest where
  status : RunStatus

structure ForkRunRequest where
  fromEventSequence : Option Int
  fromCheckpointId : Option Uuid
  reason : String
  metadata : Option Value

/-! ## Events -/

/-- The persisted event: one link of its run's hash chain. -/
structure EventRecord where
  schemaVersion : Nat
  tenantId : String
  projectId : String
  id : Uuid
  runId : Uuid
  sequence : Int
  eventType : String
  occurredAtMs : Int
  recordedAtMs : Int
  payload : Value
  previousHash : String
  hash : String

structure Event where
  id : Uuid
  runId : Uuid
  sequence : Int
  eventType : String
  occurredAt : String
  recordedAt : String
  payload : Value
  previousHash : String
  hash : String

def EventRecord.view (e : EventRecord) : Event where
  id := e.id
  runId := e.runId
  sequence := e.sequence
  eventType := e.eventType
  occurredAt := formatTimestamp e.occurredAtMs
  recordedAt := formatTimestamp e.recordedAtMs
  payload := e.payload
  previousHash := e.previousHash
  hash := e.hash

structure AppendEventRequest where
  eventType : String
  occurredAtMs : Int
  payload : Value

/--
The hash of an event: the 32 raw bytes of the previous hash, then the canonical JSON of
the view without its two hash fields.
-/
def computeEventHash (crates : Crates) (event : Event) : String :=
  let input := Value.json
    [("id", .string event.id.toString), ("run_id", .string event.runId.toString),
      ("sequence", .ofInt event.sequence), ("type", .string event.eventType),
      ("occurred_at", .string event.occurredAt), ("recorded_at", .string event.recordedAt),
      ("payload", event.payload)]
  let previous := (digestBytes event.previousHash).getD (List.replicate 32 0)
  sha256Digest crates (canonicalJsonInto crates.formatF64 input previous)

/-- The loop of `verify_event_chain`, at position `index`. -/
def verifyEventChainFrom (crates : Crates) : Nat → String → List Event → Bool
  | _, _, [] => true
  | index, expectedPrevious, event :: rest =>
    if event.sequence ≠ (index : Int) + 1 then false
    else if event.previousHash ≠ expectedPrevious then false
    else if event.hash ≠ computeEventHash crates event then false
    else verifyEventChainFrom crates (index + 1) event.hash rest

/-- Sequences are `1..=N`, the hashes link from `genesisHash`, and every hash recomputes. -/
def verifyEventChain (crates : Crates) (events : List Event) : Bool :=
  verifyEventChainFrom crates 0 genesisHash events

/-! ## Checkpoints -/

structure CheckpointRecord where
  schemaVersion : Nat
  tenantId : String
  projectId : String
  id : Uuid
  runId : Uuid
  eventSequence : Int
  state : Value
  stateDigest : String
  createdAtMs : Int

structure Checkpoint where
  id : Uuid
  runId : Uuid
  eventSequence : Int
  state : Value
  stateRef : Option String
  stateDigest : String
  createdAt : String

def CheckpointRecord.view (c : CheckpointRecord) : Checkpoint where
  id := c.id
  runId := c.runId
  eventSequence := c.eventSequence
  state := c.state
  stateRef := none
  stateDigest := c.stateDigest
  createdAt := formatTimestamp c.createdAtMs

structure CreateCheckpointRequest where
  eventSequence : Int
  state : Value

/-! ## Lists, filters, retention and export -/

structure CursorPage where
  nextCursor : Option String
  hasMore : Bool
  limit : Nat

structure RunFilter where
  status : Option RunStatus
  agentName : Option String
  createdAfterMs : Option Int

structure EffectFilter where
  runId : Option Uuid
  state : Option EffectState
  toolName : Option String
  createdAfterMs : Option Int

structure EventFilter where
  eventType : Option String
  afterSequence : Option Int

structure RetentionPolicy where
  maxAgeMs : Int
  deriving DecidableEq, Repr

structure RetentionReport where
  runsRemoved : Nat
  effectsRemoved : Nat
  eventsRemoved : Nat
  cutoffMs : Int
  deriving DecidableEq, Repr

structure RunExport where
  run : Run
  effects : List Effect
  events : List Event
  checkpoints : List Checkpoint

/-! ## Errors -/

inductive LedgerError where
  | notFound (resource id : String)
  | idempotencyConflict (scope key existingDigest requestedDigest : String)
  | staleFencingToken (current got : Int)
  | forbidden (message : String)
  | invalidTransition («from» transition : String)
  | validation (field message : String)
  | preconditionFailed (expected current : Int)
  | persistence (error : PersistenceError)
  deriving DecidableEq, Repr

/-! ## WAL records -/

/-- The mutation carried by one WAL record (`record.rs`). -/
inductive RecordKind where
  | runCreated (run : RunRecord)
  | runUpdated (run : RunRecord)
  | effectApplied (effect : EffectRecord) (event : Option EventRecord)
  | eventAppended (event : EventRecord)
  | checkpointCreated (checkpoint : CheckpointRecord)
  | retentionApplied (cutoffMs : Int) (runIds effectIds : List Uuid)

/-- The timeline event that a record carries, if any. -/
def RecordKind.event : RecordKind → Option EventRecord
  | .effectApplied _ event => event
  | .eventAppended event => some event
  | .runCreated _ | .runUpdated _ | .checkpointCreated _ | .retentionApplied _ _ _ => none

/-- The effect that a record stores, if any. -/
def RecordKind.effect : RecordKind → Option EffectRecord
  | .effectApplied effect _ => some effect
  | .runCreated _ | .runUpdated _ | .eventAppended _ | .checkpointCreated _
  | .retentionApplied _ _ _ => none

def RecordKind.isRetention : RecordKind → Bool
  | .retentionApplied _ _ _ => true
  | _ => false

end Calod.Ledger
