import Calod.Ledger.Effects

/-!
# Runs, events, checkpoints and retention

The decisions of the run operations of `calod-ledger/src/ledger.rs`: each returns the record
to persist and the answer to give once it is durable.
-/

namespace Calod.Ledger

open Calod.Serde

/-! ## Runs -/

/-- A run as `create_run` and `fork_run` store it: `running`, version 1, empty timeline. -/
def newRun (scope : Scope) (draws : Draws) (externalId agentName : String)
    (parentRunId : Option Uuid) (forkedFromEventSequence : Option Int) (metadata : Option Value) :
    RunRecord where
  schemaVersion := schemaVersion
  tenantId := scope.tenantId
  projectId := scope.projectId
  id := draws.id
  externalId := externalId
  agentName := agentName
  status := .running
  version := 1
  lastEventSequence := 0
  headHash := genesisHash
  parentRunId := parentRunId
  forkedFromEventSequence := forkedFromEventSequence
  metadata := metadata
  createdAtMs := draws.now
  updatedAtMs := draws.now

def createRun (scope : Scope) (req : CreateRunRequest) (draws : Draws) :
    Except LedgerError (RecordKind × Run) := do
  validateLen "external_id" req.externalId 255
  validateLen "agent_name" req.agentName 200
  let run := newRun scope draws req.externalId req.agentName none none req.metadata
  return (.runCreated run, run.view)

/-- The `If-Match` check. -/
def checkVersion (run : RunRecord) : Option Int → Except LedgerError Unit
  | none => .ok ()
  | some expected =>
    if expected ≠ run.version then .error (.preconditionFailed expected run.version) else .ok ()

/-- The run after an update; head and timeline are those of the run that was read. -/
def RunRecord.withStatus (run : RunRecord) (status : RunStatus) (now : Int) : RunRecord :=
  { run with status, version := run.version + 1, updatedAtMs := now }

def updateRun (idx : Indexes) (scope : Scope) (runId : Uuid) (req : UpdateRunRequest)
    (expectedVersion : Option Int) (draws : Draws) : Except LedgerError (RecordKind × Run) := do
  let run ← runInScope idx scope runId
  checkVersion run expectedVersion
  if run.status.isTerminal ∧ req.status ≠ run.status then
    .error (.invalidTransition run.status.asStr req.status.asStr)
  else
    let next := run.withStatus req.status draws.now
    return (.runUpdated next, next.view)

/-- The event sequence that a fork starts from. -/
def forkSequence (idx : Indexes) (parent : RunRecord) (runId : Uuid) (req : ForkRunRequest) :
    Except LedgerError Int :=
  match req.fromEventSequence, req.fromCheckpointId with
  | some seq, none =>
    if seq < 0 ∨ parent.lastEventSequence < seq then
      .error (.validation "from_event_sequence"
        ("must be within 0..=" ++ toString parent.lastEventSequence ++ " for this run"))
    else .ok seq
  | none, some checkpointId =>
    match (idx.checkpoints[runId]?.getD []).find? fun c => c.id = checkpointId with
    | some checkpoint => .ok checkpoint.eventSequence
    | none => .error (.notFound "checkpoint" checkpointId.toString)
  | _, _ =>
    .error (.validation "from_event_sequence"
      "exactly one of from_event_sequence / from_checkpoint_id is required")

def forkRun (idx : Indexes) (scope : Scope) (runId : Uuid) (req : ForkRunRequest)
    (draws : Draws) : Except LedgerError (RecordKind × Run) := do
  let parent ← runInScope idx scope runId
  let sequence ← forkSequence idx parent runId req
  let fork := newRun scope draws (parent.externalId ++ ":fork") parent.agentName
    (some parent.id) (some sequence) req.metadata
  return (.runCreated fork, fork.view)

/-! ## Events -/

def isEventTypeByte (b : UInt8) : Bool :=
  isAsciiLowercase b || isAsciiDigit b || b == 0x5F || b == 0x2E || b == 0x2D

def validateEventType (eventType : String) : Except LedgerError Unit :=
  if eventType.utf8ByteSize ≠ 0 ∧ eventType.utf8ByteSize ≤ 200
      ∧ (utf8 eventType).all isEventTypeByte then .ok ()
  else .error (.validation "type" "must be 1..=200 characters matching ^[a-z0-9_.-]+$")

def appendEvent (crates : Crates) (idx : Indexes) (scope : Scope) (runId : Uuid)
    (req : AppendEventRequest) (draws : Draws) : Except LedgerError (RecordKind × Event) := do
  let run ← runInScope idx scope runId
  let event := buildEvent crates scope run req.eventType req.occurredAtMs req.payload draws.now
    draws.eventId
  return (.eventAppended event, event.view)

/-! ## Checkpoints -/

def createCheckpoint (crates : Crates) (idx : Indexes) (scope : Scope) (runId : Uuid)
    (req : CreateCheckpointRequest) (expectedVersion : Option Int) (draws : Draws) :
    Except LedgerError (RecordKind × Checkpoint) := do
  let run ← runInScope idx scope runId
  checkVersion run expectedVersion
  if req.eventSequence < 0 ∨ run.lastEventSequence < req.eventSequence then
    .error (.validation "event_sequence"
      ("must be within 0..=" ++ toString run.lastEventSequence ++ " for this run"))
  else
    let checkpoint : CheckpointRecord :=
      { schemaVersion := schemaVersion, tenantId := scope.tenantId, projectId := scope.projectId
        id := draws.id, runId, eventSequence := req.eventSequence
        stateDigest := sha256Digest crates (canonicalJson crates.formatF64 req.state)
        state := req.state, createdAtMs := draws.now }
    return (.checkpointCreated checkpoint, checkpoint.view)

/-! ## Retention -/

/-- The last update at which data is old enough to prune. -/
def retentionCutoff (policy : RetentionPolicy) (now : Int) : Int :=
  saturatingSubI64 now (max policy.maxAgeMs 0)

/-- A terminal run that is old enough. -/
def RunRecord.prunable (run : RunRecord) (cutoffMs : Int) : Bool :=
  run.status.isTerminal && run.updatedAtMs ≤ cutoffMs

def retentionRunIds (idx : Indexes) (cutoffMs : Int) : List Uuid :=
  ((idx.runs.values.filter fun run => run.prunable cutoffMs).map RunRecord.id).insertionSort
    (· ≤ ·)

/-- An old terminal effect, or any effect of a pruned run. -/
def retentionEffectIds (idx : Indexes) (cutoffMs : Int) (runIds : List Uuid) : List Uuid :=
  ((idx.effectsById.values.filter fun effect =>
      (effect.state.isRetentionTerminal && effect.updatedAtMs ≤ cutoffMs)
        || effect.runId.any fun r => runIds.contains r).map EffectRecord.id).insertionSort (· ≤ ·)

/-- `apply_retention` up to its `persist`; nothing is persisted when nothing is pruned. -/
def applyRetention (idx : Indexes) (policy : RetentionPolicy) (draws : Draws) :
    Option RecordKind × RetentionReport :=
  let cutoffMs := retentionCutoff policy draws.now
  let runIds := retentionRunIds idx cutoffMs
  let effectIds := retentionEffectIds idx cutoffMs runIds
  let report : RetentionReport :=
    { runsRemoved := runIds.length
      effectsRemoved := effectIds.length
      eventsRemoved := (runIds.map fun id => (idx.timeline id).length).sum
      cutoffMs }
  if runIds.isEmpty && effectIds.isEmpty then (none, report)
  else (some (.retentionApplied cutoffMs runIds effectIds), report)

end Calod.Ledger
