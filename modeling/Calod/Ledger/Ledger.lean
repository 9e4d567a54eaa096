import Calod.Ledger.Reads
import Calod.Ledger.Snapshot

/-!
# The ledger: calls, persistence and recovery

`Ledger` of `calod-ledger/src/ledger.rs`, one call at a time. Every call has the same shape:

1. `Call.check` — what it does before its first lock, and which lock that is
2. `Call.underLock` — its decision, on the indexes it reads under the lock
3. for an effect with a run, the timeline event (`buildEffectEvent`)
4. `persist` — append to the WAL, apply to the indexes, move the watermark

`Ledger.call` runs the four in one go. `Calod/Ledger/Concurrent.lean` interleaves them.
-/

namespace Calod.Ledger

open Calod.Core Calod.Storage

/-! ## Calls -/

inductive Call where
  | acquire (idempotencyKey : String) (req : AcquireEffectRequest)
  | transition (effectId : Uuid) (req : UpdateEffectRequest) (capabilities : CallerCapabilities)
  | getEffect (effectId : Uuid)
  | listEffects (filter : EffectFilter) (cursor : Option String) (limit : Option Nat)
  | createRun (req : CreateRunRequest)
  | getRun (runId : Uuid)
  | updateRun (runId : Uuid) (req : UpdateRunRequest) (expectedVersion : Option Int)
  | forkRun (runId : Uuid) (req : ForkRunRequest)
  | listRuns (filter : RunFilter) (cursor : Option String) (limit : Option Nat)
  | appendEvent (runId : Uuid) (req : AppendEventRequest)
  | verifyRunEvents (runId : Uuid)
  | listEvents (runId : Uuid) (filter : EventFilter) (cursor : Option String)
      (limit : Option Nat)
  | createCheckpoint (runId : Uuid) (req : CreateCheckpointRequest)
      (expectedVersion : Option Int)
  | listCheckpoints (runId : Uuid) (cursor : Option String) (limit : Option Nat)
  | applyRetention (policy : RetentionPolicy)
  | exportRun (runId : Uuid)

inductive Response where
  | decision (decision : EffectDecision)
  | effect (effect : Effect)
  | effects (page : Page Effect)
  | run (run : Run)
  | runs (page : Page Run)
  | event (event : Event)
  | verified (ok : Bool)
  | events (page : Page Event)
  | checkpoint (checkpoint : Checkpoint)
  | checkpoints (page : Page Checkpoint)
  | report (report : RetentionReport)
  | exported (runExport : RunExport)

/-- The lock a call takes first. -/
inductive FirstLock where
  | none
  | partition (index : Nat)
  | run (runId : Uuid)
  deriving DecidableEq, Repr

/-- What a call has decided under its lock. -/
inductive Next where
  /-- Nothing to persist. -/
  | answer (response : Response)
  /-- Persist the record, then answer. -/
  | persist (kind : RecordKind) (response : Response)
  /-- Build the timeline event of the change, persist both as one record, then answer. -/
  | effect (change : EffectChange) (response : Response)

/-- The decision of a call that must persist a record, given its answer type. -/
def Next.ofPair {α : Type} (response : α → Response)
    (decided : Except LedgerError (RecordKind × α)) : Except LedgerError Next :=
  decided.map fun p => .persist p.1 (response p.2)

/-- The decision of a read. -/
def Next.ofRead {α : Type} (response : α → Response) (read : Except LedgerError α) :
    Except LedgerError Next :=
  read.map fun a => .answer (response a)

namespace Call

def isRetention : Call → Bool
  | applyRetention _ => true
  | _ => false

/-- What a call does before its first lock. -/
def check (env : Env) (idx : Indexes) (scope : Scope) : Call → Except LedgerError FirstLock
  | acquire idempotencyKey req => do
    validateEffectFields req.scope idempotencyKey req.toolName
    let _ ← resolveLeaseMs env.config req.leaseDurationSeconds "lease_duration_seconds"
    return .partition (Calod.Ledger.partition env (acquireKey scope idempotencyKey req))
  | transition effectId _ _ => do
    let current ← effectInScope idx scope effectId
    return .partition (Calod.Ledger.partition env (effectKeyOf current))
  | updateRun runId _ _ | createCheckpoint runId _ _ => .ok (.run runId)
  | forkRun runId req => do
    validateLen "reason" req.reason 500
    return .run runId
  | appendEvent runId req => do
    validateEventType req.eventType
    return .run runId
  | getEffect _ | listEffects _ _ _ | createRun _ | getRun _ | listRuns _ _ _
  | verifyRunEvents _ | listEvents _ _ _ _ | listCheckpoints _ _ _ | applyRetention _
  | exportRun _ => .ok .none

/-- The decision of a call under its lock. -/
def underLock (env : Env) (idx : Indexes) (scope : Scope) (draws : Draws) :
    Call → Except LedgerError Next
  | acquire idempotencyKey req =>
    (acquirePlan env idx scope idempotencyKey req draws).map fun
      | .decide decision => .answer (.decision decision)
      | .apply change decision leaseToken =>
        .effect change (.decision (executeAnswer change.effect decision leaseToken))
  | transition effectId req capabilities =>
    match idx.effectsById[effectId]? with
    | none => .error (.notFound "effect" effectId.toString)
    | some effect =>
      (transitionPlan env effect req capabilities draws.now).map fun change =>
        .effect change (.effect change.effect.view)
  | getEffect effectId => Next.ofRead .effect (Calod.Ledger.getEffect idx scope effectId)
  | listEffects filter cursor limit =>
    Next.ofRead .effects (Calod.Ledger.listEffects env.crates idx scope filter cursor limit)
  | createRun req => Next.ofPair .run (Calod.Ledger.createRun scope req draws)
  | getRun runId => Next.ofRead .run (Calod.Ledger.getRun idx scope runId)
  | updateRun runId req expectedVersion =>
    Next.ofPair .run (Calod.Ledger.updateRun idx scope runId req expectedVersion draws)
  | forkRun runId req => Next.ofPair .run (Calod.Ledger.forkRun idx scope runId req draws)
  | listRuns filter cursor limit =>
    Next.ofRead .runs (Calod.Ledger.listRuns env.crates idx scope filter cursor limit)
  | appendEvent runId req =>
    Next.ofPair .event (Calod.Ledger.appendEvent env.crates idx scope runId req draws)
  | verifyRunEvents runId =>
    Next.ofRead .verified (Calod.Ledger.verifyRunEvents env.crates idx scope runId)
  | listEvents runId filter cursor limit =>
    Next.ofRead .events (Calod.Ledger.listEvents idx scope runId filter cursor limit)
  | createCheckpoint runId req expectedVersion =>
    Next.ofPair .checkpoint
      (Calod.Ledger.createCheckpoint env.crates idx scope runId req expectedVersion draws)
  | listCheckpoints runId cursor limit =>
    Next.ofRead .checkpoints (Calod.Ledger.listCheckpoints env.crates idx scope runId cursor limit)
  | applyRetention policy =>
    match Calod.Ledger.applyRetention idx policy draws with
    | (some kind, report) => .ok (.persist kind (.report report))
    | (none, report) => .ok (.answer (.report report))
  | exportRun runId => Next.ofRead .exported (Calod.Ledger.exportRun idx scope runId)

/-- The whole decision of a call that no other call overlaps. -/
def decide (env : Env) (idx : Indexes) (scope : Scope) (draws : Draws) (call : Call) :
    Except LedgerError (Option RecordKind × Response) := do
  let _ ← call.check env idx scope
  match ← call.underLock env idx scope draws with
  | .answer response => return (none, response)
  | .persist kind response => return (some kind, response)
  | .effect change response =>
    let event ← buildEffectEvent env.crates idx scope change draws.now draws.eventId
    return (some (.effectApplied change.effect event), response)

end Call

/-! ## The ledger -/

end Calod.Ledger

namespace Calod

open Ledger Storage

/-- The open ledger: indexes, log, and the position of the last record applied. -/
structure Ledger where
  indexes : Indexes
  wal : Wal RecordKind
  lastWalPosition : Option WalPosition

end Calod

namespace Calod.Ledger

open Calod.Core Calod.Storage

/-- Largest payload of a WAL record: its length is stored in a `u32`. -/
def maxPayload : Nat := 2 ^ 32 - 1

/--
`persist`. `fault` is a failure of the disk or the writer task: the append is then not
acknowledged and nothing is applied.
-/
def persist (env : Env) (fault : Option PersistenceError) (ledger : Ledger) (kind : RecordKind) :
    Ledger × Except PersistenceError Unit :=
  if maxPayload < env.encodedLen kind then
    (ledger, .error (.walWriteFailed "payload exceeds the 4 GiB record limit"))
  else
    match fault with
    | some error => (ledger, .error error)
    | none =>
      let (position, wal) := ledger.wal.handleAppend env.encodedLen env.config.maxSegmentSize kind
      match ledger.indexes.apply kind with
      | (indexes, .ok ()) => ({ indexes, wal, lastWalPosition := some position }, .ok ())
      | (indexes, .error error) => ({ ledger with indexes, wal }, .error error)

/-- One call from start to end, without overlap. -/
def call (env : Env) (scope : Scope) (draws : Draws) (fault : Option PersistenceError)
    (call : Call) (ledger : Ledger) : Ledger × Except LedgerError Response :=
  match call.decide env ledger.indexes scope draws with
  | .error error => (ledger, .error error)
  | .ok (none, response) => (ledger, .ok response)
  | .ok (some kind, response) =>
    match ledger.persist env fault kind with
    | (ledger, .ok ()) => (ledger, .ok response)
    | (ledger, .error error) => (ledger, .error (.persistence error))

/-! ## Recovery -/

/-- Is the record past the watermark? -/
def uncovered (watermark : Option WalPosition) (record : WalRecord RecordKind) : Bool :=
  match watermark with
  | none => true
  | some w => !decide (record.position ≤ w)

/-- The replay loop of `open`, on the records past the watermark. -/
def replay : Indexes → List RecordKind → Except PersistenceError Indexes
  | idx, [] => .ok idx
  | idx, kind :: rest =>
    match idx.apply kind with
    | (idx, .ok ()) => replay idx rest
    | (_, .error error) => .error error

/-- Load the verified snapshot, or start empty. -/
def loadIndexes (env : Env) (disk : SnapshotDir) :
    Except PersistenceError (Indexes × Option WalPosition) := do
  match ← loadSnapshot env disk with
  | none => return (.empty, none)
  | some (state, manifest) =>
    if state.schemaVersion ≠ schemaVersion then
      .error (.corruption ("snapshot schema version " ++ toString state.schemaVersion
        ++ " (expected " ++ toString schemaVersion ++ ")"))
    else return (.loadState state, manifest.walWatermark)

/-- The payloads that `open` replays. -/
def replayed (env : Env) (watermark : Option WalPosition) (dir : WalDir RecordKind) :
    List RecordKind :=
  ((replayAll env.encodedLen dir.segments).filter (uncovered watermark)).map WalRecord.payload

/--
`Ledger::open`: the snapshot, then the WAL records past its watermark. The watermark of the
snapshot becomes `last_wal_position`, whatever was replayed after it.
-/
def «open» (env : Env) (disk : SnapshotDir) (dir : WalDir RecordKind) :
    Except PersistenceError Ledger := do
  let (indexes, watermark) ← loadIndexes env disk
  let indexes ← replay indexes (replayed env watermark dir)
  let wal ← Wal.open env.encodedLen env.config.maxSegmentSize dir
  return { indexes, wal, lastWalPosition := watermark }

/-- `snapshot` without overlap: save, then drop the segments below the watermark's next. -/
def snapshot (env : Env) (now : Int) (ledger : Ledger) (disk : SnapshotDir) :
    Ledger × SnapshotDir :=
  let state := ledger.indexes.collectState
  let disk := (disk.writeState state).writeManifest
    (manifestFor env state ledger.lastWalPosition now)
  match ledger.lastWalPosition with
  | some watermark =>
    ({ ledger with wal := ledger.wal.truncateBefore (watermark.segmentId + 1) }, disk)
  | none => (ledger, disk)

/-! ## Calls to evaluate -/

namespace Sample

def createRun : Call :=
  .createRun { externalId := "run-1", agentName := "agent", metadata := none }

def appendEvent (runId : Uuid) : Call :=
  .appendEvent runId { eventType := "note", occurredAtMs := 1700000000000, payload := .null }

def updateRun (runId : Uuid) (status : RunStatus) : Call := .updateRun runId { status } none

def acquire (key : String) (runId : Option Uuid) : Call :=
  .acquire key
    { runId, scope := "payments", toolName := "charge", input := .json [("amount", .ofInt 5)]
      leaseDurationSeconds := none, downstreamIdempotencySupported := false }

/-- Retention of everything that is terminal. -/
def retention : Call := .applyRetention { maxAgeMs := 0 }

end Sample

end Calod.Ledger
