import Calod.Ledger.Model

/-!
# Evidence exports

`calod-api/src/export.rs`: a run with its effects, events and checkpoints as a JSON bundle, with a
manifest that carries the digest of the bundle's canonical bytes and its HMAC. The JSON of the
views is what `serde` derives for them.
-/

namespace Calod.Ledger

open Calod.Serde

/-! ## The JSON of the views -/

/-- An optional field that is written as `null` when it is absent. -/
def optionalJson {α : Type} (f : α → Value) : Option α → Value
  | none => .null
  | some a => f a

def uuidJson (id : Uuid) : Value := .string id.toString

def EffectState.asStr : EffectState → String
  | .inProgress => "in_progress"
  | .committed => "committed"
  | .failedRetryable => "failed_retryable"
  | .failedTerminal => "failed_terminal"
  | .outcomeUnknown => "outcome_unknown"
  | .reconciledCommitted => "reconciled_committed"
  | .reconciledFailed => "reconciled_failed"

def Run.toJson (run : Run) : Value :=
  .json
    [("id", uuidJson run.id), ("external_id", .string run.externalId),
      ("agent_name", .string run.agentName), ("status", .string run.status.asStr),
      ("version", .ofInt run.version), ("last_event_sequence", .ofInt run.lastEventSequence),
      ("parent_run_id", optionalJson uuidJson run.parentRunId),
      ("forked_from_event_sequence", optionalJson .ofInt run.forkedFromEventSequence),
      ("metadata", optionalJson (fun value => value) run.metadata),
      ("created_at", .string run.createdAt), ("updated_at", .string run.updatedAt)]

def EffectLease.toJson (lease : EffectLease) : Value :=
  .json [("expires_at", .string lease.expiresAt)]

/-- The metadata of a receipt is left out when there is none. -/
def ExternalReceipt.toJson (receipt : ExternalReceipt) : Value :=
  .json ([("provider", .string receipt.provider), ("id", .string receipt.id)]
    ++ (receipt.metadata.map fun metadata => ("metadata", metadata)).toList)

def EffectFailure.toJson (failure : EffectFailure) : Value :=
  .json
    [("kind", .string failure.kind), ("message", .string failure.message),
      ("retryable", .bool failure.retryable)]

def Effect.toJson (effect : Effect) : Value :=
  .json
    [("id", uuidJson effect.id), ("run_id", optionalJson uuidJson effect.runId),
      ("scope", .string effect.scope), ("idempotency_key", .string effect.idempotencyKey),
      ("tool_name", .string effect.toolName), ("input_digest", .string effect.inputDigest),
      ("state", .string effect.state.asStr), ("fencing_token", .ofInt effect.fencingToken),
      ("lease", optionalJson EffectLease.toJson effect.lease),
      ("result", optionalJson (fun value => value) effect.result),
      ("external_receipt", optionalJson ExternalReceipt.toJson effect.externalReceipt),
      ("failure", optionalJson EffectFailure.toJson effect.failure),
      ("created_at", .string effect.createdAt), ("updated_at", .string effect.updatedAt)]

/-- The fields of an event, in the order of the source. -/
def Event.fields (event : Event) : List (String × Value) :=
  [("id", uuidJson event.id), ("run_id", uuidJson event.runId),
    ("sequence", .ofInt event.sequence), ("type", .string event.eventType),
    ("occurred_at", .string event.occurredAt), ("recorded_at", .string event.recordedAt),
    ("payload", event.payload), ("previous_hash", .string event.previousHash),
    ("hash", .string event.hash)]

def Event.toJson (event : Event) : Value := .json event.fields

def Checkpoint.toJson (checkpoint : Checkpoint) : Value :=
  .json
    [("id", uuidJson checkpoint.id), ("run_id", uuidJson checkpoint.runId),
      ("event_sequence", .ofInt checkpoint.eventSequence), ("state", checkpoint.state),
      ("state_ref", optionalJson .string checkpoint.stateRef),
      ("state_digest", .string checkpoint.stateDigest),
      ("created_at", .string checkpoint.createdAt)]

end Calod.Ledger

namespace Calod.Api

open Calod.Serde Calod.Ledger

/-! ## Bundles -/

def exportSchema : String := "calod.export/1"

/-- HMAC-SHA256 as the source computes it, in hex. -/
def hmacSha256Hex (crates : Crates) (key msg : List UInt8) : String :=
  let keyBlock :=
    if 64 < key.length then crates.sha256 key ++ List.replicate 32 0
    else key ++ List.replicate (64 - key.length) 0
  let innerPad := keyBlock.map fun b => b ^^^ 0x36
  let outerPad := keyBlock.map fun b => b ^^^ 0x5c
  let innerHash := crates.sha256 (innerPad ++ msg)
  hexEncode (crates.sha256 (outerPad ++ innerHash))

/-- The entries of a bundle, without the manifest. -/
def bundleFields (runExport : RunExport) (exportedAt : String) : List (String × Value) :=
  [("schema", .string exportSchema), ("exported_at", .string exportedAt),
    ("run", runExport.run.toJson), ("effects", .array (runExport.effects.map Effect.toJson)),
    ("events", .array (runExport.events.map Event.toJson)),
    ("checkpoints", .array (runExport.checkpoints.map Checkpoint.toJson))]

def bundle (runExport : RunExport) (exportedAt : String) : Value :=
  .json (bundleFields runExport exportedAt)

def bundleSha256 (crates : Crates) (runExport : RunExport) (exportedAt : String) : String :=
  sha256Digest crates (canonicalJson crates.formatF64 (bundle runExport exportedAt))

/-- The entries of the manifest. -/
def manifestFields (crates : Crates) (runExport : RunExport) (signingKey : List UInt8)
    (exportedAt : String) : List (String × Value) :=
  let bundleSha256 := bundleSha256 crates runExport exportedAt
  [("algorithm", .string "HMAC-SHA256"), ("bundle_sha256", .string bundleSha256),
    ("signature", .string (hmacSha256Hex crates signingKey (utf8 bundleSha256))),
    ("records", .json
      [("effects", .ofInt runExport.effects.length), ("events", .ofInt runExport.events.length),
        ("checkpoints", .ofInt runExport.checkpoints.length)]),
    ("events_head_hash", optionalJson .string (runExport.events.getLast?.map Event.hash))]

/-- `render_json_export`. -/
def renderJsonExport (crates : Crates) (runExport : RunExport) (signingKey : List UInt8)
    (exportedAt : String) : Value :=
  .json (bundleFields runExport exportedAt
    ++ [("manifest", .json (manifestFields crates runExport signingKey exportedAt))])

end Calod.Api
