import Calod.Ledger.Ledger

/-!
# The routes that create and change things

Handlers of `calod-api/src/routes.rs`, with the extractors of `extract.rs` and the errors of
`error.rs`. A handler answers, or calls the ledger and goes on with what that returns (`Handler`).

The request arrives parsed: its body, its path and its `If-Match` version. What `axum` and
`serde_json` reject before that is an answer with an error status that no handler gave, and so
are the answers of proxies (`Calod/Sdk/Network.lean`).
-/

namespace Calod.Ledger

/-- `LedgerError::status_code`. -/
def LedgerError.statusCode : LedgerError → Nat
  | .notFound _ _ => 404
  | .idempotencyConflict _ _ _ _ | .staleFencingToken _ _ => 409
  | .forbidden _ => 403
  | .invalidTransition _ _ => 422
  | .validation _ _ => 400
  | .preconditionFailed _ _ => 412
  | .persistence _ => 503

/-- `LedgerError::code`. -/
def LedgerError.code : LedgerError → String
  | .notFound _ _ => "RESOURCE_NOT_FOUND"
  | .idempotencyConflict _ _ _ _ => "IDEMPOTENCY_CONFLICT"
  | .staleFencingToken _ _ => "LEASE_LOST"
  | .forbidden _ => "INSUFFICIENT_SCOPE"
  | .invalidTransition _ _ => "INVALID_TRANSITION"
  | .validation _ _ => "VALIDATION_ERROR"
  | .preconditionFailed _ _ => "PRECONDITION_FAILED"
  | .persistence _ => "SERVICE_UNAVAILABLE"

end Calod.Ledger

namespace Calod.Api

open Calod.Ledger Calod.Serde

/-! ## Requests and responses -/

/-- The authenticated caller. -/
structure AuthContext where
  scope : Scope
  capabilities : CallerCapabilities

/-- An HTTP request. The idempotency key is the header, if there is one. -/
inductive HttpRequest where
  | createRun (key : Option String) (req : CreateRunRequest)
  | forkRun (runId : Uuid) (key : Option String) (req : ForkRunRequest)
  | appendRunEvent (runId : Uuid) (key : Option String) (req : AppendEventRequest)
  | createCheckpoint (runId : Uuid) (ifMatch : Int) (key : Option String)
      (req : CreateCheckpointRequest)
  | acquireEffect (key : Option String) (req : AcquireEffectRequest)
  | updateEffect (effectId : Uuid) (ifMatch : Int) (req : UpdateEffectRequest)
  /-- An update whose body is not JSON. -/
  | unreadableUpdate (effectId : Uuid) (ifMatch : Int)

/-- An entry of a problem's `errors`. -/
structure ProblemField where
  field : String
  message : String
  deriving DecidableEq, Repr

inductive Body where
  | run (run : Run)
  | event (event : Event)
  | checkpoint (checkpoint : Checkpoint)
  | decision (decision : EffectDecision)
  | effect (effect : Effect)
  | problem (code : String) (errors : List ProblemField)

structure HttpResponse where
  status : Nat
  body : Body

namespace HttpResponse

/-- `ApiError::validation`. -/
def validation (field message : String) : HttpResponse :=
  { status := 400, body := .problem "VALIDATION_ERROR" [{ field, message }] }

/-- `ApiError::unauthorized`. -/
def unauthorized : HttpResponse := { status := 401, body := .problem "INVALID_API_KEY" [] }

/-- `ApiError::insufficient_scope`. -/
def insufficientScope : HttpResponse := { status := 403, body := .problem "INSUFFICIENT_SCOPE" [] }

/-- `ApiError::from_ledger`. -/
def fromLedger (error : LedgerError) : HttpResponse :=
  { status := error.statusCode, body := .problem error.code [] }

/-- An internal error. -/
def internal : HttpResponse := { status := 500, body := .problem "INTERNAL" [] }

end HttpResponse

/-! ## Extractors -/

/-- `IdempotencyKey`. -/
def idempotencyKey : Option String → Except HttpResponse String
  | none => .error (.validation "Idempotency-Key" "header is required")
  | some key =>
    if 8 ≤ key.utf8ByteSize ∧ key.utf8ByteSize ≤ 255 ∧ (utf8 key).all isKeyByte then .ok key
    else .error (.validation "Idempotency-Key"
      "must be 8..=255 characters matching ^[A-Za-z0-9._:-]+$")

/-- `IfMatch`: a version is positive. -/
def ifMatch (version : Int) : Except HttpResponse Int :=
  if 1 ≤ version then .ok version else .error (.validation "If-Match" "missing or malformed ETag")

/-! ## Handlers -/

/-- What a handler does next. -/
inductive Handler where
  | respond (response : HttpResponse)
  | call (call : Call) (next : Except LedgerError Response → Handler)

namespace Handler

/-- Call the ledger; an error is the answer. -/
def ledger (call : Call) (next : Response → Handler) : Handler :=
  .call call fun
    | .error error => .respond (.fromLedger error)
    | .ok response => next response

/-- Go on with what an extractor found. -/
def extract {α : Type} (extracted : Except HttpResponse α) (next : α → Handler) : Handler :=
  match extracted with
  | .error response => .respond response
  | .ok a => next a

end Handler

/-- What the ledger answers has the type of the call; nothing else comes back. -/
def respondRun : Response → Handler
  | .run run => .respond { status := 201, body := .run run }
  | _ => .respond .internal

/-- `create_run`. The key is checked and not used. -/
def createRun (key : Option String) (req : CreateRunRequest) : Handler :=
  .extract (idempotencyKey key) fun _ => .ledger (.createRun req) respondRun

/-- `fork_run`. -/
def forkRun (runId : Uuid) (key : Option String) (req : ForkRunRequest) : Handler :=
  .extract (idempotencyKey key) fun _ => .ledger (.forkRun runId req) respondRun

/-- `append_run_event`. -/
def appendRunEvent (runId : Uuid) (key : Option String) (req : AppendEventRequest) : Handler :=
  .extract (idempotencyKey key) fun _ => .ledger (.appendEvent runId req) fun
    | .event event => .respond { status := 201, body := .event event }
    | _ => .respond .internal

/-- `create_checkpoint`. The run is read again for its version. -/
def createCheckpoint (runId : Uuid) (version : Int) (key : Option String)
    (req : CreateCheckpointRequest) : Handler :=
  .extract (ifMatch version) fun version =>
    .extract (idempotencyKey key) fun _ =>
      .ledger (.createCheckpoint runId req (some version)) fun
        | .checkpoint checkpoint => .ledger (.getRun runId) fun _ =>
          .respond { status := 201, body := .checkpoint checkpoint }
        | _ => .respond .internal

/-- The status of an `acquire` that was answered. -/
def decisionStatus : EffectDecisionType → Nat
  | .execute => 201
  | .replay | .reconcile => 200
  | .wait => 202

/-- `acquire_effect`. -/
def acquireEffect (key : Option String) (req : AcquireEffectRequest) : Handler :=
  .extract (idempotencyKey key) fun key => .ledger (.acquire key req) fun
    | .decision decision =>
      .respond { status := decisionStatus decision.decision, body := .decision decision }
    | _ => .respond .internal

/-- `update_effect`: `If-Match` is compared with the fence that was read before the transition. -/
def updateEffect (auth : AuthContext) (effectId : Uuid) (version : Int)
    (req : UpdateEffectRequest) : Handler :=
  .extract (ifMatch version) fun version =>
    if !req.transition.isWorkerTransition && !auth.capabilities.canReconcile then
      .respond .insufficientScope
    else .ledger (.getEffect effectId) fun
      | .effect current =>
        if current.fencingToken ≠ version then
          .respond (.fromLedger (.preconditionFailed version current.fencingToken))
        else .ledger (.transition effectId req auth.capabilities) fun
          | .effect effect => .respond { status := 200, body := .effect effect }
          | _ => .respond .internal
      | _ => .respond .internal

/-- `update_effect` with a body that `LimitedJson` refuses; what `serde_json` says of it is left
out. -/
def unreadableUpdate (version : Int) : Handler :=
  .extract (ifMatch version) fun _ => .respond (.validation "body" "invalid JSON body")

/-- The handler of a request. -/
def route (auth : AuthContext) : HttpRequest → Handler
  | .createRun key req => createRun key req
  | .forkRun runId key req => forkRun runId key req
  | .appendRunEvent runId key req => appendRunEvent runId key req
  | .createCheckpoint runId version key req => createCheckpoint runId version key req
  | .acquireEffect key req => acquireEffect key req
  | .updateEffect effectId version req => updateEffect auth effectId version req
  | .unreadableUpdate _ version => unreadableUpdate version

end Calod.Api
