import Calod.Ledger.Config

/-!
# Effects: acquire and transition

The decisions of `Ledger::acquire` and `Ledger::transition`, as pure functions of the state
they read under the partition lock. Persisting what they decide is in
`Calod/Ledger/Ledger.lean`.
-/

namespace Calod.Ledger

open Calod.Serde

/-! ## Scoped lookups -/

/-- `run_in_scope`: other tenants and projects see "not found". -/
def runInScope (idx : Indexes) (scope : Scope) (runId : Uuid) : Except LedgerError RunRecord :=
  match idx.runs[runId]? with
  | some run =>
    if run.tenantId = scope.tenantId ∧ run.projectId = scope.projectId then .ok run
    else .error (.notFound "run" runId.toString)
  | none => .error (.notFound "run" runId.toString)

/-- `effect_in_scope`. -/
def effectInScope (idx : Indexes) (scope : Scope) (effectId : Uuid) :
    Except LedgerError EffectRecord :=
  match idx.effectsById[effectId]? with
  | some effect =>
    if effect.tenantId = scope.tenantId ∧ effect.projectId = scope.projectId then .ok effect
    else .error (.notFound "effect" effectId.toString)
  | none => .error (.notFound "effect" effectId.toString)

/-! ## Validation -/

/-- A string length check; the source counts bytes. -/
def validateLen (field : String) (value : String) (max : Nat) : Except LedgerError Unit :=
  if value.utf8ByteSize = 0 ∨ max < value.utf8ByteSize then
    .error (.validation field ("must be 1..=" ++ toString max ++ " characters"))
  else .ok ()

def isAsciiLowercase (b : UInt8) : Bool := 0x61 ≤ b && b ≤ 0x7A

def isAsciiUppercase (b : UInt8) : Bool := 0x41 ≤ b && b ≤ 0x5A

def isAsciiDigit (b : UInt8) : Bool := 0x30 ≤ b && b ≤ 0x39

/-- Bytes of an idempotency key: `[A-Za-z0-9._:-]`. -/
def isKeyByte (b : UInt8) : Bool :=
  isAsciiLowercase b || isAsciiUppercase b || isAsciiDigit b
    || b == 0x2E || b == 0x5F || b == 0x3A || b == 0x2D

def validateEffectFields (scope key tool : String) : Except LedgerError Unit := do
  validateLen "scope" scope 500
  if 8 ≤ key.utf8ByteSize ∧ key.utf8ByteSize ≤ 255 ∧ (utf8 key).all isKeyByte then
    validateLen "tool_name" tool 200
  else
    .error (.validation "idempotency_key"
      "must be 8..=255 characters matching ^[A-Za-z0-9._:-]+$")

/-! ## Acquire -/

/-- A new state of an effect, with the timeline event that documents it. -/
structure EffectChange where
  effect : EffectRecord
  eventType : String
  detail : Value

/-- What `acquire` decided, and what (if anything) must be persisted. -/
inductive AcquirePlan where
  /-- Pure read decision (replay, wait, reconcile). -/
  | decide (decision : EffectDecision)
  /-- Persist a new effect state, then decide. -/
  | apply (change : EffectChange) (decision : EffectDecisionType) (leaseToken : Option String)

def acquireKey (scope : Scope) (idempotencyKey : String) (req : AcquireEffectRequest) :
    EffectKey where
  tenantId := scope.tenantId
  projectId := scope.projectId
  scope := req.scope
  idempotencyKey := idempotencyKey

/-- New lease epoch for a safe reacquire: `claimed`, fence + 1, fresh token. -/
def reacquire (crates : Crates) (effect : EffectRecord) (req : AcquireEffectRequest)
    (leaseMs now : Int) (leaseToken : String) : EffectRecord :=
  { effect with
    state := .claimed
    fencingToken := effect.fencingToken + 1
    leaseExpiresAtMs := some (addI64 now leaseMs)
    leaseDurationMs := leaseMs
    leaseTokenDigest := some (sha256Digest crates (utf8 leaseToken))
    toolName := req.toolName
    updatedAtMs := now }

def waitDecision (effect : EffectRecord) (expires now : Int) : EffectDecision where
  decision := .wait
  effect := effect.view
  leaseToken := none
  pollAfterMs := some (max (addI64 expires (-now)).toNat 1)

/-- The effect of a first acquire. -/
def newEffect (crates : Crates) (scope : Scope) (idempotencyKey : String)
    (req : AcquireEffectRequest) (leaseMs : Int) (draws : Draws) : EffectRecord where
  schemaVersion := schemaVersion
  tenantId := scope.tenantId
  projectId := scope.projectId
  id := draws.id
  runId := req.runId
  scope := req.scope
  idempotencyKey := idempotencyKey
  toolName := req.toolName
  inputDigest := inputDigest crates req.input
  state := .claimed
  fencingToken := 1
  leaseExpiresAtMs := some (addI64 draws.now leaseMs)
  leaseDurationMs := leaseMs
  leaseTokenDigest := some (sha256Digest crates (utf8 (generateLeaseToken draws.token)))
  result := none
  externalReceipt := none
  failure := none
  createdAtMs := draws.now
  updatedAtMs := draws.now

/--
An effect whose lease ran out while in progress: the tool may have fired, so it is never
retried and gets no new lease.
-/
def expireInProgress (effect : EffectRecord) (now : Int) : EffectRecord :=
  { effect with
    state := .outcomeUnknown
    leaseExpiresAtMs := none
    leaseTokenDigest := none
    updatedAtMs := now
    failure := some (effect.failure.getD
      { kind := "lease_expired_in_progress"
        message := "Lease expired while in progress; outcome cannot be proven"
        retryable := false }) }

/-- `acquire` on a key that has an effect, after the digest check: by its state. -/
def acquireExisting (crates : Crates) (effect : EffectRecord) (req : AcquireEffectRequest)
    (leaseMs : Int) (draws : Draws) : AcquirePlan :=
  let token := generateLeaseToken draws.token
  match effect.state with
  | .committed | .reconciledCommitted | .failedTerminal | .reconciledFailed =>
    .decide { decision := .replay, effect := effect.view, leaseToken := none, pollAfterMs := none }
  | .outcomeUnknown =>
    .decide
      { decision := .reconcile, effect := effect.view, leaseToken := none, pollAfterMs := none }
  | .failedRetryable =>
    -- the tool provably never fired: safe reacquire
    .apply
      { effect := reacquire crates effect req leaseMs draws.now token
        eventType := "effect.reacquired"
        detail := .json [("from", .string "failed_retryable"), ("to", .string "claimed")] }
      .execute (some token)
  | .claimed =>
    let expires := effect.leaseExpiresAtMs.getD draws.now
    if draws.now < expires then .decide (waitDecision effect expires draws.now)
    else
      -- expired before the tool started: safe reacquire
      .apply
        { effect := reacquire crates effect req leaseMs draws.now token
          eventType := "effect.reacquired"
          detail := .json [("from", .string "claimed"), ("to", .string "claimed"),
            ("reason", .string "lease_expired")] }
        .execute (some token)
  | .inProgress =>
    let expires := effect.leaseExpiresAtMs.getD draws.now
    if draws.now < expires then .decide (waitDecision effect expires draws.now)
    else
      .apply
        { effect := expireInProgress effect draws.now
          eventType := "effect.outcome_unknown"
          detail := .json [("from", .string "in_progress"), ("to", .string "outcome_unknown"),
            ("reason", .string "lease_expired")] }
        .reconcile none

/-- A new effect may only name a run of its own scope. -/
def checkRun (idx : Indexes) (scope : Scope) : Option Uuid → Except LedgerError Unit
  | none => .ok ()
  | some runId => (runInScope idx scope runId).map fun _ => ()

/-- The effect that a key is bound to. -/
def Indexes.effectOf (idx : Indexes) (key : EffectKey) : Option EffectRecord :=
  (idx.effectIds key).bind fun id => idx.effectsById[id]?

/-- The decision of `acquire` under the partition lock. -/
def acquirePlan (env : Env) (idx : Indexes) (scope : Scope) (idempotencyKey : String)
    (req : AcquireEffectRequest) (draws : Draws) : Except LedgerError AcquirePlan := do
  let leaseMs ← resolveLeaseMs env.config req.leaseDurationSeconds "lease_duration_seconds"
  let digest := inputDigest env.crates req.input
  match idx.effectOf (acquireKey scope idempotencyKey req) with
  | none =>
    checkRun idx scope req.runId
    return .apply
      { effect := newEffect env.crates scope idempotencyKey req leaseMs draws
        eventType := "effect.acquired"
        detail := .json [("from", .null), ("to", .string "claimed")] }
      .execute (some (generateLeaseToken draws.token))
  | some effect =>
    if effect.inputDigest ≠ digest ∨ effect.toolName ≠ req.toolName then
      .error (.idempotencyConflict req.scope idempotencyKey effect.inputDigest digest)
    else
      return acquireExisting env.crates effect req leaseMs draws

/-- The answer of an `acquire` that persisted a new state. -/
def executeAnswer (effect : EffectRecord) (decision : EffectDecisionType)
    (leaseToken : Option String) : EffectDecision where
  decision := decision
  effect := effect.view
  leaseToken := leaseToken
  pollAfterMs := none

/-! ## Transition -/

/-- Which transition is legal from which state. -/
def legalTransition : EffectTransition → EffectStatus → Bool
  | .start, .claimed => true
  | .renew, .claimed | .renew, .inProgress => true
  | .commit, .claimed | .commit, .inProgress => true
  | .failRetryable, .claimed | .failRetryable, .inProgress => true
  | .failTerminal, .claimed | .failTerminal, .inProgress => true
  | .markOutcomeUnknown, .claimed | .markOutcomeUnknown, .inProgress => true
  | .reconcileCommitted, .outcomeUnknown => true
  | .reconcileFailed, .outcomeUnknown => true
  | _, _ => false

/-- Worker transitions present the lease token; reconcile transitions need the capability. -/
def authorize (crates : Crates) (effect : EffectRecord) (req : UpdateEffectRequest)
    (capabilities : CallerCapabilities) : Except LedgerError Unit :=
  if req.transition.isWorkerTransition then
    match req.leaseToken with
    | none => .error (.validation "lease_token" "required for worker transitions")
    | some token =>
      if effect.leaseTokenDigest ≠ some (sha256Digest crates (utf8 token)) then
        .error (.forbidden "lease token does not match the active lease")
      else .ok ()
  else if !capabilities.canReconcile then
    .error (.forbidden "reconcile transitions require the effects:reconcile capability")
  else .ok ()

/-- The failure that a worker's failed transition stores. -/
def workerFailure (req : UpdateEffectRequest) : EffectFailure :=
  req.failure.getD
    { kind := "failed", message := "worker reported failure"
      retryable := req.transition = .failRetryable }

/-- The lease that `renew` asks for, or else the one the effect has. -/
def renewLeaseMs (config : LedgerConfig) (effect : EffectRecord) (req : UpdateEffectRequest) :
    Except LedgerError Int :=
  match req.leaseDurationSeconds with
  | some secs => resolveLeaseMs config (some secs) "lease_duration_seconds"
  | none => .ok effect.leaseDurationMs

/-- The new state and the event type of a transition that was checked. -/
def nextEffect (env : Env) (effect : EffectRecord) (req : UpdateEffectRequest) (now : Int) :
    Except LedgerError (EffectRecord × String) :=
  let next := { effect with updatedAtMs := now }
  match req.transition with
  | .start => .ok ({ next with state := .inProgress }, "effect.started")
  | .renew => do
    let leaseMs ← renewLeaseMs env.config effect req
    return ({ next with leaseExpiresAtMs := some (addI64 now leaseMs), leaseDurationMs := leaseMs },
      "effect.renewed")
  | .commit =>
    .ok ({ next with
        state := .committed, result := req.result, externalReceipt := req.externalReceipt
        failure := none, leaseExpiresAtMs := none, leaseTokenDigest := none },
      "effect.committed")
  | .failRetryable =>
    .ok ({ next with
        state := .failedRetryable, failure := some (workerFailure req)
        leaseExpiresAtMs := none, leaseTokenDigest := none },
      "effect.failed")
  | .failTerminal =>
    .ok ({ next with
        state := .failedTerminal, failure := some (workerFailure req)
        leaseExpiresAtMs := none, leaseTokenDigest := none },
      "effect.failed")
  | .markOutcomeUnknown =>
    .ok ({ next with
        state := .outcomeUnknown, failure := req.failure
        leaseExpiresAtMs := none, leaseTokenDigest := none },
      "effect.outcome_unknown")
  | .reconcileCommitted =>
    .ok ({ next with
        state := .reconciledCommitted, result := req.result
        externalReceipt := req.externalReceipt },
      "effect.reconciled")
  | .reconcileFailed =>
    .ok ({ next with
        state := .reconciledFailed
        failure := some (req.failure.getD
          { kind := "reconciled_failed"
            message := "reconciliation proved the tool did not fire", retryable := false }) },
      "effect.reconciled")

/-- The decision of `transition` under the partition lock, on the effect read there. -/
def transitionPlan (env : Env) (effect : EffectRecord) (req : UpdateEffectRequest)
    (capabilities : CallerCapabilities) (now : Int) : Except LedgerError EffectChange := do
  if req.fencingToken ≠ effect.fencingToken then
    .error (.staleFencingToken effect.fencingToken req.fencingToken)
  else if !legalTransition req.transition effect.state then
    .error (.invalidTransition effect.state.asStr req.transition.asStr)
  else
    authorize env.crates effect req capabilities
    let (next, eventType) ← nextEffect env effect req now
    return {
      effect := next
      eventType := eventType
      detail := .json [("from", .string effect.state.asStr), ("to", .string next.state.asStr),
        ("transition", .string req.transition.asStr)] }

/-! ## Timeline events -/

/-- `build_event`: the next event of a run, built on the head of the run record. -/
def buildEvent (crates : Crates) (scope : Scope) (run : RunRecord) (eventType : String)
    (occurredAtMs : Int) (payload : Value) (now : Int) (eventId : Uuid) : EventRecord :=
  let event : EventRecord :=
    { schemaVersion := schemaVersion, tenantId := scope.tenantId, projectId := scope.projectId
      id := eventId, runId := run.id, sequence := run.lastEventSequence + 1, eventType
      occurredAtMs, recordedAtMs := now, payload, previousHash := run.headHash, hash := "" }
  { event with hash := computeEventHash crates event.view }

/-- `build_effect_event`: `none` for an effect without a run. -/
def buildEffectEvent (crates : Crates) (idx : Indexes) (scope : Scope) (change : EffectChange)
    (now : Int) (eventId : Uuid) : Except LedgerError (Option EventRecord) :=
  match change.effect.runId with
  | none => .ok none
  | some runId => do
    let run ← runInScope idx scope runId
    let effect := change.effect
    let payload := Value.json
      [("effect_id", .string effect.id.toString), ("scope", .string effect.scope),
        ("idempotency_key", .string effect.idempotencyKey),
        ("tool_name", .string effect.toolName),
        ("fencing_token", .ofInt effect.fencingToken), ("detail", change.detail)]
    return some (buildEvent crates scope run change.eventType now payload now eventId)

end Calod.Ledger
