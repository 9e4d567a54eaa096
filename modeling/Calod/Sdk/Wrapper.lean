import Calod.Sdk.Client

/-!
# The `effect` decorator

The wrapper around a decorated function: `effect.wrapper`, `_acquire_until_actionable` and
`_record_failure` of `sdk/python/src/calod/decorator.py`. The wrapper of `calod.sync.effect`
(`sync.py`, with `_record_failure_sync`) takes the same steps with a blocking client; it is the
same machine.

A wrapper stands at a request, at the call of the function, or has ended (`Pc`). What comes back
moves it on: `afterAcquire`, `afterStart`, `afterTool`, `afterRecord`, `afterMark`, `afterCommit`.

Python's part is a parameter: exceptions, their classes, and the JSON encoder.
-/

namespace Calod.Sdk

open Calod.Ledger Calod.Api Calod.Serde

/-! ## Python -/

inductive DumpsErrorClass where
  | typeError
  | valueError
  /-- Anything else, such as `RecursionError`. -/
  | other
  deriving DecidableEq, Repr

/-- What `canonical_dumps` raised. -/
structure DumpsError where
  cls : DumpsErrorClass
  text : Str
  deriving DecidableEq, Repr

/-- What the wrapper uses of Python. -/
structure Python where
  /-- Values a function can return. -/
  Object : Type
  /-- Exceptions, `BaseException` and below. -/
  Exc : Type
  Cls : Type
  isinstance : Exc → Cls → Bool
  /-- `type(exc).__name__.lower()`. -/
  kind : Exc → String
  str : Exc → Str
  /-- `json.loads(canonical_dumps(result))`. -/
  normalize : Object → Except DumpsError Json

/-! ## A decorated call -/

/-- The arguments of the decorator that say how to treat exceptions. -/
structure Options (py : Python) where
  unknownExceptions : List py.Cls
  retryableExceptions : List py.Cls

/-- What the wrapper has computed from the arguments of the call. -/
structure Invocation where
  scope : String
  toolName : String
  payload : Value
  idempotencyKey : String
  runId : Option Uuid
  leaseDurationSeconds : Nat
  downstreamIdempotencySupported : Bool

inductive Classification where
  | unknown
  | retryable
  | terminal
  deriving DecidableEq, Repr

/-- What the caller of the wrapper sees raised. -/
inductive Raised (py : Python) where
  /-- The exception of the function. -/
  | tool (exc : py.Exc)
  | outcomeUnknown (effect : Effect)
  | effectWaitTimeout (effect : Effect)
  | client (error : ClientError)
  | dumps (error : DumpsError)
  /-- `UnicodeEncodeError`, of the body of a request. -/
  | unicodeEncode
  /-- The idempotency key is malformed. -/
  | invalidKey

inductive Pc (py : Python) where
  | acquiring
  | starting (effect : Effect) (leaseToken : String)
  /-- Inside the function. -/
  | invoking (effect : Effect) (leaseToken : String)
  /-- In `_record_failure`. -/
  | recording (effect : Effect) (leaseToken : String) (exc : py.Exc)
      (classification : Classification)
  /-- The result cannot be encoded; this is being recorded. -/
  | marking (effect : Effect) (leaseToken : String) (error : DumpsError)
  | committing (effect : Effect) (leaseToken : String) (normalized : Json)
  | returned (result : Option Value)
  | raised (exc : Raised py)

/-- How a call of the decorated function ended. -/
inductive ToolOutcome (py : Python) where
  | returned (result : py.Object)
  | raised (exc : py.Exc)

/-! ## Keys -/

def isKeyChar (c : Char) : Bool :=
  c.isAlphanum || c = '.' || c = '_' || c = ':' || c = '-'

/-- `_validate_key`. The `$` of the pattern also matches before a final newline. -/
def validateKey (key : String) : Bool :=
  let chars := key.toList
  let chars := if chars.getLast? = some '\n' then chars.dropLast else chars
  8 ≤ chars.length && chars.length ≤ 255 && chars.all isKeyChar

/-! ## Failures -/

/-- The first 2000 characters. -/
def clip (text : Str) : Str := text.take 2000

section

variable {py : Python}

/-- The classification of `_record_failure`: unknown is asked for first. -/
def classify (options : Options py) (exc : py.Exc) : Classification :=
  if options.unknownExceptions.any (py.isinstance exc) then .unknown
  else if options.retryableExceptions.any (py.isinstance exc) then .retryable
  else .terminal

def failureMessage (py : Python) (exc : py.Exc) : Str :=
  clip (if py.str exc = [] then .ofString (py.kind exc) else py.str exc)

/-- The message about a result that cannot be encoded. -/
def notSerializable (error : DumpsError) : Str :=
  clip (.ofString "tool result is not JSON-serializable: " ++ error.text)

/-- The request of `_record_failure`. -/
def recordRequest (effect : Effect) (leaseToken : String) (exc : py.Exc) :
    Classification → HttpRequest
  | .unknown =>
    markOutcomeUnknownRequest effect leaseToken (py.kind exc) (encoded (failureMessage py exc))
  | .retryable => failRequest effect leaseToken (py.kind exc) (encoded (failureMessage py exc)) true
  | .terminal => failRequest effect leaseToken (py.kind exc) (encoded (failureMessage py exc)) false

/-! ## The wrapper -/

/-- The body of the `acquire` request. -/
def Invocation.body (invocation : Invocation) : AcquireEffectRequest where
  runId := invocation.runId
  scope := invocation.scope
  toolName := invocation.toolName
  input := invocation.payload
  leaseDurationSeconds := some invocation.leaseDurationSeconds
  downstreamIdempotencySupported := invocation.downstreamIdempotencySupported

def acquireRequest (invocation : Invocation) : HttpRequest :=
  .acquireEffect (some invocation.idempotencyKey) invocation.body

/-- Where a call begins. -/
def Pc.start (invocation : Invocation) : Pc py :=
  if validateKey invocation.idempotencyKey then .acquiring else .raised .invalidKey

/-- The request that the wrapper waits for. -/
def Pc.request (invocation : Invocation) : Pc py → Option HttpRequest
  | .acquiring => some (acquireRequest invocation)
  | .starting effect leaseToken => some (startRequest effect leaseToken)
  | .recording effect leaseToken exc classification =>
    some (recordRequest effect leaseToken exc classification)
  | .marking effect leaseToken error =>
    some (markOutcomeUnknownRequest effect leaseToken "result_not_serializable"
      (encoded (notSerializable error)))
  | .committing effect leaseToken normalized =>
    some (commitRequest effect leaseToken normalized)
  | .invoking _ _ | .returned _ | .raised _ => none

/--
`_acquire_until_actionable`, after an answer. `expired` says whether the deadline for waiting
has passed.
-/
def afterAcquire (expired : Bool) : Except ClientError EffectDecision → Pc py
  | .error error => .raised (.client error)
  | .ok decision =>
    match decision.decision with
    | .wait => if expired then .raised (.effectWaitTimeout decision.effect) else .acquiring
    | .replay => .returned decision.effect.result
    | .reconcile => .raised (.outcomeUnknown decision.effect)
    | .execute =>
      -- `if not decision.lease_token`: missing or empty
      match decision.leaseToken with
      | none | some "" =>
        .raised (.client (.calod { cls := .calodError, status := none, code := none }))
      | some leaseToken => .starting decision.effect leaseToken

def afterStart (effect : Effect) (leaseToken : String) : Except ClientError Effect → Pc py
  | .error error => .raised (.client error)
  | .ok _ => .invoking effect leaseToken

/-- The request that comes next, unless its body cannot be encoded: `_request` does that before it
sends anything, and nobody catches what it raises. -/
def sending (encodes : Bool) (pc : Pc py) : Pc py :=
  if encodes then pc else .raised .unicodeEncode

/-- The function has ended: record its exception, or encode its result. -/
def afterTool (options : Options py) (effect : Effect) (leaseToken : String) :
    ToolOutcome py → Pc py
  | .raised exc =>
    sending (encodes (failureMessage py exc))
      (.recording effect leaseToken exc (classify options exc))
  | .returned result =>
    match py.normalize result with
    | .ok normalized => sending normalized.encodes (.committing effect leaseToken normalized)
    | .error error =>
      -- `except (TypeError, ValueError)`
      if error.cls = .other then .raised (.dumps error)
      else sending (encodes (notSerializable error)) (.marking effect leaseToken error)

/-- `try: .. except CalodError: pass`, and then `next`. Any other exception gets out. -/
def exceptCalodError (next : Pc py) : Except ClientError Effect → Pc py
  | .ok _ | .error (.calod _) => next
  | .error error => .raised (.client error)

/-- After `_record_failure`: `OutcomeUnknown`, or the original exception. -/
def afterRecord (effect : Effect) (exc : py.Exc) (classification : Classification) :
    Except ClientError Effect → Pc py :=
  exceptCalodError
    (.raised (if classification = .unknown then .outcomeUnknown effect else .tool exc))

def afterMark (effect : Effect) : Except ClientError Effect → Pc py :=
  exceptCalodError (.raised (.outcomeUnknown effect))

def afterCommit : Except ClientError Effect → Pc py
  | .error error => .raised (.client error)
  | .ok committed => .returned committed.result

/-- The request that the wrapper waits for has ended. -/
def Pc.resume (expired : Bool) (result : Except ClientError HttpResponse) : Pc py → Pc py
  | .acquiring => afterAcquire expired (asDecision result)
  | .starting effect leaseToken => afterStart effect leaseToken (asEffect result)
  | .recording effect _ exc classification =>
    afterRecord effect exc classification (asEffect result)
  | .marking effect _ _ => afterMark effect (asEffect result)
  | .committing _ _ _ => afterCommit (asEffect result)
  | pc => pc

/-- The function that the wrapper waits for has ended. -/
def Pc.afterInvoke (options : Options py) (outcome : ToolOutcome py) : Pc py → Option (Pc py)
  | .invoking effect leaseToken => some (afterTool options effect leaseToken outcome)
  | _ => none

end

/-! ## A call to evaluate -/

namespace Sample

/-- Exceptions by the name of their class; every object can be encoded but one. -/
def python : Python where
  Object := Option Json
  Exc := String
  Cls := String
  isinstance exc cls := exc = cls
  kind exc := exc
  str _ := []
  normalize
    | some value => .ok value
    | none => .error { cls := .typeError, text := .ofString "not serializable" }

/-- Some of the default classes. -/
def options : Options python where
  unknownExceptions := ["readtimeout", "timeouterror"]
  retryableExceptions := ["connecterror"]

def invocation : Invocation where
  scope := "payments"
  toolName := "charge"
  payload := .json [("amount", .ofInt 5)]
  idempotencyKey := "order-0001"
  runId := none
  leaseDurationSeconds := 30
  downstreamIdempotencySupported := false

end Sample

end Calod.Sdk
