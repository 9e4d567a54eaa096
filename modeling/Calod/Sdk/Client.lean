import Calod.Api.Routes

/-!
# The client of the Python SDK

`CalodClient` of `sdk/python/src/calod/client.py`. `SyncCalodClient` of `sync.py` is the same code
without `await`.

* `Json` — what Python can put into a body; not all of it is JSON
* `idempotent` — which requests are sent again
* `afterAttempt` — one turn of the loop in `_request`
* `asDecision`, `asEffect` — what `acquire` and `_transition` make of the response
-/

namespace Calod.Sdk

open Calod.Ledger Calod.Api Calod.Serde

/-! ## Texts and values of Python -/

/-- A `str`: its code points, lone surrogates among them. -/
abbrev Str := List Nat

def Str.ofString (s : String) : Str := s.toList.map Char.toNat

/-- Has it no lone surrogate, so that `.encode("utf-8")` succeeds? -/
def encodes (s : Str) : Bool := s.all fun c => c < 0xD800 || 0xDFFF < c

/-- `.encode("utf-8")` of a text that can be encoded. -/
def encoded (s : Str) : String := String.ofList (s.map Char.ofNat)

/-- What `json.loads` returns. -/
inductive Json where
  | none
  | bool (b : Bool)
  | number (n : Number)
  /-- `NaN`, `Infinity` or `-Infinity`: Python's `json` reads and writes them, JSON has none. -/
  | notFinite
  | str (s : Str)
  | list (items : List Json)
  | dict (entries : List (Str × Json))

namespace Json

mutual

/-- Does `canonical_dumps(value).encode("utf-8")` succeed? -/
def encodes : Json → Bool
  | .none | .bool _ | .number _ | .notFinite => true
  | .str s => Sdk.encodes s
  | .list items => encodesItems items
  | .dict entries => encodesEntries entries

def encodesItems : List Json → Bool
  | [] => true
  | v :: rest => v.encodes && encodesItems rest

def encodesEntries : List (Str × Json) → Bool
  | [] => true
  | (key, v) :: rest => Sdk.encodes key && v.encodes && encodesEntries rest

end

mutual

/-- The JSON value that stands for it, if there is one. -/
def toValue : Json → Option Value
  | .none => some .null
  | .bool b => some (.bool b)
  | .number n => some (.number n)
  | .notFinite => Option.none
  | .str s => if Sdk.encodes s then some (.string (encoded s)) else Option.none
  | .list items => (toItems items).map .array
  | .dict entries => (toEntries entries).map .object

def toItems : List Json → Option (List Value)
  | [] => some []
  | v :: rest => do return (← v.toValue) :: (← toItems rest)

def toEntries : List (Str × Json) → Option (List (String × Value))
  | [] => some []
  | (key, v) :: rest =>
    if Sdk.encodes key then do return (encoded key, ← v.toValue) :: (← toEntries rest)
    else Option.none

end

end Json

/-! ## Errors -/

inductive CalodErrorClass where
  | calodError
  | effectConflict
  | leaseLost
  deriving DecidableEq, Repr

/-- A `CalodError` or one of its subclasses. -/
structure CalodError where
  cls : CalodErrorClass
  status : Option Nat
  code : Option String
  deriving DecidableEq, Repr

/-- How a request of the client can fail. -/
inductive ClientError where
  | calod (error : CalodError)
  /-- `httpx.TransportError`. -/
  | transport
  /-- A response that does not parse: `KeyError` or `TypeError`. -/
  | malformed
  deriving DecidableEq, Repr

/-- `_CONFLICT_CODES`. -/
def conflictCodes : String → Option CalodErrorClass
  | "IDEMPOTENCY_CONFLICT" => some .effectConflict
  | "LEASE_LOST" => some .leaseLost
  | _ => none

/-- The problem code of a body. -/
def problemCode : Body → Option String
  | .problem code _ => some code
  | _ => none

/-- `_raise_for_problem`. -/
def raiseForProblem (response : HttpResponse) : CalodError :=
  let code := problemCode response.body
  let cls :=
    if response.status = 409 then (code.bind conflictCodes).getD .calodError
    else if response.status = 403 ∨ response.status = 412 then .leaseLost
    else .calodError
  { cls, status := some response.status, code }

/-! ## The loop of `_request` -/

inductive Method where
  | get
  | post
  | patch
  deriving DecidableEq, Repr

def method : HttpRequest → Method
  | .createRun _ _ | .forkRun _ _ _ | .appendRunEvent _ _ _ | .createCheckpoint _ _ _ _
  | .acquireEffect _ _ => .post
  | .updateEffect _ _ _ | .unreadableUpdate _ _ => .patch

def path : HttpRequest → String
  | .createRun _ _ => "/v1/runs"
  | .forkRun runId _ _ => "/v1/runs/" ++ runId.toString ++ "/forks"
  | .appendRunEvent runId _ _ => "/v1/runs/" ++ runId.toString ++ "/events"
  | .createCheckpoint runId _ _ _ => "/v1/runs/" ++ runId.toString ++ "/checkpoints"
  | .acquireEffect _ _ => "/v1/effects"
  | .updateEffect effectId _ _ | .unreadableUpdate effectId _ =>
    "/v1/effects/" ++ effectId.toString

/-- Reads, and the two creations that carry an idempotency key. -/
def idempotent (request : HttpRequest) : Bool :=
  method request = .get ||
    (method request = .post && (path request = "/v1/effects" || path request = "/v1/runs"))

/-- `RETRYABLE_STATUSES`. -/
def retryableStatuses : List Nat := [502, 503, 504]

/--
One turn of the loop, from how the attempt ended: `none` for a transport error. The result is
`none` if the request is sent again.
-/
def afterAttempt (request : HttpRequest) (retries attempt : Nat) :
    Option HttpResponse → Option (Except ClientError HttpResponse)
  | none => if idempotent request && attempt < retries then none else some (.error .transport)
  | some response =>
    if response.status ∈ retryableStatuses ∧ idempotent request ∧ attempt < retries then none
    else if 400 ≤ response.status then some (.error (.calod (raiseForProblem response)))
    else some (.ok response)

/-! ## What the methods return -/

/-- `acquire`. -/
def asDecision (result : Except ClientError HttpResponse) : Except ClientError EffectDecision :=
  match result with
  | .error error => .error error
  | .ok { body := .decision decision, .. } => .ok decision
  | .ok _ => .error .malformed

/-- `_transition`. -/
def asEffect (result : Except ClientError HttpResponse) : Except ClientError Effect :=
  match result with
  | .error error => .error error
  | .ok { body := .effect effect, .. } => .ok effect
  | .ok _ => .error .malformed

/-- The request of `_transition`: `If-Match` is the fence. -/
def transitionRequest (effect : Effect) (leaseToken : String) (transition : EffectTransition)
    (result : Option Value) (failure : Option EffectFailure) : HttpRequest :=
  .updateEffect effect.id effect.fencingToken
    { transition, leaseToken := some leaseToken, fencingToken := effect.fencingToken
      leaseDurationSeconds := none, result, externalReceipt := none, failure }

/-- `start`. -/
def startRequest (effect : Effect) (leaseToken : String) : HttpRequest :=
  transitionRequest effect leaseToken .start none none

/-- `commit`. A `null` in the body is read as no result. -/
def commitRequest (effect : Effect) (leaseToken : String) (result : Json) : HttpRequest :=
  match result.toValue with
  | none => .unreadableUpdate effect.id effect.fencingToken
  | some .null => transitionRequest effect leaseToken .commit none none
  | some result => transitionRequest effect leaseToken .commit (some result) none

/-- `fail`. -/
def failRequest (effect : Effect) (leaseToken kind message : String) (retryable : Bool) :
    HttpRequest :=
  transitionRequest effect leaseToken (if retryable then .failRetryable else .failTerminal) none
    (some { kind, message, retryable })

/-- `mark_outcome_unknown`. -/
def markOutcomeUnknownRequest (effect : Effect) (leaseToken kind message : String) : HttpRequest :=
  transitionRequest effect leaseToken .markOutcomeUnknown none
    (some { kind, message, retryable := false })

end Calod.Sdk
