import Calod.Sdk.Client
import Calod.Ledger.Concurrent

/-!
# Requests on their way

Any number of `_request` calls against one server, over a network that loses requests and
responses.

* An `Exchange` is a `_request` call: the attempt it is at, and how it ended.
* A `Handling` is a request that reached the server, with what its handler waits for. It goes on
  when the client has stopped waiting.
* `Net.step` — a request is delivered, a handler goes on, a response arrives, an attempt fails, or
  the ledger takes a step of its own, for whomever

A client that goes away does not cancel the handler of its request.
-/

namespace Calod.Sdk

open Calod.Ledger Calod.Api

/-- The server: the ledger's environment, and what each API key stands for. -/
structure Server where
  env : Env
  keys : String → AuthContext

/-- What the handler of a request waits for, or has answered. -/
inductive Stage where
  | awaiting (task : Nat) (next : Except LedgerError Response → Handler)
  | responded (response : HttpResponse)

/-- The call of the ledger that is waited for. -/
def Stage.task : Stage → Option Nat
  | .awaiting task _ => some task
  | .responded _ => none

/-- A request that reached the server. -/
structure Handling where
  apiKey : String
  request : HttpRequest
  stage : Stage
  /-- The calls of the ledger that were made for it. -/
  calls : List Nat

/-- A call of `_request`. -/
structure Exchange where
  apiKey : String
  request : HttpRequest
  retries : Nat
  attempt : Nat
  /-- The handling of this attempt, once it has reached the server. -/
  handling : Option Nat
  result : Option (Except ClientError HttpResponse)

namespace Exchange

def new (apiKey : String) (retries : Nat) (request : HttpRequest) : Exchange :=
  { apiKey, request, retries, attempt := 0, handling := none, result := none }

/-- The attempt has ended: send the request again, or return. -/
def settle (ex : Exchange) (ended : Option HttpResponse) : Exchange :=
  match afterAttempt ex.request ex.retries ex.attempt ended with
  | none => { ex with attempt := ex.attempt + 1, handling := none }
  | some result => { ex with result := some result }

end Exchange

structure Net where
  sys : Sys
  handlings : List Handling
  exchanges : List Exchange

namespace Net

def init : Net := { sys := .init, handlings := [], exchanges := [] }

inductive Action where
  /-- The ledger moves on, for these requests or for other callers. -/
  | sys (action : Sys.Action)
  /-- A client calls `_request`. -/
  | request (apiKey : String) (retries : Nat) (request : HttpRequest)
  /-- The request reaches the server, which accepts the API key or not. -/
  | deliver (exchange : Nat) (valid : Bool)
  /-- A handler has got what it waited for. -/
  | serve (handling : Nat)
  /-- The response reaches the client. -/
  | receive (exchange : Nat)
  /-- The attempt ends in a transport error. -/
  | lose (exchange : Nat)
  /-- The attempt is answered with an error that no handler gave. -/
  | reject (exchange : Nat) (status : Nat) (code : String)

/-- Let a handler go on as far as it gets: it answers, or a call of the ledger begins. -/
def enter (sys : Sys) (scope : Scope) : Handler → Sys × Stage
  | .respond response => (sys, .responded response)
  | .call call next =>
    ({ sys with tasks := sys.tasks ++ [Task.new (.call scope call)] },
      .awaiting sys.tasks.length next)

/-- The exchange that is waiting, if it is. -/
def waiting (net : Net) (i : Nat) : Option Exchange :=
  net.exchanges[i]?.filter fun ex => ex.result.isNone

/-- The attempt of exchange `i` has ended. -/
def settle (net : Net) (i : Nat) (ended : Option HttpResponse) : Option Net :=
  (net.waiting i).map fun ex => { net with exchanges := net.exchanges.set i (ex.settle ended) }

/-- The handler of a request that has arrived. -/
def arrived (server : Server) (ex : Exchange) (valid : Bool) : Handler :=
  if valid then route (server.keys ex.apiKey) ex.request else .respond .unauthorized

/-- The request of exchange `i` has reached the server. -/
def delivered (server : Server) (net : Net) (i : Nat) (ex : Exchange) (valid : Bool) : Net :=
  let (sys, stage) := enter net.sys (server.keys ex.apiKey).scope (arrived server ex valid)
  { sys
    handlings := net.handlings ++
      [{ apiKey := ex.apiKey, request := ex.request, stage, calls := stage.task.toList }]
    exchanges := net.exchanges.set i { ex with handling := some net.handlings.length } }

/-- Handling `h` goes on. -/
def served (server : Server) (net : Net) (h : Nat) (hd : Handling) (handler : Handler) : Net :=
  let (sys, stage) := enter net.sys (server.keys hd.apiKey).scope handler
  { net with
    sys
    handlings := net.handlings.set h { hd with stage, calls := hd.calls ++ stage.task.toList } }

def step (server : Server) (net : Net) : Action → Option Net
  | .sys action => (net.sys.step server.env action).map fun sys => { net with sys }
  | .request apiKey retries request =>
    some { net with exchanges := net.exchanges ++ [Exchange.new apiKey retries request] }
  | .deliver i valid =>
    match net.waiting i with
    | none => none
    | some ex => if ex.handling.isNone then some (net.delivered server i ex valid) else none
  | .serve h =>
    match net.handlings[h]? with
    | none => none
    | some hd =>
      match hd.stage with
      | .responded _ => none
      | .awaiting task next =>
        match net.sys.tasks[task]?.map Task.pc with
        | some (.done result _) => some (net.served server h hd (next result))
        | _ => none
  | .receive i =>
    match ((net.waiting i).bind Exchange.handling).bind (net.handlings[·]?) with
    | none => none
    | some hd =>
      match hd.stage with
      | .responded response => net.settle i (some response)
      | .awaiting _ _ => none
  | .lose i => net.settle i none
  | .reject i status code =>
    if 400 ≤ status then net.settle i (some { status, body := .problem code [] }) else none

/-! ## What a step can do -/

/-- How an attempt can end: with nothing, with an error from elsewhere, or with the response of its
handler. -/
inductive Ends (net : Net) (ex : Exchange) : Option HttpResponse → Prop where
  | lost : Ends net ex none
  | rejected {status : Nat} {code : String} (h : 400 ≤ status) :
      Ends net ex (some { status, body := .problem code [] })
  | responded {h : Nat} {hd : Handling} {response : HttpResponse} (hex : ex.handling = some h)
      (hh : net.handlings[h]? = some hd) (hstage : hd.stage = .responded response) :
      Ends net ex (some response)

/-- All that one step can do. -/
inductive Moves (server : Server) (net : Net) : Action → Net → Prop where
  | sys {action : Sys.Action} {sys : Sys} (h : net.sys.step server.env action = some sys) :
      Moves server net (.sys action) { net with sys }
  | request (apiKey : String) (retries : Nat) (request : HttpRequest) :
      Moves server net (.request apiKey retries request)
        { net with exchanges := net.exchanges ++ [Exchange.new apiKey retries request] }
  | deliver {i : Nat} {ex : Exchange} (valid : Bool) (hi : net.exchanges[i]? = some ex)
      (hresult : ex.result = none) (hhandling : ex.handling = none) :
      Moves server net (.deliver i valid) (net.delivered server i ex valid)
  | serve {h task : Nat} {hd : Handling} {next : Except LedgerError Response → Handler} {t : Task}
      {result : Except LedgerError Response} {persisted : Option RecordKind}
      (hh : net.handlings[h]? = some hd) (hstage : hd.stage = .awaiting task next)
      (htask : net.sys.tasks[task]? = some t) (hpc : t.pc = .done result persisted) :
      Moves server net (.serve h) (net.served server h hd (next result))
  | settle {action : Action} {i : Nat} {ex : Exchange} {ended : Option HttpResponse}
      (hsys : ∀ a, action ≠ .sys a) (hdeliver : ∀ j valid, action ≠ .deliver j valid)
      (hi : net.exchanges[i]? = some ex) (hresult : ex.result = none) (hended : net.Ends ex ended) :
      Moves server net action { net with exchanges := net.exchanges.set i (ex.settle ended) }

variable {server : Server} {net net' : Net} {i : Nat} {ex : Exchange}

theorem waiting_eq_some :
    net.waiting i = some ex ↔ net.exchanges[i]? = some ex ∧ ex.result = none := by
  simp [waiting, Option.filter_eq_some_iff]

theorem settle_eq_some {ended : Option HttpResponse} (h : net.settle i ended = some net') :
    ∃ ex, net.waiting i = some ex ∧
      net' = { net with exchanges := net.exchanges.set i (ex.settle ended) } := by
  obtain ⟨ex, hex, rfl⟩ := Option.map_eq_some_iff.mp h
  exact ⟨ex, hex, rfl⟩

/-- **Every step is one of the moves.** -/
theorem step_moves {action : Action} (h : net.step server action = some net') :
    Moves server net action net' := by
  cases action with
  | sys action =>
    obtain ⟨sys, hsys, rfl⟩ := Option.map_eq_some_iff.mp h
    exact .sys hsys
  | request apiKey retries request =>
    cases h
    exact .request apiKey retries request
  | deliver i valid =>
    simp only [step] at h
    split at h
    · cases h
    · next ex hex =>
      obtain ⟨hi, hresult⟩ := waiting_eq_some.mp hex
      split at h
      · next hhandling =>
        cases h
        exact .deliver valid hi hresult (Option.isNone_iff_eq_none.mp hhandling)
      · cases h
  | serve j =>
    simp only [step] at h
    split at h
    · cases h
    · next hd hh =>
      split at h
      · cases h
      · next task next hstage =>
        split at h
        · next result persisted hpc =>
          cases h
          obtain ⟨t, ht, hpc⟩ := Option.map_eq_some_iff.mp hpc
          exact .serve hh hstage ht hpc
        · cases h
  | receive i =>
    simp only [step] at h
    split at h
    · cases h
    · next hd hbind =>
      split at h
      · next response hstage =>
        obtain ⟨j, hj, hh⟩ := Option.bind_eq_some_iff.mp hbind
        obtain ⟨ex, hex, rfl⟩ := settle_eq_some h
        rw [hex] at hj
        obtain ⟨hi, hresult⟩ := waiting_eq_some.mp hex
        exact .settle (fun _ => nofun) (fun _ _ => nofun) hi hresult (.responded hj hh hstage)
      · cases h
  | lose i =>
    obtain ⟨ex, hex, rfl⟩ := settle_eq_some h
    obtain ⟨hi, hresult⟩ := waiting_eq_some.mp hex
    exact .settle (fun _ => nofun) (fun _ _ => nofun) hi hresult .lost
  | reject i status code =>
    simp only [step] at h
    split at h
    · next hstatus =>
      obtain ⟨ex, hex, rfl⟩ := settle_eq_some h
      obtain ⟨hi, hresult⟩ := waiting_eq_some.mp hex
      exact .settle (fun _ => nofun) (fun _ _ => nofun) hi hresult (.rejected hstatus)
    · cases h

/-! ## Handlers and the calls of the ledger -/

/-- A handler goes on without the ledger, or a new call arrives there. -/
theorem enter_spawn (env : Env) (sys : Sys) (scope : Scope) (handler : Handler) :
    (enter sys scope handler).1 = sys ∨
      ∃ call, sys.step env (.spawn (.call scope call)) = some (enter sys scope handler).1 := by
  cases handler with
  | respond response => exact Or.inl rfl
  | call call next => exact Or.inr ⟨call, rfl⟩

@[simp] theorem enter_ledger (sys : Sys) (scope : Scope) (handler : Handler) :
    (enter sys scope handler).1.ledger = sys.ledger := by
  cases handler <;> rfl

theorem enter_tasks {sys : Sys} {t : Nat} {task : Task} (scope : Scope) (handler : Handler)
    (h : sys.tasks[t]? = some task) : (enter sys scope handler).1.tasks[t]? = some task := by
  cases handler with
  | respond response => exact h
  | call call next =>
    show (sys.tasks ++ _)[t]? = some task
    rw [List.getElem?_append_left (List.getElem?_eq_some_iff.mp h).1, h]

end Net

/-! ## A server to evaluate -/

namespace Sample

def server : Server where
  env := Ledger.Sample.env
  keys _ := { scope := Ledger.Sample.scope
              capabilities := { canReconcile := true, canAdmin := false } }

/-- `count` steps of one call of the ledger, all with the `n`th draw. -/
def ledgerSteps (task n count : Nat) : List Net.Action :=
  (Ledger.Sample.steps task n count).map Net.Action.sys

end Sample

end Calod.Sdk

namespace Calod.Ledger.Sys

/-- A call that has returned stays as it is. -/
theorem done_step {env : Env} {s s' : Sys} {action : Action} (h : s.step env action = some s')
    (hreopen : ∀ keep, action ≠ .reopen keep) {i : Nat} {task : Task}
    {result : Except LedgerError Response} {persisted : Option RecordKind}
    (hi : s.tasks[i]? = some task) (hpc : task.pc = .done result persisted) :
    s'.tasks[i]? = some task := by
  cases action with
  | spawn request =>
    cases h
    show (s.tasks ++ _)[i]? = some task
    rw [List.getElem?_append_left (List.getElem?_eq_some_iff.mp hi).1, hi]
  | reopen keep => exact absurd rfl (hreopen keep)
  | walFail j error =>
    simp only [step] at h
    split at h
    · cases h
    · next task' hj =>
      split at h
      · next hwait =>
        split at h
        · cases h
          show (s.tasks.set j _)[i]? = some task
          rw [getElem?_set_of_some hj, if_neg, hi]
          rintro rfl
          rw [hi] at hj
          cases hj
          cases hpc.symm.trans hwait
        · cases h
      · cases h
  | step j draws =>
    simp only [step] at h
    split at h
    · cases h
    · next task' hj =>
      obtain ⟨p, hp, rfl⟩ := Option.map_eq_some_iff.mp h
      show (s.tasks.set j p.2)[i]? = some task
      rw [getElem?_set_of_some hj, if_neg, hi]
      rintro rfl
      rw [hi] at hj
      cases hj
      unfold advance at hp
      rw [hpc] at hp
      cases hr : task.request <;> rw [hr] at hp <;> cases hp

end Calod.Ledger.Sys
