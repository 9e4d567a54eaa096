import Calod.Sdk.Wrapper
import Calod.Sdk.Contracts

/-!
# Decorated calls against the ledger

Any number of decorated calls, in any processes, with the network and the ledger between them, and
with any other callers of the ledger.

* `World.step` — a step of the network, a new decorated call, a call that goes on with the answer
  to its request, or a function that ends
* `success_is_committed` — a call returns normally only if the effect of its key is committed or
  reconciled as committed, as long as no decorated call acquires a key whose effect has failed
* `failed_effect_returns` — a call that does acquire one returns normally
-/

namespace Calod.Sdk

open Calod.Ledger Calod.Api Lib Sdk.Sample

variable {id : Uuid} {t : Nat} {result : Except LedgerError Response}
  {persisted : Option RecordKind} {pc : Pc py}

/-! ## The world -/

/-- A decorated call. -/
structure Worker (py : Python) where
  apiKey : String
  retries : Nat
  options : Options py
  invocation : Invocation
  pc : Pc py
  /-- The request it waits for, or waited for last. -/
  exchange : Nat
  /-- The last answer to its `acquire`. -/
  answer : Option EffectDecision

structure World (py : Python) where
  net : Net
  workers : List (Worker py)

namespace Worker

variable {py : Python}

/-- The call moves on to `pc`. If that is a request, `_request` is called. -/
def proceed (net : Net) (worker : Worker py) (pc : Pc py) : Net × Worker py :=
  match pc.request worker.invocation with
  | none => (net, { worker with pc })
  | some request =>
    ({ net with
        exchanges := net.exchanges ++ [Exchange.new worker.apiKey worker.retries request] },
      { worker with pc, exchange := net.exchanges.length })

/-- What the request that the call waits for has ended with. -/
def received (net : Net) (worker : Worker py) : Option (Except ClientError HttpResponse) :=
  (worker.pc.request worker.invocation).bind fun _ =>
    net.exchanges[worker.exchange]?.bind Exchange.result

def isAcquiring (worker : Worker py) : Bool :=
  match worker.pc with
  | .acquiring => true
  | _ => false

/-- The call takes note of an answer to its `acquire`. -/
def noteAnswer (worker : Worker py) (result : Except ClientError HttpResponse) : Worker py :=
  match worker.pc, asDecision result with
  | .acquiring, .ok decision => { worker with answer := some decision }
  | _, _ => worker

end Worker

namespace World

variable {py : Python}

def init : World py := { net := .init, workers := [] }

inductive Action (py : Python) where
  | net (action : Net.Action)
  /-- A decorated function is called. -/
  | call (apiKey : String) (retries : Nat) (options : Options py) (invocation : Invocation)
  /-- A call goes on with the end of its request; `expired` if it has waited for too long. -/
  | resume (worker : Nat) (expired : Bool)
  /-- The decorated function ends. -/
  | tool (worker : Nat) (outcome : ToolOutcome py)

def step (server : Server) (w : World py) : Action py → Option (World py)
  | .net action => (w.net.step server action).map fun net => { w with net }
  | .call apiKey retries options invocation =>
    let worker : Worker py :=
      { apiKey, retries, options, invocation, pc := .start invocation, exchange := 0
        answer := none }
    let (net, worker) := worker.proceed w.net (.start invocation)
    some { net, workers := w.workers ++ [worker] }
  | .resume j expired =>
    match w.workers[j]? with
    | none => none
    | some worker =>
      (worker.received w.net).map fun result =>
        let (net, worker) :=
          (worker.noteAnswer result).proceed w.net (worker.pc.resume expired result)
        { net, workers := w.workers.set j worker }
  | .tool j outcome =>
    match w.workers[j]? with
    | none => none
    | some worker =>
      (worker.pc.afterInvoke worker.options outcome).map fun pc =>
        let (net, worker) := worker.proceed w.net pc
        { net, workers := w.workers.set j worker }

end World

/-- Does the key of this `acquire` have an effect that has failed for good? -/
def acquiresFailed (s : Sys) (t : Nat) : Bool :=
  match s.tasks[t]?.map Task.request with
  | some (.call scope (.acquire key req)) =>
    (s.ledger.indexes.effectOf (acquireKey scope key req)).any fun effect =>
      effect.state = .failedTerminal || effect.state = .reconciledFailed
  | _ => false

namespace World

variable {py : Python}

/-- A step of the `acquire` of a decorated call, on a key whose effect has failed for good. -/
def replaysFailure (w : World py) : Action py → Bool
  | .net (.sys (.step t _)) =>
    w.workers.any fun worker =>
      worker.isAcquiring && w.net.taskOf worker.exchange = some t && acquiresFailed w.net.sys t
  | _ => false

/-- Calls only, nothing is removed, and effects get unused ids. -/
def unpruned (w : World py) : Action py → Bool
  | .net action => w.net.unpruned action
  | _ => true

/-! ## What a step can do -/

/-- All that one step can do. -/
inductive Moves (server : Server) (w : World py) : Action py → World py → Prop where
  | net {action : Net.Action} {net : Net} (h : w.net.step server action = some net) :
      Moves server w (.net action) { w with net }
  | call (apiKey : String) (retries : Nat) (options : Options py) (invocation : Invocation)
      (worker : Worker py) (hanswer : worker.answer = none) :
      Moves server w (.call apiKey retries options invocation)
        { net := (worker.proceed w.net (.start invocation)).1
          workers := w.workers ++ [(worker.proceed w.net (.start invocation)).2] }
  | resume {j : Nat} {worker : Worker py} {result : Except ClientError HttpResponse}
      (expired : Bool) (hj : w.workers[j]? = some worker)
      (h : worker.received w.net = some result) :
      Moves server w (.resume j expired)
        { net := ((worker.noteAnswer result).proceed w.net (worker.pc.resume expired result)).1
          workers := w.workers.set j
            ((worker.noteAnswer result).proceed w.net (worker.pc.resume expired result)).2 }
  | tool {j : Nat} {worker : Worker py} {effect : Effect} {leaseToken : String}
      (outcome : ToolOutcome py) (hj : w.workers[j]? = some worker)
      (hpc : worker.pc = .invoking effect leaseToken) :
      Moves server w (.tool j outcome)
        { net := (worker.proceed w.net (afterTool worker.options effect leaseToken outcome)).1
          workers := w.workers.set j
            (worker.proceed w.net (afterTool worker.options effect leaseToken outcome)).2 }

/-- **Every step is one of the moves.** -/
theorem step_moves {server : Server} {w w' : World py} {action : Action py}
    (h : w.step server action = some w') : Moves server w action w' := by
  cases action with
  | net action =>
    obtain ⟨net, hnet, rfl⟩ := Option.map_eq_some_iff.mp h
    exact .net hnet
  | call apiKey retries options invocation =>
    cases h
    exact .call apiKey retries options invocation _ rfl
  | resume j expired =>
    simp only [step] at h
    split at h
    · cases h
    · next worker hj =>
      obtain ⟨result, hresult, rfl⟩ := Option.map_eq_some_iff.mp h
      exact .resume expired hj hresult
  | tool j outcome =>
    simp only [step] at h
    split at h
    · cases h
    · next worker hj =>
      obtain ⟨pc, hpc, rfl⟩ := Option.map_eq_some_iff.mp h
      cases hinvoking : worker.pc <;> rw [hinvoking] at hpc <;> cases hpc
      exact .tool outcome hj hinvoking

variable {server : Server} {w w' : World py} {action : Action py}

/-- The network under a run of the world is in a run of its own. -/
theorem reach_net {P : World py → Action py → Prop} (hP : ∀ w a, P w a → w.unpruned a = true)
    (h : Reach (World.step server) P init w) :
    Reach (Net.step server) (fun net a => net.unpruned a = true) Net.init w.net := by
  have hproceed : ∀ {net} (worker : Worker py) pc,
      Reach (Net.step server) (fun net a => net.unpruned a = true) Net.init net →
      Reach (Net.step server) (fun net a => net.unpruned a = true) Net.init
        (worker.proceed net pc).1 := by
    intro net worker pc hr
    unfold Worker.proceed
    cases pc.request worker.invocation with
    | none => exact hr
    | some request =>
      exact hr.step (a := .request worker.apiKey worker.retries request) rfl rfl
  induction h with
  | init => exact .init
  | step _ hp hs ih =>
    cases step_moves hs with
    | net hs' => exact ih.step (hP _ _ hp) hs'
    | call | resume | tool => exact hproceed _ _ ih

end World

/-! ## Facts about the effect of a key -/

section

variable {idx idx' : Indexes} {key : EffectKey}

/-- The key has this effect. -/
def Granted (idx : Indexes) (key : EffectKey) (id : Uuid) : Prop :=
  ∃ effect, idx.effectOf key = some effect ∧ effect.id = id

/-- The effect of the key is committed, by its worker or by reconciliation. -/
def Succeeded (idx : Indexes) (key : EffectKey) : Prop :=
  ∃ effect, idx.effectOf key = some effect ∧
    (effect.state = .committed ∨ effect.state = .reconciledCommitted)

/-- The effect with this id is committed. -/
def Committed (idx : Indexes) (id : Uuid) : Prop :=
  ∃ effect, idx.effectOf (effectKeyOf effect) = some effect ∧ effect.id = id ∧
    effect.state = .committed

/-- An answer about the effect of the key, which has not failed for good; a replay is of success. -/
structure Accepted (idx : Indexes) (key : EffectKey) (decision : EffectDecision) : Prop where
  granted : Granted idx key decision.effect.id
  replay : decision.decision = .replay → Succeeded idx key
  terminal : decision.effect.state ≠ .failedTerminal
  reconciled : decision.effect.state ≠ .reconciledFailed

theorem Granted.later (h : Granted idx key id) (hl : idx.Later idx') : Granted idx' key id := by
  obtain ⟨effect, hof, rfl⟩ := h
  obtain ⟨effect', hof', hid, -⟩ := hl key effect hof
  exact ⟨effect', hof', hid⟩

theorem Succeeded.later (h : Succeeded idx key) (hl : idx.Later idx') : Succeeded idx' key := by
  obtain ⟨effect, hof, hstate⟩ := h
  refine ⟨effect, hl.final hof ?_, hstate⟩
  rcases hstate with hs | hs <;> rw [hs] <;> rfl

theorem Committed.later (h : Committed idx id) (hl : idx.Later idx') : Committed idx' id := by
  obtain ⟨effect, hof, hid, hstate⟩ := h
  exact ⟨effect, hl.final hof (by rw [hstate]; rfl), hid, hstate⟩

theorem Accepted.later {decision : EffectDecision} (h : Accepted idx key decision)
    (hl : idx.Later idx') : Accepted idx' key decision where
  granted := h.granted.later hl
  replay hd := (h.replay hd).later hl
  terminal := h.terminal
  reconciled := h.reconciled

/-- The committed effect is the one that was granted. -/
theorem Committed.succeeded (h : Committed idx id) (hg : Granted idx key id) (hb : idx.Bound)
    (hk : idx.Keyed) : Succeeded idx key := by
  obtain ⟨effect, hof, rfl⟩ := hg
  obtain ⟨effect', hof', hid, hstate⟩ := h
  obtain ⟨i, hi, -⟩ := hb.effectOf_eq_some.mp hof
  obtain ⟨j, hj, -⟩ := hb.effectOf_eq_some.mp hof'
  have hij : i = j := by rw [← hk.effects i effect hi, ← hk.effects j effect' hj, hid]
  subst hij
  rw [hi] at hj
  cases hj
  exact ⟨effect, hof, Or.inl hstate⟩

end

/-! ## The contracts of the requests -/

/-- `acquire` gets nothing but accepted answers. -/
def acquireContract (scope : Scope) (key : String) (req : AcquireEffectRequest) : Contract where
  ledger idx call result := ∀ decision, call = .acquire key req →
    result = .ok (.decision decision) → Accepted idx (acquireKey scope key req) decision
  response idx r := ∀ decision, r.body = .decision decision →
    Accepted idx (acquireKey scope key req) decision
  later h hl decision hd := (h decision hd).later hl
  problem _ _ _ _ _ h := by cases h

/-- `commit` succeeds only if the effect is committed. -/
def commitContract (id : Uuid) : Contract where
  ledger idx call result := ∀ req caps effect, call = .transition id req caps →
    req.transition = .commit → result = .ok (.effect effect) → Committed idx id
  response idx r := ∀ effect, r.body = .effect effect → Committed idx id
  later h hl effect he := (h effect he).later hl
  problem _ _ _ _ _ h := by cases h

/-- A request whose API key was not accepted. -/
theorem safe_arrived {k : Contract} {server : Server} {ex : Exchange} {idx : Indexes}
    (h : Safe k (route (server.keys ex.apiKey) ex.request) idx) (valid : Bool) :
    Safe k (Net.arrived server ex valid) idx := by
  cases valid with
  | true => exact h
  | false => exact safe_problem ..

/-- The handler of `acquire` answers with what the ledger decides. -/
theorem safe_acquireEffect (scope : Scope) (key : String) (req : AcquireEffectRequest)
    (idx : Indexes) :
    Safe (acquireContract scope key req) (acquireEffect (some key) req) idx := by
  unfold acquireEffect Handler.extract
  cases hkey : idempotencyKey (some key) with
  | error response =>
    simp only [idempotencyKey] at hkey
    split at hkey <;> cases hkey
    exact safe_problem ..
  | ok key' =>
    obtain rfl : key = key' := by
      simp only [idempotencyKey] at hkey
      split at hkey <;> cases hkey
      rfl
    refine safe_ledger fun idx' response hl hk => ?_
    cases response with
    | decision decision =>
      intro decision' hd
      cases hd
      exact hk decision rfl rfl
    | _ => exact safe_problem ..

/-- The handler of `commit` answers with an effect only if the transition went through. -/
theorem safe_updateEffect (auth : AuthContext) (id : Uuid) (version : Int)
    (req : UpdateEffectRequest) (hcommit : req.transition = .commit) (idx : Indexes) :
    Safe (commitContract id) (updateEffect auth id version req) idx := by
  unfold updateEffect Handler.extract
  cases hversion : ifMatch version with
  | error response =>
    simp only [ifMatch] at hversion
    split at hversion <;> cases hversion
    exact safe_problem ..
  | ok version' =>
    simp only [hcommit, EffectTransition.isWorkerTransition, Bool.not_true, Bool.false_and,
      Bool.false_eq_true, if_false]
    refine safe_ledger fun idx₁ response₁ _ _ => ?_
    cases response₁ with
    | effect current =>
      simp only []
      split
      · exact safe_problem ..
      · refine safe_ledger fun idx₂ response₂ _ hk => ?_
        cases response₂ with
        | effect effect =>
          intro effect' _
          exact hk req auth.capabilities effect rfl hcommit rfl
        | _ => exact safe_problem ..
    | _ => exact safe_problem ..

/-- Whatever the result, `commit` does not answer with an effect that is not committed. -/
theorem safe_commitRequest (auth : AuthContext) (effect : Effect) (leaseToken : String)
    (result : Json) (idx : Indexes) :
    Safe (commitContract effect.id) (route auth (commitRequest effect leaseToken result)) idx := by
  unfold commitRequest
  split
  · show Safe _ (unreadableUpdate _) idx
    unfold unreadableUpdate Handler.extract
    cases hversion : ifMatch effect.fencingToken with
    | error response =>
      simp only [ifMatch] at hversion
      split at hversion <;> cases hversion
      exact safe_problem ..
    | ok version => exact safe_problem ..
  · exact safe_updateEffect _ _ _ _ rfl idx
  · exact safe_updateEffect _ _ _ _ rfl idx

/-! ## What the ledger answers -/

namespace Net

variable {server : Server} {net net' : Net} {action : Action}

/-- A call of the ledger returns with a step of the ledger. -/
theorem sys_of_returned (h : net.step server action = some net') {task task' : Task}
    (ht : net.sys.tasks[t]? = some task) (hbefore : task.pc.isDone = false)
    (ht' : net'.sys.tasks[t]? = some task') (hafter : task'.pc.isDone = true) :
    ∃ a, action = .sys a ∧ net.sys.step server.env a = some net'.sys := by
  have hsame : net'.sys.tasks[t]? ≠ some task := by
    intro he
    rw [ht'] at he
    cases he
    rw [hbefore] at hafter
    cases hafter
  cases step_moves h with
  | sys hs => exact ⟨_, rfl, hs⟩
  | request | settle => exact absurd ht hsame
  | deliver | serve => exact absurd (enter_tasks _ _ ht) hsame

section

variable (hsys : Reach (Sys.step server.env) (fun s a => s.unpruned a = true) Sys.init net.sys)
  (hcond : net.unpruned action = true) (h : net.step server action = some net')

include hsys hcond h

/-- Every step of the network leads to later indexes. -/
theorem later_step : net.sys.ledger.indexes.Later net'.sys.ledger.indexes := by
  cases step_moves h with
  | sys hs =>
    exact Sys.later_step (.of_reach hsys) (Sys.fits_of_reach (Sys.unpruned_reach hsys)).1.1 hcond hs
  | request | settle => exact .refl _
  | deliver | serve =>
    show net.sys.ledger.indexes.Later (enter ..).1.ledger.indexes
    rw [enter_ledger]
    exact .refl _

/-- An `acquire` that is not decided on a failed effect gets an accepted answer. -/
theorem acquire_accepted {task task' : Task} {scope : Scope} {key : String}
    {req : AcquireEffectRequest} {call : Call}
    (hfailed : ∀ draws, action = .sys (.step t draws) → acquiresFailed net.sys t = false)
    (ht : net.sys.tasks[t]? = some task) (hrequest : task.request = .call scope call)
    (hbefore : task.pc.isDone = false) (ht' : net'.sys.tasks[t]? = some task')
    (hdone : task'.pc = .done result persisted) :
    (acquireContract scope key req).ledger net'.sys.ledger.indexes call result := by
  rintro decision rfl rfl
  obtain ⟨a, rfl, hs⟩ := sys_of_returned h ht hbefore ht' (by rw [hdone]; rfl)
  obtain ⟨decision', effect, he, hof, hview, hreplay, hdecided⟩ := Sys.acquire_returned
    (.of_reach hsys) (Sys.fits_of_reach (Sys.unpruned_reach hsys)).1.1 hcond hs ht hrequest hbefore
    ht' hdone
  cases he
  -- if the effect had failed, this step would have been taken on a failed effect
  have hgood : effect.state ≠ .failedTerminal ∧ effect.state ≠ .reconciledFailed := by
    have habsurd : effect.state.isRetentionTerminal = true →
        (effect.state = .failedTerminal || effect.state = .reconciledFailed) = true → False := by
      intro hfinal hbad
      obtain ⟨draws, rfl, hold⟩ := hdecided hfinal
      have := hfailed draws rfl
      simp only [acquiresFailed, ht, Option.map_some, hrequest, hold, Option.any_some] at this
      rw [hbad] at this
      cases this
    constructor
    · intro hs
      exact habsurd (by rw [hs]; rfl) (by simp [hs])
    · intro hs
      exact habsurd (by rw [hs]; rfl) (by simp [hs])
  refine ⟨⟨effect, hof, by rw [hview]; rfl⟩, fun hd => ⟨effect, hof, ?_⟩, ?_, ?_⟩
  · have hfinal := hreplay hd
    cases hs : effect.state <;> rw [hs] at hfinal hgood <;>
      simp_all [EffectStatus.isRetentionTerminal]
  · rw [hview]
    show effect.state.apiState ≠ _
    cases hs : effect.state <;> rw [hs] at hgood <;> simp_all [EffectStatus.apiState]
  · rw [hview]
    show effect.state.apiState ≠ _
    cases hs : effect.state <;> rw [hs] at hgood <;> simp_all [EffectStatus.apiState]

/-- A `commit` that returns successfully has committed its effect. -/
theorem commit_committed {task task' : Task} {scope : Scope} {call : Call}
    (ht : net.sys.tasks[t]? = some task)
    (hrequest : task.request = .call scope call) (hbefore : task.pc.isDone = false)
    (ht' : net'.sys.tasks[t]? = some task') (hdone : task'.pc = .done result persisted) :
    (commitContract id).ledger net'.sys.ledger.indexes call result := by
  rintro req caps effect rfl hcommit rfl
  obtain ⟨a, rfl, hs⟩ := sys_of_returned h ht hbefore ht' (by rw [hdone]; rfl)
  exact Sys.commit_returned (.of_reach hsys) (Sys.fits_of_reach (Sys.unpruned_reach hsys)).1.1
    (.of_reach hsys) hcond hs ht hrequest hcommit hbefore ht' hdone

end

end Net

/-! ## What a call stands on -/

section

variable {py : Python} {server : Server} {net net' : Net} {worker : Worker py}

def Worker.key (server : Server) (worker : Worker py) : EffectKey :=
  acquireKey (server.keys worker.apiKey).scope worker.invocation.idempotencyKey
    worker.invocation.body

/-- The effect that a call has been granted, and whether it may have returned. -/
def Pc.Founded (idx : Indexes) (key : EffectKey) : Pc py → Prop
  | .starting effect _ | .invoking effect _ | .recording effect _ _ _ | .marking effect _ _
  | .committing effect _ _ => Granted idx key effect.id
  | .returned _ => Succeeded idx key
  | .acquiring | .raised _ => True

/-- What is known of a call, wherever it stands. -/
structure Worker.Stands (server : Server) (net : Net) (worker : Worker py) : Prop where
  founded : worker.pc.Founded net.sys.ledger.indexes (worker.key server)
  acquiring : worker.pc = .acquiring → ∃ ex, ex.apiKey = worker.apiKey ∧
    net.Owes server (acquireContract (server.keys worker.apiKey).scope
      worker.invocation.idempotencyKey worker.invocation.body) worker.exchange ex
  committing : ∀ effect leaseToken normalized,
    worker.pc = .committing effect leaseToken normalized →
    ∃ ex, ex.apiKey = worker.apiKey ∧
      net.Owes server (commitContract effect.id) worker.exchange ex
  answer : ∀ decision, worker.answer = some decision →
    decision.effect.state ≠ .failedTerminal ∧ decision.effect.state ≠ .reconciledFailed

theorem Pc.Founded.later {idx idx' : Indexes} {key : EffectKey} (h : pc.Founded idx key)
    (hl : idx.Later idx') : pc.Founded idx' key := by
  cases pc with
  | returned result => exact Succeeded.later h hl
  | acquiring => trivial
  | raised exc => trivial
  | _ => exact Granted.later h hl

/-- A call that a step of the network does not move. -/
theorem Worker.Stands.step {action : Net.Action} (hw : worker.Stands server net)
    (hsys : Reach (Sys.step server.env) (fun s a => s.unpruned a = true) Sys.init net.sys)
    (hcond : net.unpruned action = true) (h : net.step server action = some net')
    (hfailed : ∀ t draws, worker.pc = .acquiring → net.taskOf worker.exchange = some t →
      action = .sys (.step t draws) → acquiresFailed net.sys t = false) :
    worker.Stands server net' := by
  have hl := Net.later_step hsys hcond h
  have hreopen : ∀ keep, action ≠ .sys (.reopen keep) := by
    rintro keep rfl
    cases Sys.unpruned_callsOnly hcond
  refine ⟨hw.founded.later hl, fun hpc => ?_, fun effect leaseToken normalized hpc => ?_,
    hw.answer⟩
  · obtain ⟨ex, hkey, ho⟩ := hw.acquiring hpc
    obtain ⟨ex', ho', hkey', -⟩ := ho.step h hreopen hl
      fun t task task' call result persisted htask ht hrequest hb ht' hdone =>
        Net.acquire_accepted hsys hcond h (fun draws => hfailed t draws hpc htask) ht
          (hkey ▸ hrequest) hb ht' hdone
    exact ⟨ex', hkey'.trans hkey, ho'⟩
  · obtain ⟨ex, hkey, ho⟩ := hw.committing effect leaseToken normalized hpc
    obtain ⟨ex', ho', hkey', -⟩ := ho.step h hreopen hl
      fun t task task' call result persisted _ ht hrequest hb ht' hdone =>
        Net.commit_committed hsys hcond h ht hrequest hb ht' hdone
    exact ⟨ex', hkey'.trans hkey, ho'⟩

/-- A call that moves on to where it may stand. -/
theorem Worker.stands_proceed {pc : Pc py}
    (hfounded : pc.Founded net.sys.ledger.indexes (worker.key server))
    (hanswer : ∀ decision, worker.answer = some decision →
      decision.effect.state ≠ .failedTerminal ∧ decision.effect.state ≠ .reconciledFailed) :
    (worker.proceed net pc).2.Stands server (worker.proceed net pc).1 := by
  cases pc with
  | acquiring =>
    refine ⟨hfounded, fun _ => ⟨_, rfl, Net.owes_new (fun idx' valid _ => ?_) rfl rfl⟩,
      fun _ _ _ h => (by cases h), hanswer⟩
    exact safe_arrived (safe_acquireEffect ..) valid
  | committing effect leaseToken normalized =>
    refine ⟨hfounded, fun h => (by cases h), fun _ _ _ h => ?_, hanswer⟩
    cases h
    refine ⟨_, rfl, Net.owes_new (fun idx' valid _ => ?_) rfl rfl⟩
    exact safe_arrived (safe_commitRequest _ _ _ _ idx') valid
  | _ => exact ⟨hfounded, fun h => (by cases h), fun _ _ _ h => (by cases h), hanswer⟩

/-- The other calls do not notice that a call moves on. -/
theorem Worker.Stands.proceed {other : Worker py} {pc : Pc py} (hw : worker.Stands server net)
    (hsys : Reach (Sys.step server.env) (fun s a => s.unpruned a = true) Sys.init net.sys) :
    worker.Stands server (other.proceed net pc).1 := by
  unfold Worker.proceed
  cases pc.request other.invocation with
  | none => exact hw
  | some request =>
    have hs : net.step server (.request other.apiKey other.retries request)
        = some { net with exchanges :=
            net.exchanges ++ [Exchange.new other.apiKey other.retries request] } := rfl
    exact hw.step hsys rfl hs fun _ _ _ _ h => by cases h

theorem founded_exceptCalodError {idx : Indexes} {key : EffectKey} {next : Pc py}
    (result : Except ClientError Effect) (h : next.Founded idx key) :
    (exceptCalodError next result).Founded idx key := by
  unfold exceptCalodError
  split
  · exact h
  · exact h
  · trivial

theorem founded_sending {idx : Indexes} {key : EffectKey} {next : Pc py} (encodes : Bool)
    (h : next.Founded idx key) : (sending encodes next).Founded idx key := by
  cases encodes with
  | true => exact h
  | false => trivial

theorem founded_afterAcquire {idx : Indexes} {key : EffectKey} {decision : EffectDecision}
    (h : Accepted idx key decision) (expired : Bool) :
    (afterAcquire expired (.ok decision) : Pc py).Founded idx key := by
  rw [afterAcquire]
  cases hdecision : decision.decision with
  | wait => cases expired <;> trivial
  | replay => exact h.replay hdecision
  | reconcile => trivial
  | execute =>
    simp only []
    split
    · trivial
    · trivial
    · exact h.granted

/-- An answer that the worker does not keep. -/
theorem Worker.Stands.proceed_unnoted {result : Except ClientError HttpResponse} {pc : Pc py}
    (hw : worker.Stands server net) (hnote : worker.noteAnswer result = worker)
    (hfounded : pc.Founded net.sys.ledger.indexes (worker.key server)) :
    ((worker.noteAnswer result).proceed net pc).2.Stands server
      ((worker.noteAnswer result).proceed net pc).1 := by
  rw [hnote]
  exact Worker.stands_proceed hfounded hw.answer

/-- **A call that goes on with the end of its request stands where it may.** -/
theorem Worker.Stands.resume {result : Except ClientError HttpResponse} (expired : Bool)
    (hw : worker.Stands server net) (hb : net.sys.ledger.indexes.Bound)
    (hk : net.sys.ledger.indexes.Keyed) (h : worker.received net = some result) :
    ((worker.noteAnswer result).proceed net (worker.pc.resume expired result)).2.Stands server
      ((worker.noteAnswer result).proceed net (worker.pc.resume expired result)).1 := by
  obtain ⟨request, hrequest, hresult⟩ := Option.bind_eq_some_iff.mp h
  have hfounded := hw.founded
  cases hpc : worker.pc with
  | acquiring =>
    obtain ⟨ex, hkey, ho⟩ := hw.acquiring hpc
    rw [ho.exchange, Option.bind_some] at hresult
    cases hd : asDecision result with
    | error error =>
      refine hw.proceed_unnoted (by simp only [Worker.noteAnswer, hpc, hd]) ?_
      rw [Pc.resume, hd]
      trivial
    | ok decision =>
      have haccepted : Accepted net.sys.ledger.indexes (worker.key server) decision := by
        unfold asDecision at hd
        split at hd
        · cases hd
        · cases hd
          exact ho.answer _ hresult decision rfl
        · cases hd
      have hnote : worker.noteAnswer result = { worker with answer := some decision } := by
        simp only [Worker.noteAnswer, hpc, hd]
      rw [hnote, Pc.resume, hd]
      refine Worker.stands_proceed (founded_afterAcquire haccepted expired) ?_
      intro decision' he
      cases he
      exact ⟨haccepted.terminal, haccepted.reconciled⟩
  | committing effect leaseToken normalized =>
    refine hw.proceed_unnoted (by simp only [Worker.noteAnswer, hpc]) ?_
    obtain ⟨ex, hkey, ho⟩ := hw.committing effect leaseToken normalized hpc
    rw [ho.exchange, Option.bind_some] at hresult
    rw [hpc] at hfounded
    simp only [Pc.resume]
    cases he : asEffect result with
    | error error => trivial
    | ok committed =>
      have hcommitted : Committed net.sys.ledger.indexes effect.id := by
        unfold asEffect at he
        split at he
        · cases he
        · cases he
          exact ho.answer _ hresult committed rfl
        · cases he
      exact hcommitted.succeeded hfounded hb hk
  | starting effect leaseToken =>
    refine hw.proceed_unnoted (by simp only [Worker.noteAnswer, hpc]) ?_
    rw [hpc] at hfounded
    simp only [Pc.resume]
    cases asEffect result with
    | error error => trivial
    | ok started => exact hfounded
  | recording | marking =>
    refine hw.proceed_unnoted (by simp only [Worker.noteAnswer, hpc]) ?_
    exact founded_exceptCalodError _ trivial
  | invoking | returned | raised =>
    rw [hpc] at hrequest
    cases hrequest

/-- A call whose function has ended stands where it may. -/
theorem Worker.Stands.tool {effect : Effect} {leaseToken : String} (outcome : ToolOutcome py)
    (hw : worker.Stands server net) (hpc : worker.pc = .invoking effect leaseToken) :
    (worker.proceed net (afterTool worker.options effect leaseToken outcome)).2.Stands server
      (worker.proceed net (afterTool worker.options effect leaseToken outcome)).1 := by
  refine Worker.stands_proceed ?_ hw.answer
  have hgranted := hw.founded
  rw [hpc] at hgranted
  cases outcome with
  | raised exc => exact founded_sending _ hgranted
  | returned result =>
    simp only [afterTool]
    cases py.normalize result with
    | ok normalized => exact founded_sending _ hgranted
    | error error =>
      simp only []
      split
      · trivial
      · exact founded_sending _ hgranted

end

/-! ## Every run -/

namespace World

variable {py : Python} {server : Server} {w w' : World py} {action : Action py}

/-- The runs in which no decorated call acquires a key whose effect has failed. -/
def admitted (w : World py) (action : Action py) : Bool :=
  w.unpruned action && !w.replaysFailure action

theorem admitted_sys {draws : Draws} {worker : Worker py} (hw : worker ∈ w.workers)
    (hcond : w.admitted (.net (.sys (.step t draws))) = true) (hpc : worker.pc = .acquiring)
    (htask : w.net.taskOf worker.exchange = some t) : acquiresFailed w.net.sys t = false := by
  have hnone := (Bool.and_eq_true_iff.mp hcond).2
  simp only [replaysFailure, Bool.not_eq_true', List.any_eq_false] at hnone
  have := hnone worker hw
  simpa [Worker.isAcquiring, hpc, htask] using this

/-- **Every call stands where it may, in every run.** -/
theorem stands_of_reach
    (h : Reach (World.step server) (fun w a => w.admitted a = true) (World.init : World py) w) :
    ∀ worker ∈ w.workers, worker.Stands server w.net := by
  refine h.invariant_of_reach (I := fun w => ∀ worker ∈ w.workers, worker.Stands server w.net)
    (fun worker hw => by cases hw) ?_
  intro w action w' hreach hall hcond hstep
  have hsys := Net.reach_sys (fun _ _ hc => hc)
    (reach_net (fun _ _ hc => (Bool.and_eq_true_iff.mp hc).1) hreach)
  cases step_moves hstep with
  | net hs =>
    rename_i action net
    intro worker hw
    refine (hall worker hw).step hsys (Bool.and_eq_true_iff.mp hcond).1 hs ?_
    rintro t draws hpc htask rfl
    exact admitted_sys hw hcond hpc htask
  | call apiKey retries options invocation worker hanswer =>
    intro other hother
    rcases List.mem_append.mp hother with hother | hother
    · exact (hall other hother).proceed hsys
    · rw [List.mem_singleton.mp hother]
      refine Worker.stands_proceed ?_ (fun _ h => by rw [hanswer] at h; cases h)
      unfold Pc.start
      split <;> trivial
  | resume expired hj hr =>
    intro other hother
    rcases List.mem_or_eq_of_mem_set hother with hother | rfl
    · exact (hall other hother).proceed hsys
    · exact (hall _ (List.mem_of_getElem? hj)).resume expired
        (Sys.PartitionLock.of_reach hsys).bound
        (Sys.fits_of_reach (Sys.unpruned_reach hsys)).1.1 hr
  | tool outcome hj hpc =>
    intro other hother
    rcases List.mem_or_eq_of_mem_set hother with hother | rfl
    · exact (hall other hother).proceed hsys
    · exact (hall _ (List.mem_of_getElem? hj)).tool outcome hpc

end World

/--
**A decorated call reports success only for a committed effect.** For every run of any number of
decorated calls, functions with any outcome, reconciliations and other callers, in which no
decorated call acquires a key whose effect is `failed_terminal` or `reconciled_failed`:

* a call that has returned normally has an effect that is `committed` or `reconciled_committed`;
* a call whose `acquire` was answered with an effect that has failed raises.
-/
theorem success_is_committed (server : Server) {py : Python} {w : World py}
    (h : Reach (World.step server) (fun w a => w.admitted a = true) World.init w) :
    ∀ worker ∈ w.workers,
      (∀ result, worker.pc = .returned result →
        ∃ effect, w.net.sys.ledger.indexes.effectOf (worker.key server) = some effect ∧
          (effect.state = .committed ∨ effect.state = .reconciledCommitted)) ∧
      ∀ decision, worker.answer = some decision →
        decision.effect.state = .failedTerminal ∨ decision.effect.state = .reconciledFailed →
        ∃ exc, worker.pc = .raised exc := by
  intro worker hw
  have hstands := World.stands_of_reach h worker hw
  refine ⟨fun result hpc => ?_, fun decision hd hfailed => ?_⟩
  · have hfounded := hstands.founded
    rw [hpc] at hfounded
    exact hfounded
  · obtain ⟨hterminal, hreconciled⟩ := hstands.answer decision hd
    rcases hfailed with hs | hs
    · exact absurd hs hterminal
    · exact absurd hs hreconciled

namespace Sample

def call : World.Action python := .call "cld_key" 2 options invocation

def onNet (actions : List Net.Action) : List (World.Action python) := actions.map .net

/-- A request of the client is handled with one call of the ledger, and the call goes on. -/
def acquired (worker exchange task n count : Nat) : List (World.Action python) :=
  onNet (.deliver exchange true :: ledgerSteps task n count
    ++ [.serve exchange, .receive exchange]) ++ [.resume worker false]

/-- A transition is handled with two calls of the ledger, and the call goes on. -/
def transitioned (worker exchange task n : Nat) : List (World.Action python) :=
  onNet (.deliver exchange true :: ledgerSteps task n 1 ++ .serve exchange ::
    ledgerSteps (task + 1) n 4 ++ [.serve exchange, .receive exchange]) ++ [.resume worker false]

/-- A decorated call runs its function, which ends as given; then the same call is made again. -/
def calledTwice (outcome : ToolOutcome python) : List (World.Action python) :=
  call :: acquired 0 0 0 1 4 ++ transitioned 0 1 1 2 ++ .tool 0 outcome :: transitioned 0 2 3 3
    ++ call :: acquired 1 3 5 4 2

end Sample

/-- Has a call returned normally, and what state is its effect in? -/
def World.report (w : World Sample.python) (j : Nat) : Option (Bool × Option EffectStatus) :=
  w.workers[j]?.map fun worker =>
    (match worker.pc with | .returned _ => true | _ => false,
      (w.net.sys.ledger.indexes.effectOf (worker.key Sample.server)).map EffectRecord.state)

/-- What a report says of the call. -/
theorem of_report {w : World python} {j : Nat} {state : EffectStatus}
    (h : w.report j = some (true, some state)) :
    ∃ worker ∈ w.workers, (∃ result, worker.pc = .returned result) ∧
      ∃ effect, w.net.sys.ledger.indexes.effectOf (worker.key Sample.server) = some effect ∧
        effect.state = state := by
  obtain ⟨worker, hj, he⟩ := Option.map_eq_some_iff.mp h
  obtain ⟨hreturned, hstate⟩ := Prod.mk.inj he
  refine ⟨worker, List.mem_of_getElem? hj, ?_, Option.map_eq_some_iff.mp hstate⟩
  split at hreturned
  · next result hpc => exact ⟨result, hpc⟩
  · cases hreturned

/-- A call that commits, and one that gets its result. -/
theorem success_is_committed_twice :
    ∃ w : World python,
      Reach (World.step Sample.server) (fun w a => w.admitted a = true) World.init w ∧
      ∃ worker ∈ w.workers, (∃ result, worker.pc = .returned result) ∧
        ∃ effect, w.net.sys.ledger.indexes.effectOf (worker.key Sample.server) = some effect ∧
          (effect.state = .committed ∨ effect.state = .reconciledCommitted) := by
  have hrun : ((Lib.run (World.step Sample.server) World.admitted World.init
      (calledTwice (.returned (some .none)))).map fun w => w.report 1)
        = some (some (true, some .committed)) := by
    decide +kernel
  obtain ⟨w, hreach, hreport⟩ := exists_reach_of_run hrun
  obtain ⟨worker, hw, ⟨result, hpc⟩, -⟩ := of_report hreport
  exact ⟨w, hreach, worker, hw, ⟨result, hpc⟩,
    (success_is_committed Sample.server hreach worker hw).1 result hpc⟩

/-- The function fails for good; the same call, made again, returns normally. -/
theorem failed_effect_returns :
    ∃ w : World python,
      Reach (World.step Sample.server) (fun w a => w.unpruned a = true) World.init w ∧
      ∃ worker ∈ w.workers, (∃ result, worker.pc = .returned result) ∧
        ∃ effect, w.net.sys.ledger.indexes.effectOf (worker.key Sample.server) = some effect ∧
          effect.state = .failedTerminal := by
  have hrun : ((Lib.run (World.step Sample.server) World.unpruned World.init
      (calledTwice (.raised "valueerror"))).map fun w => w.report 1)
        = some (some (true, some .failedTerminal)) := by
    decide +kernel
  obtain ⟨w, hreach, hreport⟩ := exists_reach_of_run hrun
  exact ⟨w, hreach, of_report hreport⟩

end Calod.Sdk
