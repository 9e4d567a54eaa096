import Calod.Sdk.Network
import Calod.Ledger.Receipts

/-!
# What a request is owed

Rules to carry a fact about the ledger's answers through the handlers and the network to the
client, while other calls go on.

* `Contract` — what the ledger's answers are known to satisfy, and what a response has to satisfy.
  A response that satisfies it once does so at every later time.
* `Safe` — a handler that responds according to the contract, as long as the ledger answers so
* `Owes` — the exchange gets nothing but such responses
* `Owes.step` — every step of the network keeps that, if the call that the exchange waits for
  returns nothing but such answers
-/

namespace Calod.Sdk

open Calod.Ledger Calod.Api Lib

variable {handler : Handler} {ended : Option HttpResponse}

/-! ## Contracts -/

structure Contract where
  /-- What an answer of the ledger to a call satisfies. -/
  ledger : Indexes → Call → Except LedgerError Response → Prop
  /-- What a response satisfies. -/
  response : Indexes → HttpResponse → Prop
  later : ∀ {idx idx' : Indexes} {r : HttpResponse}, response idx r → idx.Later idx' →
    response idx' r
  /-- Problems satisfy it. -/
  problem : ∀ (idx : Indexes) (status : Nat) (code : String) (errors : List ProblemField),
    response idx { status, body := .problem code errors }

variable {k : Contract} {idx idx' : Indexes}

/-- The handler responds according to the contract, now and at every later time. -/
def Safe (k : Contract) : Handler → Indexes → Prop
  | .respond response, idx => k.response idx response
  | .call call next, idx =>
    ∀ idx' result, idx.Later idx' → k.ledger idx' call result → Safe k (next result) idx'

theorem Safe.later (h : Safe k handler idx) (hl : idx.Later idx') : Safe k handler idx' := by
  cases handler with
  | respond response => exact k.later h hl
  | call call next => exact fun idx'' result hl' => h idx'' result (hl.trans hl')

theorem safe_problem (idx : Indexes) (status : Nat) (code : String) (errors : List ProblemField) :
    Safe k (.respond { status, body := .problem code errors }) idx :=
  k.problem idx status code errors

/-- A call of the ledger whose errors are the response. -/
theorem safe_ledger {call : Call} {next : Response → Handler}
    (h : ∀ idx' response, idx.Later idx' → k.ledger idx' call (.ok response) →
      Safe k (next response) idx') : Safe k (.ledger call next) idx := by
  intro idx' result hl hk
  cases result with
  | error error => exact safe_problem ..
  | ok response => exact h idx' response hl hk

/-! ## Exchanges -/

namespace Net

/-- The call of the ledger that exchange `i` waits for. -/
def taskOf (net : Net) (i : Nat) : Option Nat :=
  (((net.waiting i).bind Exchange.handling).bind (net.handlings[·]?)).bind fun hd => hd.stage.task

/-- A handling that will respond according to the contract. -/
def StageOwes (k : Contract) (net : Net) (scope : Scope) : Stage → Prop
  | .responded response => k.response net.sys.ledger.indexes response
  | .awaiting t next => ∃ (task : Task) (call : Call), net.sys.tasks[t]? = some task ∧
      task.request = .call scope call ∧
      (∀ result persisted, task.pc = .done result persisted →
        Safe k (next result) net.sys.ledger.indexes) ∧
      (task.pc.isDone = false → ∀ idx' result, net.sys.ledger.indexes.Later idx' →
        k.ledger idx' call result → Safe k (next result) idx')

/-- An exchange that gets nothing but responses according to the contract. -/
structure Owes (server : Server) (k : Contract) (net : Net) (i : Nat) (ex : Exchange) : Prop where
  exchange : net.exchanges[i]? = some ex
  /-- Another attempt would be answered so, too. -/
  again : ∀ idx' valid, net.sys.ledger.indexes.Later idx' → Safe k (arrived server ex valid) idx'
  answer : ∀ response, ex.result = some (.ok response) →
    k.response net.sys.ledger.indexes response
  current : ∀ h, ex.result = none → ex.handling = some h →
    ∃ hd, net.handlings[h]? = some hd ∧ hd.apiKey = ex.apiKey ∧
      net.StageOwes k (server.keys ex.apiKey).scope hd.stage

variable {server : Server} {net net' : Net} {i : Nat} {ex : Exchange} {action : Action}
  {scope : Scope}

/-- A handler that was let go on. -/
theorem stageOwes_enter (h : Safe k handler net.sys.ledger.indexes)
    (hsys : net'.sys = (enter net.sys scope handler).1) :
    net'.StageOwes k scope (enter net.sys scope handler).2 := by
  cases handler with
  | respond response =>
    show k.response net'.sys.ledger.indexes response
    rw [hsys]
    exact h
  | call call next =>
    refine ⟨Task.new (.call scope call), call, ?_, rfl, fun _ _ h => (by cases h),
      fun _ idx' result hl hk => ?_⟩
    · rw [hsys]
      show (net.sys.tasks ++ [_])[net.sys.tasks.length]? = _
      simp
    · rw [hsys] at hl
      exact h idx' result hl hk

/-- A handling that goes on waiting, while the ledger may have moved on. -/
theorem StageOwes.mono {stage : Stage} (h : net.StageOwes k scope stage)
    (hl : net.sys.ledger.indexes.Later net'.sys.ledger.indexes)
    (htask : ∀ t task, stage.task = some t → net.sys.tasks[t]? = some task →
      ∃ task', net'.sys.tasks[t]? = some task' ∧ task'.request = task.request ∧
        (task.pc.isDone = true → task' = task) ∧
        ∀ call result persisted, task.request = .call scope call → task.pc.isDone = false →
          task'.pc = .done result persisted → k.ledger net'.sys.ledger.indexes call result) :
    net'.StageOwes k scope stage := by
  cases stage with
  | responded response => exact k.later h hl
  | awaiting t next =>
    obtain ⟨task, call, ht, hrequest, hdone, hwaits⟩ := h
    obtain ⟨task', ht', hrequest', hstays, hledger⟩ := htask t task rfl ht
    refine ⟨task', call, ht', hrequest'.trans hrequest, fun result persisted hpc => ?_,
      fun hpc idx' result hl' hk => ?_⟩
    · cases hb : task.pc.isDone with
      | true =>
        rw [hstays hb] at hpc
        exact (hdone result persisted hpc).later hl
      | false => exact hwaits hb _ result hl (hledger call result persisted hrequest hb hpc)
    · cases hb : task.pc.isDone with
      | true =>
        rw [hstays hb, hb] at hpc
        cases hpc
      | false => exact hwaits hb idx' result (hl.trans hl') hk

/-- A handling that goes on waiting, while another call may have begun. -/
theorem StageOwes.enter {stage : Stage} (h : net.StageOwes k scope stage) {scope' : Scope}
    (hsys : net'.sys = (enter net.sys scope' handler).1) : net'.StageOwes k scope stage := by
  refine h.mono ?_ fun t task _ ht => ?_
  · rw [hsys, enter_ledger]
    exact .refl _
  · refine ⟨task, ?_, rfl, fun _ => rfl, fun call result persisted _ hb hpc => ?_⟩
    · rw [hsys]
      exact enter_tasks _ _ ht
    · rw [hpc] at hb
      cases hb

/-- A new exchange, for a request whose handler is safe. -/
theorem owes_new {apiKey : String} {retries : Nat} {request : HttpRequest}
    (hsafe : ∀ idx' valid, net.sys.ledger.indexes.Later idx' →
      Safe k (arrived server (Exchange.new apiKey retries request) valid) idx')
    (hsys : net'.sys = net.sys)
    (hexchanges : net'.exchanges = net.exchanges ++ [Exchange.new apiKey retries request]) :
    net'.Owes server k net.exchanges.length (Exchange.new apiKey retries request) where
  exchange := by simp [hexchanges]
  again idx' valid hl := hsafe idx' valid (hsys ▸ hl)
  answer _ h := by cases h
  current _ _ h := by cases h

/-- An exchange that a step does not touch. -/
theorem Owes.frame (ho : net.Owes server k i ex)
    (hl : net.sys.ledger.indexes.Later net'.sys.ledger.indexes)
    (hexchange : net'.exchanges[i]? = some ex)
    (hcurrent : ∀ h hd, ex.result = none → ex.handling = some h → net.handlings[h]? = some hd →
      hd.apiKey = ex.apiKey → net.StageOwes k (server.keys ex.apiKey).scope hd.stage →
      ∃ hd', net'.handlings[h]? = some hd' ∧ hd'.apiKey = ex.apiKey ∧
        net'.StageOwes k (server.keys ex.apiKey).scope hd'.stage) :
    net'.Owes server k i ex where
  exchange := hexchange
  again idx' valid hl' := ho.again idx' valid (hl.trans hl')
  answer response hr := k.later (ho.answer response hr) hl
  current h hresult hhandling := by
    obtain ⟨hd, hh, hkey, hstage⟩ := ho.current h hresult hhandling
    exact hcurrent h hd hresult hhandling hh hkey hstage

/-- The only response that `_request` returns is the one that its last attempt got. -/
theorem ok_of_settle {response : HttpResponse} (hresult : ex.result = none)
    (h : (ex.settle ended).result = some (.ok response)) :
    ended = some response ∧ response.status < 400 := by
  unfold Exchange.settle at h
  split at h
  · rw [show ({ ex with attempt := ex.attempt + 1, handling := none } : Exchange).result
      = ex.result from rfl, hresult] at h
    cases h
  · next result hafter =>
    cases h
    cases ended with
    | none =>
      simp only [afterAttempt] at hafter
      split at hafter <;> cases hafter
    | some r =>
      simp only [afterAttempt] at hafter
      split at hafter
      · cases hafter
      · split at hafter
        · cases hafter
        · next hstatus =>
          cases hafter
          exact ⟨rfl, Nat.lt_of_not_le hstatus⟩

/-- An exchange that was settled and is not finished waits for a new attempt. -/
theorem handling_of_settle (h : (ex.settle ended).result = none) :
    (ex.settle ended).handling = none := by
  unfold Exchange.settle at h ⊢
  split at h
  · rfl
  · cases h

theorem settle_frame (ex : Exchange) (ended : Option HttpResponse) :
    (ex.settle ended).apiKey = ex.apiKey ∧ (ex.settle ended).request = ex.request := by
  unfold Exchange.settle
  split <;> exact ⟨rfl, rfl⟩

theorem arrived_congr {ex ex' : Exchange} (hkey : ex'.apiKey = ex.apiKey)
    (hrequest : ex'.request = ex.request) (valid : Bool) :
    arrived server ex' valid = arrived server ex valid := by
  simp only [arrived, hkey, hrequest]

theorem taskOf_eq {h : Nat} {hd : Handling} (hi : net.exchanges[i]? = some ex)
    (hresult : ex.result = none) (hhandling : ex.handling = some h)
    (hh : net.handlings[h]? = some hd) : net.taskOf i = hd.stage.task := by
  rw [taskOf, waiting_eq_some.mpr ⟨hi, hresult⟩, Option.bind_some, hhandling, Option.bind_some, hh,
    Option.bind_some]

/-- **Every step keeps what an exchange is owed**, if the call that it waits for returns what the
contract says. -/
theorem Owes.step (ho : net.Owes server k i ex) (h : net.step server action = some net')
    (hreopen : ∀ keep, action ≠ .sys (.reopen keep))
    (hl : net.sys.ledger.indexes.Later net'.sys.ledger.indexes)
    (hledger : ∀ t task task' call result persisted, net.taskOf i = some t →
      net.sys.tasks[t]? = some task → task.request = .call (server.keys ex.apiKey).scope call →
      task.pc.isDone = false → net'.sys.tasks[t]? = some task' →
      task'.pc = .done result persisted → k.ledger net'.sys.ledger.indexes call result) :
    ∃ ex', net'.Owes server k i ex' ∧ ex'.apiKey = ex.apiKey ∧ ex'.request = ex.request := by
  cases step_moves h with
  | sys hs =>
    rename_i action sys
    refine ⟨ex, ho.frame hl ho.exchange fun j hd hresult hhandling hh hkey hstage => ?_, rfl, rfl⟩
    refine ⟨hd, hh, hkey, hstage.mono hl fun t task ht htask => ?_⟩
    have hre : ∀ keep, action ≠ .reopen keep := fun keep he => hreopen keep (he ▸ rfl)
    obtain ⟨task', htask', hrequest, -⟩ := Sys.task_step hs hre htask
    refine ⟨task', htask', hrequest, fun hdone => ?_, fun call result persisted hr hb hpc => ?_⟩
    · cases hpc : task.pc <;> rw [hpc] at hdone <;> cases hdone
      rw [Sys.done_step hs hre htask hpc] at htask'
      exact (Option.some.inj htask').symm
    · refine hledger t task task' call result persisted ?_ htask hr hb htask' hpc
      rw [taskOf_eq ho.exchange hresult hhandling hh, ht]
  | request apiKey retries request =>
    refine ⟨ex, ho.frame hl ?_ fun j hd _ _ hh hkey hstage => ⟨hd, hh, hkey, hstage⟩, rfl, rfl⟩
    show (net.exchanges ++ _)[i]? = some ex
    rw [List.getElem?_append_left (List.getElem?_eq_some_iff.mp ho.exchange).1, ho.exchange]
  | deliver valid hj hresult hhandling =>
    rename_i j ex'
    have hold : ∀ (h : Nat) hd, net.handlings[h]? = some hd →
        (net.delivered server j ex' valid).handlings[h]? = some hd := by
      intro h hd hh
      show (net.handlings ++ _)[h]? = some hd
      rw [List.getElem?_append_left (List.getElem?_eq_some_iff.mp hh).1, hh]
    by_cases hij : j = i
    · -- the request has reached the server
      subst hij
      rw [ho.exchange] at hj
      cases hj
      refine ⟨{ ex with handling := some net.handlings.length }, ⟨?_, ?_, ?_, ?_⟩, rfl, rfl⟩
      · show (net.exchanges.set j _)[j]? = _
        rw [Sys.getElem?_set_of_some ho.exchange, if_pos rfl]
      · exact fun idx' valid' hl' => ho.again idx' valid' (hl.trans hl')
      · exact fun response hr => k.later (ho.answer response hr) hl
      · intro h _ hh
        cases hh
        refine ⟨_, List.getElem?_concat_length, rfl, stageOwes_enter ?_ rfl⟩
        exact ho.again _ valid (.refl _)
    · refine ⟨ex, ho.frame hl ?_ fun h hd _ _ hh hkey hstage =>
        ⟨hd, hold h hd hh, hkey, hstage.enter rfl⟩, rfl, rfl⟩
      show (net.exchanges.set j _)[i]? = some ex
      rw [Sys.getElem?_set_of_some hj, if_neg hij, ho.exchange]
  | serve hh hstage htask hpc =>
    rename_i j t hd next task result persisted
    refine ⟨ex, ho.frame hl ho.exchange fun h hd' _ _ hh' hkey hstage' => ?_, rfl, rfl⟩
    by_cases hjh : j = h
    · -- the handler of this exchange goes on
      subst hjh
      rw [hh] at hh'
      cases hh'
      rw [hstage] at hstage'
      obtain ⟨task', call, htask', -, hdone, -⟩ := hstage'
      rw [htask] at htask'
      cases htask'
      refine ⟨_, (Sys.getElem?_set_of_some hh _ j).trans (if_pos rfl), hkey, ?_⟩
      rw [← hkey]
      exact stageOwes_enter (hdone result persisted hpc) rfl
    · refine ⟨hd', ?_, hkey, hstage'.enter rfl⟩
      show (net.handlings.set j _)[h]? = some hd'
      rw [Sys.getElem?_set_of_some hh, if_neg hjh, hh']
  | settle hsys hdeliver hj hresult hended =>
    rename_i j ex' ended
    by_cases hij : j = i
    · subst hij
      rw [ho.exchange] at hj
      cases hj
      obtain ⟨hkey, hrequest⟩ := settle_frame ex ended
      refine ⟨ex.settle ended, ⟨?_, ?_, ?_, ?_⟩, hkey, hrequest⟩
      · show (net.exchanges.set j _)[j]? = _
        rw [Sys.getElem?_set_of_some ho.exchange, if_pos rfl]
      · intro idx' valid hl'
        rw [arrived_congr hkey hrequest]
        exact ho.again idx' valid hl'
      · intro response hr
        obtain ⟨rfl, hstatus⟩ := ok_of_settle hresult hr
        cases hended with
        | rejected hreject => exact absurd hstatus (Nat.not_lt_of_le hreject)
        | responded hex hh hstage =>
          obtain ⟨hd, hh', -, howes⟩ := ho.current _ hresult hex
          rw [hh] at hh'
          cases hh'
          rw [hstage] at howes
          exact howes
      · intro h hr hh
        rw [handling_of_settle hr] at hh
        cases hh
    · refine ⟨ex, ho.frame hl ?_ fun h hd _ _ hh hkey hstage => ⟨hd, hh, hkey, hstage⟩, rfl, rfl⟩
      show (net.exchanges.set j _)[i]? = some ex
      rw [Sys.getElem?_set_of_some hj, if_neg hij, ho.exchange]

/-! ## Steps of the network as steps of the ledger -/

/-- Calls only, nothing is removed, and effects get unused ids. -/
def unpruned (net : Net) : Action → Bool
  | .sys action => net.sys.unpruned action
  | _ => true

/-- The ledger under a run of the network is in a run of its own. -/
theorem reach_sys {P : Net → Action → Prop} (hP : ∀ net a, P net a → net.unpruned a = true)
    (h : Reach (Net.step server) P init net) :
    Reach (Sys.step server.env) (fun s a => s.unpruned a = true) Sys.init net.sys := by
  have henter : ∀ {sys} scope handler,
      Reach (Sys.step server.env) (fun s a => s.unpruned a = true) Sys.init sys →
      Reach (Sys.step server.env) (fun s a => s.unpruned a = true) Sys.init
        (enter sys scope handler).1 := by
    intro sys scope handler hr
    rcases enter_spawn server.env sys scope handler with he | ⟨call, hs⟩
    · rw [he]
      exact hr
    · exact hr.step rfl hs
  induction h with
  | init => exact .init
  | step _ hp hs ih =>
    cases step_moves hs with
    | sys hs' => exact ih.step (hP _ _ hp) hs'
    | request | settle => exact ih
    | deliver | serve => exact henter _ _ ih

end Net

end Calod.Sdk
