import Calod.Ledger.PartitionLock

/-!
# Executors and fencing tokens

What the callers of `acquire` and `transition` see, in whatever way their calls overlap: the
answers, in the order in which the calls return (`Logged`). For every key these are the events
of a lease protocol (`Follows`).

* `custodial_step` — every step keeps the key's part of the state in the custody of the protocol
* `follows_of_reach` — **the answers of every run follow the protocol**, as long as nothing is
  pruned
-/

namespace Calod.Ledger

open Calod.Core Calod.Storage Lib

variable {response : Response} {custody : EffectKey → Custody}

/-! ## The calls that have returned -/

def Pc.isDone : Pc → Bool
  | .done _ _ => true
  | _ => false

theorem Pc.isDone_afterSave (watermark : Option WalPosition) :
    (Pc.afterSave watermark).isDone = false := by
  cases watermark <;> rfl

namespace Task

/-- What a task has shown of the leases. -/
def observe (task : Task) : Option (EffectKey × LeaseEvent) :=
  match task.request, task.pc with
  | .call scope call, .done (.ok response) persisted =>
    Calod.Ledger.observe scope call response (persisted.bind RecordKind.effect)
  | _, _ => none

/-- What it has shown of one key. -/
def eventFor (key : EffectKey) (task : Task) : Option LeaseEvent :=
  task.observe.bind fun p => if p.1 = key then some p.2 else none

end Task

/-- The task that an action has brought to its end. -/
def Sys.returned (s : Sys) (action : Sys.Action) : Option Task :=
  action.task.bind fun i => s.tasks[i]?.filter fun task => task.pc.isDone

/-- A call that has returned, and the state it returned from. -/
structure Return where
  before : Sys
  task : Task

/-- The system, with the calls that have returned so far. -/
structure Logged where
  sys : Sys
  log : List Return

namespace Logged

def init : Logged := { sys := .init, log := [] }

def step (env : Env) (l : Logged) (action : Sys.Action) : Option Logged :=
  (l.sys.step env action).map fun s =>
    { sys := s
      log := l.log ++ ((s.returned action).map fun task => { before := l.sys, task }).toList }

end Logged

/-- What a sequence of returned calls has shown of one key. -/
def eventsFor (key : EffectKey) (log : List Return) : List LeaseEvent :=
  log.filterMap fun r => r.task.eventFor key

/-! ## One step -/

variable {env : Env}

section

variable {task : Task} {key : EffectKey} {event : LeaseEvent}

theorem eventFor_of_none (h : task.observe = none) : task.eventFor key = none := by
  rw [Task.eventFor, h]
  rfl

theorem eventFor_eq_some : task.eventFor key = some event ↔ task.observe = some (key, event) := by
  unfold Task.eventFor
  cases h : task.observe with
  | none => simp
  | some p =>
    rw [Option.bind_some]
    split
    · next hk =>
      subst hk
      simp [Prod.ext_iff]
    · next hk =>
      simp only [Option.some.injEq, reduceCtorEq, false_iff]
      rintro rfl
      exact hk rfl

theorem observe_of_not_done (h : task.pc.isDone = false) : task.observe = none := by
  unfold Task.observe
  split
  · next hpc =>
    rw [hpc] at h
    cases h
  · rfl

theorem observe_of_quiet (h : task.pc.Quiet) : task.observe = none := by
  unfold Task.observe
  split
  · next hpc =>
    rw [hpc] at h
    cases h
  · rfl

/-- Only calls on effects show anything of the leases. -/
theorem observe_of_not_partitioned {scope : Scope} {call : Call} {stored : Option EffectRecord}
    (h : call.partitioned = false) : observe scope call response stored = none := by
  cases call with
  | acquire key req => cases h
  | transition id req caps => cases h
  | _ => rfl

end

namespace Sys

variable {s s' : Sys} {action : Action} {i : Nat} {task task' : Task} {key : EffectKey}
  {c : Custody} {kind : RecordKind}

/-- The custody of a key before and after a step, against the stored effect. -/
def Custodial (env : Env) (key : EffectKey) (action : Action) (s' : Sys) (c : Custody) : Prop :=
  c.Admits (tokenDigest env.crates) ((s'.returned action).bind (Task.eventFor key)).toList ∧
    Represents env.crates (s'.ledger.indexes.effectOf key)
      (c.after ((s'.returned action).bind (Task.eventFor key)).toList)

theorem returned_set (haction : action.task = some i) (hi : s.tasks[i]? = some task)
    (htasks : s'.tasks = s.tasks.set i task') :
    (s'.returned action).bind (Task.eventFor key) = task'.eventFor key := by
  rw [returned, haction, Option.bind_some, htasks, getElem?_set_of_some hi, if_pos rfl]
  by_cases hd : task'.pc.isDone = true
  · rw [Option.filter_some, if_pos hd, Option.bind_some]
  · rw [Option.filter_some, if_neg hd, Option.bind_none,
      eventFor_of_none (observe_of_not_done (Bool.eq_false_of_not_eq_true hd))]

/-- A step that shows nothing. -/
theorem custodial_of_none (haction : action.task = some i) (hi : s.tasks[i]? = some task)
    (htasks : s'.tasks = s.tasks.set i task') (hobs : task'.observe = none)
    (hidx : s'.ledger.indexes.effectOf key = s.ledger.indexes.effectOf key)
    (hc : Represents env.crates (s.ledger.indexes.effectOf key) c) :
    Custodial env key action s' c := by
  rw [Custodial, returned_set haction hi htasks, eventFor_of_none hobs, hidx]
  exact ⟨trivial, hc⟩

/-- A step that shows an event of a key; other keys do not notice. -/
theorem custodial_of_some {k : EffectKey} {event : LeaseEvent} (haction : action.task = some i)
    (hi : s.tasks[i]? = some task) (htasks : s'.tasks = s.tasks.set i task')
    (hobs : task'.observe = some (k, event))
    (hother : k ≠ key → s'.ledger.indexes.effectOf key = s.ledger.indexes.effectOf key)
    (hevent : k = key → c.Allows (tokenDigest env.crates) event ∧
      Represents env.crates (s'.ledger.indexes.effectOf key) (c.next event))
    (hc : Represents env.crates (s.ledger.indexes.effectOf key) c) :
    Custodial env key action s' c := by
  rw [Custodial, returned_set haction hi htasks]
  by_cases hk : k = key
  · subst hk
    obtain ⟨hallow, hrep⟩ := hevent rfl
    rw [eventFor_eq_some.mpr hobs]
    exact ⟨⟨hallow, trivial⟩, hrep⟩
  · have hnone : task'.eventFor key = none := by
      rw [Task.eventFor, hobs, Option.bind_some, if_neg hk]
    rw [hnone, hother hk]
    exact ⟨trivial, hc⟩

/-- A call answers from what it read. -/
theorem custodial_answer {scope : Scope} {call : Call} {draws : Draws} {locks : RunLocks}
    (hi : s.tasks[i]? = some task) (hrequest : task.request = .call scope call)
    (h : call.underLock env s.ledger.indexes scope draws = .ok (.answer response))
    (hc : Represents env.crates (s.ledger.indexes.effectOf key) c) :
    Custodial env key (.step i draws) (s.withTask i (task.finish (.ok response) none) locks) c := by
  have hobs : (task.finish (.ok response) none).observe = observe scope call response none := by
    simp only [Task.observe, Task.finish, hrequest]
    rfl
  by_cases hcall : call.partitioned = true
  · cases call with
    | acquire k req =>
      obtain ⟨plan, hplan, he⟩ := map_eq_ok.mp h
      cases plan with
      | apply change decision token => cases he
      | decide decision =>
        cases he
        rcases observe_decide hplan with hnone | ⟨hsome, hreconcile⟩
        · exact custodial_of_none rfl hi rfl (hobs.trans hnone) rfl hc
        · refine custodial_of_some rfl hi rfl (hobs.trans hsome) (fun _ => rfl) (fun hk => ?_) hc
          obtain ⟨hallow, hnext⟩ := hreconcile c (hk ▸ hc)
          exact ⟨hallow, hnext.symm ▸ hc⟩
    | transition id req caps =>
      simp only [Call.underLock] at h
      split at h
      · cases h
      · obtain ⟨_, -, he⟩ := map_eq_ok.mp h
        cases he
    | _ => cases hcall
  · exact custodial_of_none rfl hi rfl
      (hobs.trans (observe_of_not_partitioned (Bool.eq_false_of_not_eq_true hcall))) rfl hc

/-- A call stores its record and succeeds. -/
theorem custodial_commit {draws : Draws} {position : WalPosition} (hl : PartitionLock env s)
    (hk : s.ledger.indexes.Keyed) (hi : s.tasks[i]? = some task)
    (hpc : task.pc = .appended kind response position) (hretention : kind.isRetention = false)
    (htasks : s'.tasks = s.tasks.set i (task.finish (.ok response) (some kind)))
    (hidx : s'.ledger.indexes = (s.ledger.indexes.apply kind).1)
    (hc : ∀ k, Represents env.crates (s.ledger.indexes.effectOf k) (custody k)) (key : EffectKey) :
    Custodial env key (.step i draws) s' (custody key) := by
  cases he : kind.effect with
  | none =>
    obtain ⟨hbyId, hids⟩ := Indexes.effects_apply_other he hretention
    refine custodial_of_none rfl hi htasks ?_ ?_ (hc key)
    · cases hrequest : task.request with
      | snapshot => simp only [Task.observe, Task.finish, hrequest]
      | call scope call =>
        have hcall := (hl.located i task hi).record scope call kind hrequest (by rw [hpc]; rfl) he
        simp only [Task.observe, Task.finish, hrequest]
        exact observe_of_not_partitioned hcall
    · rw [hidx, Indexes.effectOf, hids, hbyId]
      rfl
  | some effect =>
    obtain ⟨scope, call, hrequest, hstores, hof⟩ := hl.stores hk hi hpc he hidx
    have hobs : (task.finish (.ok response) (some kind)).observe
        = observe scope call response (some effect) := by
      simp only [Task.observe, Task.finish, hrequest, Option.bind_some, he]
    obtain ⟨leaseEvent, hsome, hallow, hrep⟩ := hstores.step (hc (effectKeyOf effect))
    refine custodial_of_some rfl hi htasks (hobs.trans hsome) (fun hne => ?_) (fun heq => ?_)
      (hc key)
    · rw [hof, if_neg hne]
    · subst heq
      rw [hof, if_pos rfl]
      exact ⟨hallow, hrep⟩

/-- The call of a record that applies succeeds. -/
theorem commit_ok (h : (s.ledger.indexes.apply kind).2 = .ok ()) (task : Task)
    (response : Response) (position : WalPosition) :
    (s.commit task kind response position).2 = task.finish (.ok response) (some kind) := by
  have happly : s.ledger.indexes.apply kind = ((s.ledger.indexes.apply kind).1, .ok ()) :=
    Prod.ext rfl h
  unfold Sys.commit
  rw [happly]

/-- **Every step shows, of every key, at most an event that its custody allows**, and the stored
effect follows. -/
theorem custodial_step (hl : PartitionLock env s)
    (hf : InFlight (fun idx => idx.Keyed ∧ idx.HeadsValid) Indexes.Fits s)
    (hcond : s.unpruned action = true) (h : s.step env action = some s')
    (hc : ∀ k, Represents env.crates (s.ledger.indexes.effectOf k) (custody k)) (key : EffectKey) :
    Custodial env key action s' (custody key) := by
  have hwaiting : ∀ {i} {task task'} {locks} {draws},
      s.tasks[i]? = some task → task'.pc.isDone = false →
      Custodial env key (.step i draws) (s.withTask i task' locks) (custody key) :=
    fun hi hpc => custodial_of_none rfl hi rfl (observe_of_not_done hpc) rfl (hc key)
  have hcalls := unpruned_callsOnly hcond
  cases step_moves h with
  | spawn request => exact ⟨trivial, hc key⟩
  | quiet haction locks hi hrequest hpc =>
    exact custodial_of_none haction hi rfl (observe_of_quiet hpc) rfl (hc key)
  | answer hi hrequest hu => exact custodial_answer hi hrequest hu (hc key)
  | persist hi _ _ hpc | persistRunless hi _ _ hpc | waitEffectRun _ hi _ _ hpc
  | persistEffect hi _ _ _ hpc => exact hwaiting hi (by rw [hpc]; rfl)
  | append hi | saveState hi | list hi | remove hi =>
    exact custodial_of_none rfl hi rfl (observe_of_not_done rfl) rfl (hc key)
  | commit hi hpc =>
    rename_i i task draws kind response position
    have hfits := hf.2 i kind (pendingAt_of_pc hi (by rw [hpc]; rfl))
    refine custodial_commit hl hf.1.1 hi hpc
      (unpruned_commits hcond (commits_of_appended draws hi hpc)) ?_ ?_ hc key
    · exact congrArg (s.tasks.set i) (commit_ok hfits.apply_ok ..)
    · exact indexes_commit ..
  | saveManifest hi =>
    refine custodial_of_none rfl hi rfl (observe_of_not_done ?_) rfl (hc key)
    exact Pc.isDone_afterSave _
  | reopen ho => cases hcalls

theorem unpruned_reach (h : Reach (Sys.step env) (fun s a => s.unpruned a = true) init s) :
    Reach (Sys.step env) (fun s a => (s.callsOnly a && s.noStaleRetention a) = true) init s :=
  h.mono fun _ _ hc =>
    Bool.and_eq_true_iff.mpr ⟨unpruned_callsOnly hc, unpruned_noStaleRetention hc⟩

theorem PartitionLock.of_reach (h : Reach (Sys.step env) (fun s a => s.unpruned a = true) init s) :
    PartitionLock env s := by
  refine h.invariant_of_reach partitionLock_init ?_
  intro s action s' hreach hl hc hstep
  exact hl.step (fits_of_reach (unpruned_reach hreach)).1.1 (unpruned_keeps hc) hstep

end Sys

/-! ## Every run follows the protocol -/

namespace Logged

variable {l : Logged}

theorem reach_sys {P : Sys → Sys.Action → Prop}
    (h : Reach (Logged.step env) (fun l a => P l.sys a) init l) :
    Reach (Sys.step env) P .init l.sys := by
  induction h with
  | init => exact .init
  | step _ hp hs ih =>
    obtain ⟨s', hs', rfl⟩ := Option.map_eq_some_iff.mp hs
    exact ih.step hp hs'

/-- What was shown of every key is a run of the protocol, and every stored effect represents the
custody it leads to: now, and whenever a call returned. -/
structure Follows (env : Env) (l : Logged) : Prop where
  admits : ∀ key, Custody.Admits (tokenDigest env.crates) none (eventsFor key l.log)
  stored : ∀ key, Represents env.crates (l.sys.ledger.indexes.effectOf key)
    (Custody.after none (eventsFor key l.log))
  found : ∀ before r since, l.log = before ++ r :: since → ∀ key,
    Represents env.crates (r.before.ledger.indexes.effectOf key)
      (Custody.after none (eventsFor key before))

theorem follows_init : Follows env init where
  admits key := trivial
  stored key := trivial
  found before r since h := by cases before <;> cases h

theorem eventsFor_append (key : EffectKey) (a b : List Return) :
    eventsFor key (a ++ b) = eventsFor key a ++ eventsFor key b :=
  List.filterMap_append

theorem eventsFor_returned (key : EffectKey) (s : Sys) (task : Option Task) :
    eventsFor key ((task.map fun task => { before := s, task }).toList)
      = (task.bind (Task.eventFor key)).toList := by
  cases task with
  | none => rfl
  | some task =>
    rw [Option.bind_some]
    cases h : task.eventFor key <;> simp [eventsFor, h]

/-- **Every run follows the lease protocol.** -/
theorem follows_of_reach (h : Reach (Logged.step env) (fun l a => l.sys.unpruned a = true) init l) :
    Follows env l := by
  refine h.invariant_of_reach follows_init ?_
  intro l action l' hreach hi hc hstep
  obtain ⟨s', hs', rfl⟩ := Option.map_eq_some_iff.mp hstep
  have hsys := reach_sys (P := fun s a => s.unpruned a = true) hreach
  have hcustody := Sys.custodial_step (.of_reach hsys)
    (Sys.fits_of_reach (Sys.unpruned_reach hsys)) hc hs' hi.stored
  refine ⟨fun key => ?_, fun key => ?_, fun before r since hsplit key => ?_⟩
  · rw [eventsFor_append, eventsFor_returned, Custody.admits_append]
    exact ⟨hi.admits key, (hcustody key).1⟩
  · rw [eventsFor_append, eventsFor_returned, Custody.after_append]
    exact (hcustody key).2
  · -- the last call found what was stored before the step
    cases ht : s'.returned action with
    | none =>
      rw [ht] at hsplit
      exact hi.found before r since (by simpa using hsplit) key
    | some task =>
      rw [ht] at hsplit
      rcases List.eq_nil_or_concat since with rfl | ⟨since', last, rfl⟩
      · obtain ⟨rfl, hr⟩ := List.append_inj' hsplit rfl
        cases hr
        exact hi.stored key
      · rw [List.concat_eq_append, ← List.cons_append, ← List.append_assoc] at hsplit
        exact hi.found before r since' (List.append_inj' hsplit rfl).1 key

end Logged

end Calod.Ledger
