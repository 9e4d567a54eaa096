import Calod.Lib.Transition
import Calod.Ledger.Recovery

/-!
# Calls that overlap

The ledger under any number of calls at once. A task is one call in progress; it advances from
one lock acquisition or `await` of the source to the next, and between two steps every other
task may run. Who holds a lock is read off the tasks.

* The partition lock is held from the decision to the end of the call.
* `append_event`, `update_run`, `create_checkpoint` and `fork_run` hold their run's lock to the
  end of the call. `build_effect_event` gives it back when it returns, before `persist` asks for
  the commit lock.
* `apply_retention` takes the commit lock only.
* `snapshot` holds the commit lock while it saves, and truncates the WAL afterwards.

A run's lock is found through a table that retention removes entries from, so locks have an
identity of their own (`RunLocks`).

`step_moves` is the inversion lemma: all that one step can do. Every invariant is proved from it.
-/

namespace Calod.Ledger

open Calod.Core Calod.Storage Lib

variable {i : Nat} {kind : RecordKind}

/-! ## Run locks -/

/-- `run_locks`: which mutex a run id stands for. -/
structure RunLocks where
  ids : Uuid → Option Nat
  next : Nat

namespace RunLocks

def empty : RunLocks := { ids := fun _ => none, next := 0 }

/-- `entry(run_id).or_insert_with(..)`. -/
def get (locks : RunLocks) (runId : Uuid) : Nat × RunLocks :=
  match locks.ids runId with
  | some lock => (lock, locks)
  | none =>
    (locks.next,
      { ids := Function.update locks.ids runId (some locks.next), next := locks.next + 1 })

/-- What `Indexes::apply` does to the table. -/
def apply (locks : RunLocks) : RecordKind → RunLocks
  | .runCreated run | .runUpdated run => (locks.get run.id).2
  | .retentionApplied _ runIds _ =>
    { locks with ids := fun r => if r ∈ runIds then none else locks.ids r }
  | .effectApplied _ _ | .eventAppended _ | .checkpointCreated _ => locks

end RunLocks

/-! ## Tasks -/

inductive Request where
  | call (scope : Scope) (call : Call)
  | snapshot

/-- Where a task stands. Every state but the last two is a point where it can be overtaken. -/
inductive Pc where
  | start
  | waitPartition (index : Nat)
  | waitRun (lock : Nat)
  /-- In `build_effect_event`, waiting for the run lock. -/
  | waitEffectRun (lock : Nat) (change : EffectChange) (now : Int) (response : Response)
  /-- In `persist`, waiting for the commit lock. -/
  | waitCommit (kind : RecordKind) (response : Response)
  /-- The record is in the WAL file; the commit lock is held. -/
  | appended (kind : RecordKind) (response : Response) (position : WalPosition)
  | waitSnapshot
  /-- The state file is written, the manifest is not; the commit lock is held. -/
  | saving (watermark : Option WalPosition) (state : PersistedState) (now : Int)
  /-- About to call `truncate_before`; the commit lock has been given back. -/
  | truncating (watermark : WalPosition)
  | removing (ids : List Nat)
  /-- The snapshot has returned. -/
  | saved
  /-- The call has returned; `persisted` is the record it made durable. -/
  | done (result : Except LedgerError Response) (persisted : Option RecordKind)

namespace Pc

/-- The record a task has built and not yet applied. -/
def pending : Pc → Option RecordKind
  | .waitCommit kind _ | .appended kind _ _ => some kind
  | _ => none

def holdsCommit : Pc → Bool
  | .appended _ _ _ | .saving _ _ _ => true
  | _ => false

def isAppended : Pc → Bool
  | .appended _ _ _ => true
  | _ => false

/-- After the manifest is written: truncate, unless there was nothing to cover. -/
def afterSave : Option WalPosition → Pc
  | some watermark => .truncating watermark
  | none => .saved

/-- No record, no commit lock, no files to delete, and no success to report. -/
def Quiet : Pc → Prop
  | .start | .waitPartition _ | .waitRun _ | .waitSnapshot | .saved | .done (.error _) none => True
  | _ => False

theorem Quiet.pending {pc : Pc} (h : pc.Quiet) : pc.pending = none := by
  cases pc with
  | waitCommit | appended => cases h
  | _ => rfl

end Pc

structure Task where
  request : Request
  pc : Pc
  /-- The partition lock held. -/
  partition : Option Nat
  /-- The run lock held. -/
  runLock : Option Nat

namespace Task

def new (request : Request) : Task :=
  { request, pc := .start, partition := none, runLock := none }

/-- Return from the call: all guards are dropped. -/
def finish (task : Task) (result : Except LedgerError Response) (persisted : Option RecordKind) :
    Task :=
  { task with pc := .done result persisted, partition := none, runLock := none }

end Task

/-! ## The system -/

structure Sys where
  ledger : Ledger
  disk : SnapshotDir
  locks : RunLocks
  tasks : List Task
  /-- The records whose append was acknowledged, in order. -/
  acked : List (WalRecord RecordKind)

/-- A freshly created ledger: what `open` returns for empty directories. -/
def fresh : Ledger where
  indexes := .empty
  wal := { closed := [], active := { id := 1, payloads := [] }, sorted := by simp }
  lastWalPosition := none

namespace Sys

def init : Sys where
  ledger := fresh
  disk := .empty
  locks := .empty
  tasks := []
  acked := []

def partitionFree (s : Sys) (index : Nat) : Bool :=
  s.tasks.all fun task => task.partition ≠ some index

def runLockFree (s : Sys) (lock : Nat) : Bool :=
  s.tasks.all fun task => task.runLock ≠ some lock

def commitFree (s : Sys) : Bool := s.tasks.all fun task => !task.pc.holdsCommit

/-- The step in which a call decides, once it has its first lock. -/
def decide (env : Env) (s : Sys) (task : Task) (scope : Scope) (call : Call) (draws : Draws) :
    Sys × Task :=
  match call.underLock env s.ledger.indexes scope draws with
  | .error error => (s, task.finish (.error error) none)
  | .ok (.answer response) => (s, task.finish (.ok response) none)
  | .ok (.persist kind response) => (s, { task with pc := .waitCommit kind response })
  | .ok (.effect change response) =>
    match change.effect.runId with
    | none => (s, { task with pc := .waitCommit (.effectApplied change.effect none) response })
    | some runId =>
      let (lock, locks) := s.locks.get runId
      ({ s with locks }, { task with pc := .waitEffectRun lock change draws.now response })

/-- The record goes to the WAL file; the writer acknowledges it in the next step. -/
def append (env : Env) (s : Sys) (task : Task) (kind : RecordKind) (response : Response) :
    Sys × Task :=
  let (position, wal) := s.ledger.wal.handleAppend env.encodedLen env.config.maxSegmentSize kind
  ({ s with ledger := { s.ledger with wal } },
    { task with pc := .appended kind response position })

/-- The append was acknowledged: apply the record, move the watermark, return. -/
def commit (s : Sys) (task : Task) (kind : RecordKind) (response : Response)
    (position : WalPosition) : Sys × Task :=
  let acked := s.acked ++ [{ position, payload := kind }]
  match s.ledger.indexes.apply kind with
  | (indexes, .ok ()) =>
    ({ s with
        ledger := { s.ledger with indexes, lastWalPosition := some position }
        locks := s.locks.apply kind, acked },
      task.finish (.ok response) (some kind))
  | (indexes, .error error) =>
    ({ s with ledger := { s.ledger with indexes }, locks := s.locks.apply kind, acked },
      task.finish (.error (.persistence error)) (some kind))

/-- The next step of a task; `none` if it has to wait or has returned. -/
def advance (env : Env) (s : Sys) (task : Task) (draws : Draws) : Option (Sys × Task) :=
  match task.request, task.pc with
  | .call scope call, .start =>
    match call.check env s.ledger.indexes scope with
    | .error error => some (s, task.finish (.error error) none)
    | .ok .none => some (s.decide env task scope call draws)
    | .ok (.partition index) => some (s, { task with pc := .waitPartition index })
    | .ok (.run runId) =>
      let (lock, locks) := s.locks.get runId
      some ({ s with locks }, { task with pc := .waitRun lock })
  | .call scope call, .waitPartition index =>
    if s.partitionFree index then
      some (s.decide env { task with partition := some index } scope call draws)
    else none
  | .call scope call, .waitRun lock =>
    if s.runLockFree lock then
      some (s.decide env { task with runLock := some lock } scope call draws)
    else none
  | .call scope _, .waitEffectRun lock change now response =>
    if s.runLockFree lock then
      match buildEffectEvent env.crates s.ledger.indexes scope change now draws.eventId with
      | .error error => some (s, task.finish (.error error) none)
      | .ok event =>
        -- the run lock is free again: `build_effect_event` has returned
        some (s, { task with pc := .waitCommit (.effectApplied change.effect event) response })
    else none
  | .call _ _, .waitCommit kind response =>
    if s.commitFree then
      if maxPayload < env.encodedLen kind then
        some (s, task.finish
          (.error (.persistence (.walWriteFailed "payload exceeds the 4 GiB record limit"))) none)
      else some (s.append env task kind response)
    else none
  | .call _ _, .appended kind response position => some (s.commit task kind response position)
  | .snapshot, .start => some (s, { task with pc := .waitSnapshot })
  | .snapshot, .waitSnapshot =>
    if s.commitFree then
      let state := s.ledger.indexes.collectState
      some ({ s with disk := s.disk.writeState state },
        { task with pc := .saving s.ledger.lastWalPosition state draws.now })
    else none
  | .snapshot, .saving watermark state now =>
    some ({ s with disk := s.disk.writeManifest (manifestFor env state watermark now) },
      { task with pc := .afterSave watermark })
  | .snapshot, .truncating watermark =>
    some (s, { task with
      pc := .removing (s.ledger.wal.truncateTargets (watermark.segmentId + 1)) })
  | .snapshot, .removing [] => some (s, { task with pc := .saved })
  | .snapshot, .removing (id :: ids) =>
    some ({ s with ledger := { s.ledger with wal := s.ledger.wal.removeSegment id } },
      { task with pc := .removing ids })
  | _, _ => none

inductive Action where
  /-- A new call arrives. -/
  | spawn (request : Request)
  | step (task : Nat) (draws : Draws)
  /-- The WAL append of a task fails: nothing is written, the call returns the error. -/
  | walFail (task : Nat) (error : PersistenceError)
  /-- Crash and `open`. A record that was not acknowledged may or may not have survived. -/
  | reopen (keepUnacked : Bool)

/-- The task that an action moves. -/
def Action.task : Action → Option Nat
  | .step i _ | .walFail i _ => some i
  | .spawn _ | .reopen _ => none

/-- The log without the record that a task has appended and that is not yet acknowledged. -/
def settled (s : Sys) : Wal RecordKind :=
  if s.tasks.all fun task => !task.pc.isAppended then s.ledger.wal else s.ledger.wal.dropLast

/-- The WAL directory after a crash. -/
def crashDir (s : Sys) (keepUnacked : Bool) : WalDir RecordKind :=
  if keepUnacked then s.ledger.wal.dir else s.settled.dir

def step (env : Env) (s : Sys) : Action → Option Sys
  | .spawn request => some { s with tasks := s.tasks ++ [Task.new request] }
  | .step i draws =>
    match s.tasks[i]? with
    | none => none
    | some task =>
      (s.advance env task draws).map fun p => { p.1 with tasks := s.tasks.set i p.2 }
  | .walFail i error =>
    match s.tasks[i]? with
    | none => none
    | some task =>
      match task.pc with
      | .waitCommit _ _ =>
        if s.commitFree then
          some { s with tasks := s.tasks.set i (task.finish (.error (.persistence error)) none) }
        else none
      | _ => none
  | .reopen keepUnacked =>
    match Ledger.open env s.disk (s.crashDir keepUnacked) with
    | .error _ => none
    | .ok ledger => some { ledger, disk := s.disk, locks := .empty, tasks := [], acked := s.acked }

/-! ## What a step can do -/

/-- Task `i` moves on; nothing but the table of run locks changes with it. -/
def withTask (s : Sys) (i : Nat) (task : Task) (locks : RunLocks) : Sys :=
  { s with locks, tasks := s.tasks.set i task }

/-- A task that waits for its first lock has found out which one it needs. -/
def Waits (env : Env) (s : Sys) (task : Task) : Prop :=
  match task.request, task.pc with
  | .call scope call, .waitPartition index =>
    call.check env s.ledger.indexes scope = .ok (.partition index)
  | .call scope call, .waitRun _ =>
    ∃ runId, call.check env s.ledger.indexes scope = .ok (.run runId)
  | _, _ => True

/-- How a task comes to decide, and the partition lock it then holds. -/
inductive Decides (env : Env) (s : Sys) (task : Task) (scope : Scope) (call : Call) :
    Option Nat → Prop where
  | unlocked (hpc : task.pc = .start) (h : call.check env s.ledger.indexes scope = .ok .none) :
      Decides env s task scope call task.partition
  | partition {index : Nat} (hpc : task.pc = .waitPartition index)
      (hfree : s.partitionFree index = true) : Decides env s task scope call (some index)
  | run {lock : Nat} (hpc : task.pc = .waitRun lock) : Decides env s task scope call task.partition

/--
All that one step can do. `Moves env s action s'` has one constructor for each kind of step, with
the guard and the decision it rests on.
-/
inductive Moves (env : Env) (s : Sys) : Action → Sys → Prop where
  | spawn (request : Request) :
      Moves env s (.spawn request) { s with tasks := s.tasks ++ [Task.new request] }
  /-- The task goes on waiting, or returns an error without having persisted anything. -/
  | quiet {i : Nat} {task task' : Task} {action : Action} (haction : action.task = some i)
      (locks : RunLocks) (hi : s.tasks[i]? = some task) (hrequest : task'.request = task.request)
      (hpc : task'.pc.Quiet) (hbefore : task.pc.holdsCommit = false)
      (hpartition : task'.partition = none ∨ task'.partition = task.partition)
      (hwaits : s.Waits env task') :
      Moves env s action (s.withTask i task' locks)
  /-- A call answers from what it read. -/
  | answer {i : Nat} {task : Task} {scope : Scope} {call : Call} {draws : Draws}
      {response : Response} (hi : s.tasks[i]? = some task)
      (hrequest : task.request = .call scope call)
      (h : call.underLock env s.ledger.indexes scope draws = .ok (.answer response))
      (hbefore : task.pc.holdsCommit = false) :
      Moves env s (.step i draws) (s.withTask i (task.finish (.ok response) none) s.locks)
  /-- A call has decided on a record. -/
  | persist {i : Nat} {task task' : Task} {scope : Scope} {call : Call} {draws : Draws}
      {kind : RecordKind} {response : Response} (hi : s.tasks[i]? = some task)
      (hrequest : task.request = .call scope call) (hrequest' : task'.request = task.request)
      (hpc : task'.pc = .waitCommit kind response)
      (h : call.underLock env s.ledger.indexes scope draws = .ok (.persist kind response))
      (hbefore : task.pc.holdsCommit = false)
      (hdecides : s.Decides env task scope call task'.partition) :
      Moves env s (.step i draws) (s.withTask i task' s.locks)
  /-- A call has decided on an effect without a run. -/
  | persistRunless {i : Nat} {task task' : Task} {scope : Scope} {call : Call} {draws : Draws}
      {change : EffectChange} {response : Response} (hi : s.tasks[i]? = some task)
      (hrequest : task.request = .call scope call) (hrequest' : task'.request = task.request)
      (hpc : task'.pc = .waitCommit (.effectApplied change.effect none) response)
      (hrun : change.effect.runId = none)
      (h : call.underLock env s.ledger.indexes scope draws = .ok (.effect change response))
      (hbefore : task.pc.holdsCommit = false)
      (hdecides : s.Decides env task scope call task'.partition) :
      Moves env s (.step i draws) (s.withTask i task' s.locks)
  /-- A call has decided on an effect and waits for the lock of its run. -/
  | waitEffectRun {i : Nat} {task task' : Task} {scope : Scope} {call : Call} {draws : Draws}
      {lock : Nat} {change : EffectChange} {response : Response} (locks : RunLocks)
      (hi : s.tasks[i]? = some task) (hrequest : task.request = .call scope call)
      (hrequest' : task'.request = task.request)
      (hpc : task'.pc = .waitEffectRun lock change draws.now response)
      (h : call.underLock env s.ledger.indexes scope draws = .ok (.effect change response))
      (hbefore : task.pc.holdsCommit = false)
      (hdecides : s.Decides env task scope call task'.partition) :
      Moves env s (.step i draws) (s.withTask i task' locks)
  /-- The timeline event of an effect is built; the run lock is given back. -/
  | persistEffect {i : Nat} {task task' : Task} {scope : Scope} {call : Call} {draws : Draws}
      {lock : Nat} {change : EffectChange} {now : Int} {response : Response}
      {event : Option EventRecord} (hi : s.tasks[i]? = some task)
      (hrequest : task.request = .call scope call) (hrequest' : task'.request = task.request)
      (hold : task.pc = .waitEffectRun lock change now response)
      (hpc : task'.pc = .waitCommit (.effectApplied change.effect event) response)
      (h : buildEffectEvent env.crates s.ledger.indexes scope change now draws.eventId
        = .ok event) (hpartition : task'.partition = task.partition) :
      Moves env s (.step i draws) (s.withTask i task' s.locks)
  | append {i : Nat} {task : Task} {draws : Draws} {kind : RecordKind} {response : Response}
      (hi : s.tasks[i]? = some task) (hpc : task.pc = .waitCommit kind response)
      (hfree : s.commitFree = true) (hlen : env.encodedLen kind ≤ maxPayload) :
      Moves env s (.step i draws) { (s.append env task kind response).1 with
        tasks := s.tasks.set i (s.append env task kind response).2 }
  | commit {i : Nat} {task : Task} {draws : Draws} {kind : RecordKind} {response : Response}
      {position : WalPosition} (hi : s.tasks[i]? = some task)
      (hpc : task.pc = .appended kind response position) :
      Moves env s (.step i draws) { (s.commit task kind response position).1 with
        tasks := s.tasks.set i (s.commit task kind response position).2 }
  | saveState {i : Nat} {task : Task} {draws : Draws} (hi : s.tasks[i]? = some task)
      (hrequest : task.request = .snapshot) (hpc : task.pc = .waitSnapshot)
      (hfree : s.commitFree = true) :
      Moves env s (.step i draws) { s with
        disk := s.disk.writeState s.ledger.indexes.collectState
        tasks := s.tasks.set i { task with
          pc := .saving s.ledger.lastWalPosition s.ledger.indexes.collectState draws.now } }
  | saveManifest {i : Nat} {task : Task} {draws : Draws} {watermark : Option WalPosition}
      {state : PersistedState} {now : Int} (hi : s.tasks[i]? = some task)
      (hrequest : task.request = .snapshot) (hpc : task.pc = .saving watermark state now) :
      Moves env s (.step i draws) { s with
        disk := s.disk.writeManifest (manifestFor env state watermark now)
        tasks := s.tasks.set i { task with pc := .afterSave watermark } }
  | list {i : Nat} {task : Task} {draws : Draws} {watermark : WalPosition}
      (hi : s.tasks[i]? = some task) (hrequest : task.request = .snapshot)
      (hpc : task.pc = .truncating watermark) :
      Moves env s (.step i draws) { s with tasks := s.tasks.set i { task with
        pc := .removing (s.ledger.wal.truncateTargets (watermark.segmentId + 1)) } }
  | remove {i : Nat} {task : Task} {draws : Draws} {id : Nat} {ids : List Nat}
      (hi : s.tasks[i]? = some task) (hrequest : task.request = .snapshot)
      (hpc : task.pc = .removing (id :: ids)) :
      Moves env s (.step i draws) { s with
        ledger := { s.ledger with wal := s.ledger.wal.removeSegment id }
        tasks := s.tasks.set i { task with pc := .removing ids } }
  | reopen {keepUnacked : Bool} {ledger : Ledger}
      (h : Ledger.open env s.disk (s.crashDir keepUnacked) = .ok ledger) :
      Moves env s (.reopen keepUnacked)
        { ledger, disk := s.disk, locks := .empty, tasks := [], acked := s.acked }

variable {env : Env} {s s' : Sys}

theorem waits_finish (task : Task) (result : Except LedgerError Response)
    (persisted : Option RecordKind) : s.Waits env (task.finish result persisted) := by
  unfold Waits
  split
  · next hpc => cases hpc
  · next hpc => cases hpc
  · trivial

theorem decide_moves {task task₀ : Task} {scope : Scope} {call : Call} {draws : Draws}
    (hi : s.tasks[i]? = some task₀) (h₀ : task.request = task₀.request)
    (hfin : ∀ result persisted, task.finish result persisted = task₀.finish result persisted)
    (hreq : task₀.request = .call scope call) (hbefore : task₀.pc.holdsCommit = false)
    (hdecides : s.Decides env task₀ scope call task.partition) :
    Moves env s (.step i draws) { (s.decide env task scope call draws).1 with
      tasks := s.tasks.set i (s.decide env task scope call draws).2 } := by
  unfold decide
  cases hu : call.underLock env s.ledger.indexes scope draws with
  | error error => exact .quiet rfl s.locks hi h₀ trivial hbefore (Or.inl rfl) (waits_finish ..)
  | ok next =>
    cases next with
    | answer response =>
      simp only [hfin]
      exact .answer hi hreq hu hbefore
    | persist kind response => exact .persist hi hreq h₀ rfl hu hbefore hdecides
    | effect change response =>
      simp only []
      cases hr : change.effect.runId with
      | none => exact .persistRunless hi hreq h₀ rfl hr hu hbefore hdecides
      | some runId => exact .waitEffectRun _ hi hreq h₀ rfl hu hbefore hdecides

theorem advance_moves {task : Task} {draws : Draws} {p : Sys × Task} (hi : s.tasks[i]? = some task)
    (h : s.advance env task draws = some p) :
    Moves env s (.step i draws) { p.1 with tasks := s.tasks.set i p.2 } := by
  unfold advance at h
  split at h
  · next scope call hreq hpc =>
    have hbefore : task.pc.holdsCommit = false := by rw [hpc]; rfl
    split at h
    · cases h
      exact .quiet rfl s.locks hi rfl trivial hbefore (Or.inl rfl) (waits_finish ..)
    · next hcheck =>
      cases h
      exact decide_moves hi rfl (fun _ _ => rfl) hreq hbefore (.unlocked hpc hcheck)
    · next index hcheck =>
      cases h
      refine .quiet rfl s.locks hi rfl trivial hbefore (Or.inr rfl) ?_
      simpa only [Waits, hreq] using hcheck
    · next runId hcheck =>
      cases h
      refine .quiet rfl _ hi rfl trivial hbefore (Or.inr rfl) ?_
      simp only [Waits, hreq]
      exact ⟨runId, hcheck⟩
  · next scope call index hreq hpc =>
    split at h
    · next hfree =>
      cases h
      exact decide_moves hi rfl (fun _ _ => rfl) hreq (by rw [hpc]; rfl) (.partition hpc hfree)
    · cases h
  · next scope call lock hreq hpc =>
    split at h
    · cases h
      exact decide_moves hi rfl (fun _ _ => rfl) hreq (by rw [hpc]; rfl) (.run hpc)
    · cases h
  · next scope call lock change now response hreq hpc =>
    split at h
    · split at h
      · cases h
        exact .quiet rfl s.locks hi rfl trivial (by rw [hpc]; rfl) (Or.inl rfl) (waits_finish ..)
      · next event hevent =>
        cases h
        exact .persistEffect hi hreq rfl hpc rfl hevent rfl
    · cases h
  · next scope call kind response hreq hpc =>
    split at h
    · next hfree =>
      split at h
      · cases h
        exact .quiet rfl s.locks hi rfl trivial (by rw [hpc]; rfl) (Or.inl rfl) (waits_finish ..)
      · next hlen =>
        cases h
        exact .append hi hpc hfree (Nat.le_of_not_lt hlen)
    · cases h
  · next scope call kind response position hreq hpc =>
    cases h
    exact .commit hi hpc
  · next hreq hpc =>
    cases h
    exact .quiet rfl s.locks hi rfl trivial (by rw [hpc]; rfl) (Or.inr rfl) (by simp [Waits, hreq])
  · next hreq hpc =>
    split at h
    · next hfree =>
      cases h
      exact .saveState hi hreq hpc hfree
    · cases h
  · next watermark state now hreq hpc =>
    cases h
    exact .saveManifest hi hreq hpc
  · next watermark hreq hpc =>
    cases h
    exact .list hi hreq hpc
  · next hreq hpc =>
    cases h
    exact .quiet rfl s.locks hi rfl trivial (by rw [hpc]; rfl) (Or.inr rfl) (by simp [Waits, hreq])
  · next id ids hreq hpc =>
    cases h
    exact .remove hi hreq hpc
  · cases h

/-- **Every step of the system is one of the moves.** -/
theorem step_moves {action : Action} (h : s.step env action = some s') :
    Moves env s action s' := by
  cases action with
  | spawn request =>
    cases h
    exact .spawn request
  | walFail i error =>
    simp only [step] at h
    split at h
    · cases h
    · next task hi =>
      split at h
      · next hpc =>
        split at h
        · cases h
          exact .quiet rfl s.locks hi rfl trivial (by rw [hpc]; rfl) (Or.inl rfl) (waits_finish ..)
        · cases h
      · cases h
  | reopen keep =>
    simp only [step] at h
    split at h
    · cases h
    · next ledger ho =>
      cases h
      exact .reopen ho
  | step i draws =>
    simp only [step] at h
    split at h
    · cases h
    · next task hi =>
      obtain ⟨p, hp, rfl⟩ := Option.map_eq_some_iff.mp h
      exact advance_moves hi hp

/-! ## Views of a step -/

/-- The record that task `i` has built and not yet applied. -/
def pendingAt (s : Sys) (i : Nat) : Option RecordKind :=
  s.tasks[i]?.bind fun task => task.pc.pending

theorem pendingAt_of_pc {task : Task} (hi : s.tasks[i]? = some task)
    (h : task.pc.pending = some kind) : s.pendingAt i = some kind := by
  rw [pendingAt, hi]
  exact h

/-- The record that an action applies to the indexes, with the task that applies it. -/
def commits (s : Sys) : Action → Option (Nat × RecordKind)
  | .step i _ =>
    match s.tasks[i]?.map Task.pc with
    | some (.appended kind _ _) => some (i, kind)
    | _ => none
  | _ => none

theorem commits_of_appended {task : Task} {response : Response} {position : WalPosition}
    (draws : Draws) (hi : s.tasks[i]? = some task)
    (hpc : task.pc = .appended kind response position) :
    s.commits (.step i draws) = some (i, kind) := by
  simp only [commits, hi, Option.map_some, hpc]

theorem getElem?_set_of_some {α : Type} {l : List α} {i : Nat} {a : α} (hi : l[i]? = some a)
    (b : α) (j : Nat) : (l.set i b)[j]? = if i = j then some b else l[j]? := by
  rw [List.getElem?_set]
  have hlt : i < l.length := (List.getElem?_eq_some_iff.mp hi).1
  rw [if_pos hlt]

theorem getElem?_append_singleton {α : Type} {l : List α} {a b : α} (h : (l ++ [a])[i]? = some b) :
    l[i]? = some b ∨ b = a := by
  rw [List.getElem?_append] at h
  split at h
  · exact Or.inl h
  · exact Or.inr (List.mem_singleton.mp (List.mem_of_getElem? h))

theorem pendingAt_of_set {task task' : Task} {t : List Task} {s' : Sys} (hi : t[i]? = some task)
    (hs' : s'.tasks = t.set i task') (j : Nat) :
    s'.pendingAt j = if i = j then task'.pc.pending else t[j]?.bind fun x => x.pc.pending := by
  rw [pendingAt, hs', getElem?_set_of_some hi]
  split <;> rfl

/--
A step as the indexes see it: they stay and a record may be built from them, or a pending
record is applied, or the ledger is reopened.
-/
inductive IndexMove (env : Env) (s : Sys) (action : Action) (s' : Sys) : Prop where
  | same (hindexes : s'.ledger.indexes = s.ledger.indexes)
      (hpending : ∀ j kind, s'.pendingAt j = some kind →
        s.pendingAt j = some kind ∨ ∃ scope, Built env s.ledger.indexes scope kind)
  | commit {i : Nat} {kind : RecordKind} (hcommits : s.commits action = some (i, kind))
      (hi : s.pendingAt i = some kind)
      (hindexes : s'.ledger.indexes = (s.ledger.indexes.apply kind).1)
      (hpending : ∀ j kind', s'.pendingAt j = some kind' → j ≠ i ∧ s.pendingAt j = some kind')
  | reopen {keepUnacked : Bool} (haction : action = .reopen keepUnacked)
      (hopen : Ledger.open env s.disk (s.crashDir keepUnacked) = .ok s'.ledger)
      (hpending : ∀ j, s'.pendingAt j = none)

theorem Moves.indexMove {action : Action} (h : Moves env s action s') :
    IndexMove env s action s' := by
  -- a step that only moves task `i`, whose new record (if any) comes from `hnew`
  have hset : ∀ {i : Nat} {task task' : Task}, s.tasks[i]? = some task →
      s'.tasks = s.tasks.set i task' → s'.ledger.indexes = s.ledger.indexes →
      (∀ kind, task'.pc.pending = some kind →
        task.pc.pending = some kind ∨ ∃ scope, Built env s.ledger.indexes scope kind) →
      IndexMove env s action s' := by
    intro i task task' hi htasks hindexes hnew
    refine .same hindexes fun j kind hj => ?_
    rw [pendingAt_of_set hi htasks] at hj
    split at hj
    · next hij =>
      subst hij
      rw [pendingAt, hi]
      exact hnew kind hj
    · exact Or.inl hj
  cases h with
  | spawn request =>
    refine .same rfl fun j kind hj => Or.inl ?_
    simp only [pendingAt] at hj ⊢
    rw [List.getElem?_append] at hj
    split at hj
    · exact hj
    · cases hn : [Task.new request][j - s.tasks.length]? with
      | none => rw [hn] at hj; cases hj
      | some t =>
        rw [hn] at hj
        rw [List.mem_singleton.mp (List.mem_of_getElem? hn)] at hj
        cases hj
  | quiet _ locks hi hrequest hpc =>
    refine hset hi rfl rfl fun kind hk => ?_
    rw [hpc.pending] at hk
    cases hk
  | answer hi | saveState hi | list hi | remove hi =>
    exact hset hi rfl rfl fun kind hk => by cases hk
  | persist hi hrequest hrequest' hpc hu =>
    refine hset hi rfl rfl fun kind hk => ?_
    rw [hpc] at hk
    cases hk
    exact Or.inr ⟨_, (built_of_persist hu).1⟩
  | persistRunless hi hrequest hrequest' hpc hrun hu hbefore hdecides =>
    rename_i scope _ draws change _
    refine hset hi rfl rfl fun kind hk => ?_
    rw [hpc] at hk
    cases hk
    refine Or.inr ⟨scope, .effectApplied change draws.now draws.eventId ?_⟩
    simp only [buildEffectEvent, hrun]
  | waitEffectRun locks hi hrequest hrequest' hpc hu =>
    refine hset hi rfl rfl fun kind hk => ?_
    rw [hpc] at hk
    cases hk
  | persistEffect hi hrequest hrequest' hold hpc hevent =>
    refine hset hi rfl rfl fun kind hk => ?_
    rw [hpc] at hk
    cases hk
    exact Or.inr ⟨_, .effectApplied _ _ _ hevent⟩
  | append hi hpc hfree hlen =>
    refine hset hi rfl rfl fun kind hk => Or.inl ?_
    rw [hpc]
    exact hk
  | saveManifest hi hrequest hpc =>
    refine hset hi rfl rfl fun kind hk => ?_
    rename_i watermark _ _
    cases watermark <;> cases hk
  | reopen ho => exact .reopen rfl ho fun j => rfl
  | commit hi hpc =>
    rename_i i task draws kind response position
    refine .commit (commits_of_appended draws hi hpc) ?_ ?_ fun j kind' hj => ?_
    · exact pendingAt_of_pc hi (by rw [hpc]; rfl)
    · simp only [Sys.commit]
      split <;> next he => rw [he]
    · rw [pendingAt_of_set hi rfl] at hj
      split at hj
      · simp only [Sys.commit] at hj
        split at hj <;> cases hj
      · next hij => exact ⟨Ne.symm hij, hj⟩

theorem step_indexMove {action : Action} (h : s.step env action = some s') :
    IndexMove env s action s' :=
  (step_moves h).indexMove

/-! ### The log and the snapshot directory -/

@[simp] theorem commit_frame (s : Sys) (task : Task) (kind : RecordKind) (response : Response)
    (position : WalPosition) :
    (s.commit task kind response position).1.ledger.wal = s.ledger.wal ∧
      (s.commit task kind response position).1.disk = s.disk := by
  unfold Sys.commit
  split <;> exact ⟨rfl, rfl⟩

theorem finish_commit (s : Sys) (task : Task) (kind : RecordKind) (response : Response)
    (position : WalPosition) :
    ∃ result, (s.commit task kind response position).2 = task.finish result (some kind) := by
  unfold Sys.commit
  split <;> exact ⟨_, rfl⟩

theorem indexes_commit (s : Sys) (task : Task) (kind : RecordKind) (response : Response)
    (position : WalPosition) :
    (s.commit task kind response position).1.ledger.indexes = (s.ledger.indexes.apply kind).1 := by
  unfold Sys.commit
  split <;> next he => rw [he]

/-- The watermark moves to the record, unless it did not apply. -/
theorem lastWalPosition_commit (s : Sys) (task : Task) (kind : RecordKind) (response : Response)
    (position : WalPosition) :
    (s.commit task kind response position).1.ledger.lastWalPosition = some position ∨
      (s.commit task kind response position).1.ledger.lastWalPosition
        = s.ledger.lastWalPosition := by
  unfold Sys.commit
  split
  · exact Or.inl rfl
  · exact Or.inr rfl

theorem crashDir_records_sublist (env : Env) (s : Sys) (keepUnacked : Bool) :
    (replayAll env.encodedLen (s.crashDir keepUnacked).segments).Sublist
      (s.ledger.wal.records env.encodedLen) := by
  unfold crashDir settled
  split
  · exact List.Sublist.refl _
  · split
    · exact List.Sublist.refl _
    · exact Wal.records_dropLast_sublist env.encodedLen

/-- A record of the log was there before the step, or was pending. -/
theorem Moves.records {action : Action} (h : Moves env s action s') :
    ∀ r ∈ s'.ledger.wal.records env.encodedLen,
      r ∈ s.ledger.wal.records env.encodedLen ∨ ∃ i, s.pendingAt i = some r.payload := by
  intro r hr
  cases h with
  | append hi hpc hfree hlen =>
    rename_i i task draws kind response
    change r ∈ (s.ledger.wal.handleAppend _ _ kind).2.records _ at hr
    rw [Wal.records_handleAppend] at hr
    rcases List.mem_append.mp hr with hr | hr
    · exact Or.inl hr
    · right
      refine ⟨i, ?_⟩
      rw [List.mem_singleton.mp hr]
      exact pendingAt_of_pc hi (by rw [hpc]; rfl)
  | commit hi hpc => exact Or.inl ((commit_frame ..).1 ▸ hr)
  | remove hi hrequest hpc => exact Or.inl ((Wal.records_removeSegment_sublist _ _).subset hr)
  | reopen ho =>
    obtain ⟨_, -, -, hwal, -⟩ := open_eq_ok ho
    rw [Wal.records_open env.encodedLen hwal] at hr
    exact Or.inl ((crashDir_records_sublist env s _).subset hr)
  | _ => exact Or.inl hr

/-- The state file is as before the step, or was just collected from the indexes. -/
theorem Moves.stateFile {action : Action} (h : Moves env s action s') :
    s'.disk.stateFile = s.disk.stateFile ∨
      s'.disk.stateFile = some s.ledger.indexes.collectState := by
  cases h with
  | commit hi hpc => exact Or.inl (by rw [(commit_frame ..).2])
  | saveState hi hrequest hpc hfree => exact Or.inr rfl
  | _ => exact Or.inl rfl

/-! ## Invariants over records in flight -/

/-- `I` holds of the indexes, and every pending record stands in relation `P` to them. -/
def InFlight (I : Indexes → Prop) (P : Indexes → RecordKind → Prop) (s : Sys) : Prop :=
  I s.ledger.indexes ∧ ∀ i kind, s.pendingAt i = some kind → P s.ledger.indexes kind

theorem commits_pending {action : Action} (h : s.commits action = some (i, kind)) :
    s.pendingAt i = some kind := by
  cases action with
  | step j draws =>
    simp only [commits] at h
    split at h
    · next k response position hpc =>
      cases h
      obtain ⟨task, ht, hp⟩ := Option.map_eq_some_iff.mp hpc
      exact pendingAt_of_pc ht (by rw [hp]; rfl)
    · cases h
  | _ => cases h

/--
**The rule for records in flight**, without reopening. It is enough that a record stands in
relation `P` when it is built, that applying a pending record keeps `I`, and that applying it
keeps `P` for the pending records of the other tasks.
-/
theorem inFlight_of_reach {I : Indexes → Prop} {P : Indexes → RecordKind → Prop}
    {C : Sys → Action → Prop} (hreopen : ∀ s keepUnacked, ¬ C s (.reopen keepUnacked))
    (hempty : I .empty)
    (hbuilt : ∀ idx scope kind, I idx → Built env idx scope kind → P idx kind)
    (happly : ∀ s action i kind, C s action → s.commits action = some (i, kind) →
      InFlight I P s → I (s.ledger.indexes.apply kind).1)
    (hkeep : ∀ s action i kind j other, C s action → s.commits action = some (i, kind) →
      InFlight I P s → j ≠ i → s.pendingAt j = some other →
      P (s.ledger.indexes.apply kind).1 other)
    (h : Reach (step env) C init s) : InFlight I P s := by
  refine h.invariant ⟨hempty, fun i kind hk => ?_⟩ ?_
  · simp [pendingAt, init] at hk
  intro s action s' hi hc hstep
  cases step_indexMove hstep with
  | same hindexes hpending =>
    rw [InFlight, hindexes]
    refine ⟨hi.1, fun j kind hj => ?_⟩
    rcases hpending j kind hj with hj | ⟨scope, hb⟩
    · exact hi.2 j kind hj
    · exact hbuilt _ scope kind hi.1 hb
  | commit hcommits _ hindexes hpending =>
    rw [InFlight, hindexes]
    refine ⟨happly s action _ _ hc hcommits hi, fun j kind hj => ?_⟩
    obtain ⟨hne, hj⟩ := hpending j kind hj
    exact hkeep s action _ _ j kind hc hcommits hi hne hj
  | reopen haction _ _ => exact absurd (haction ▸ hc) (hreopen s _)

end Sys

/-! ## Runs to evaluate -/

namespace Sample

/-- A new call under the sample scope. -/
def spawn (call : Call) : Sys.Action := .spawn (.call scope call)

/-- `count` steps of one task, all with the `n`th draw. -/
def steps (task n count : Nat) : List Sys.Action := List.replicate count (.step task (draws n))

end Sample

end Calod.Ledger
