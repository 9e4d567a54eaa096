import Calod.Ledger.Heads
import Calod.Ledger.Fencing

/-!
# Run updates under overlapping calls

`update_run` reads a run, checks its version and status, and writes it back with the next version.
It holds the run's lock throughout, found through the table of run locks; effects and events
change the same run record under other locks, but never its version or status.

* `RunUpdates` — one holder for each run lock, and every update in flight is the next version of
  the run that is stored
* `no_lost_run_update` — the version counts the updates that succeeded, no expected version
  succeeds twice, and a terminal status is final

The steps considered are those of live operation (`Sys.live`).
-/

namespace Calod.Ledger

open Calod.Core Calod.Storage Lib Ledger.Sample

variable {r : Uuid} {lock j : Nat} {kind : RecordKind} {locks : RunLocks} {expected : Option Int}
  {call : Call} {run : RunRecord} {response : Response} {idx : Indexes}

/-! ## The table of run locks -/

namespace RunLocks

variable {locks : RunLocks}

theorem get_self (locks : RunLocks) (r : Uuid) : (locks.get r).2.ids r = some (locks.get r).1 := by
  unfold get
  cases h : locks.ids r with
  | some lock => exact h
  | none => simp

/-- A lock once found stays that of its run. -/
theorem get_grows {r r' : Uuid} (h : locks.ids r = some lock) :
    (locks.get r').2.ids r = some lock := by
  unfold get
  cases h' : locks.ids r' with
  | some lock' => exact h
  | none =>
    have hne : r ≠ r' := by
      rintro rfl
      rw [h] at h'
      cases h'
    simp only [Function.update_of_ne hne, h]

theorem apply_grows (hkind : kind.isRetention = false) (h : locks.ids r = some lock) :
    (locks.apply kind).ids r = some lock := by
  cases kind with
  | runCreated run => exact get_grows h
  | runUpdated run => exact get_grows h
  | retentionApplied cutoff runIds effectIds => cases hkind
  | _ => exact h

end RunLocks

/-! ## What a step does to the run locks -/

/-- The run lock that a call waits for before it decides. -/
def Pc.runWait : Pc → Option Nat
  | .waitRun lock => some lock
  | _ => none

/-- The run lock that a task holds once it has built a record. -/
def Task.lockAfter (task : Task) : Option Nat := task.pc.runWait.or task.runLock

/-- How a step moves the run lock of the task that makes it. -/
structure RunLockMove (env : Env) (s : Sys) (task : Task) (locks : RunLocks) (task' : Task) :
    Prop where
  request : task'.request = task.request
  moving : task.pc.isDone = false
  grows : ∀ (r : Uuid) (lock : Nat), s.locks.ids r = some lock → locks.ids r = some lock
  holds : task'.runLock = none ∨ task'.runLock = task.runLock ∨
    ∃ lock, task'.runLock = some lock ∧ s.runLockFree lock = true
  pending : task'.pc.pending ≠ none → task'.runLock = task.lockAfter
  waits : ∀ lock, task'.pc.runWait = some lock → ∃ scope call runId,
    task.request = .call scope call ∧
      call.check env s.ledger.indexes scope = .ok (.run runId) ∧ locks.ids runId = some lock

namespace Sys

variable {env : Env} {s s' : Sys} {task task' : Task} {i : Nat}

/-- The task returns and drops its guards. -/
theorem runLock_finish (hmoving : task.pc.isDone = false)
    (hgrows : ∀ r lock, s.locks.ids r = some lock → locks.ids r = some lock)
    (result : Except LedgerError Response) (persisted : Option RecordKind) {task₁ : Task}
    (hrequest : task₁.request = task.request) :
    RunLockMove env s task locks (task₁.finish result persisted) where
  request := hrequest
  moving := hmoving
  grows := hgrows
  holds := Or.inl rfl
  pending h := absurd rfl h
  waits _ h := nomatch h

/-- The task moves on without touching a run lock. -/
theorem runLock_keep (hmoving : task.pc.isDone = false)
    (hgrows : ∀ r lock, s.locks.ids r = some lock → locks.ids r = some lock)
    {pc : Pc} (hlock : pc.pending = none ∨ task.pc.runWait = none) (hwaits : pc.runWait = none) :
    RunLockMove env s task locks { task with pc } where
  request := rfl
  moving := hmoving
  grows := hgrows
  holds := Or.inr (Or.inl rfl)
  pending h := by
    rw [Task.lockAfter, hlock.resolve_left h, Option.none_or]
  waits lock h := by
    rw [hwaits] at h
    cases h

theorem runLock_decide (task task₁ : Task) (hmoving : task.pc.isDone = false)
    (hrequest : task₁.request = task.request) (hlock : task₁.runLock = task.lockAfter)
    (hfree : ∀ lock, task.pc.runWait = some lock → s.runLockFree lock = true) (scope : Scope)
    (call : Call) (draws : Draws) :
    RunLockMove env s task (s.decide env task₁ scope call draws).1.locks
      (s.decide env task₁ scope call draws).2 := by
  -- after the decision the task holds the lock it waited for, if any
  have hholds : task₁.runLock = none ∨ task₁.runLock = task.runLock ∨
      ∃ lock, task₁.runLock = some lock ∧ s.runLockFree lock = true := by
    rw [hlock, Task.lockAfter]
    cases hwait : task.pc.runWait with
    | none => exact Or.inr (Or.inl rfl)
    | some lock => exact Or.inr (Or.inr ⟨lock, rfl, hfree lock hwait⟩)
  have hpc : ∀ {pc} {locks}, pc.runWait = none →
      (∀ r lock, s.locks.ids r = some lock → locks.ids r = some lock) →
      RunLockMove env s task locks { task₁ with pc } := by
    intro pc locks hwaits hgrows
    refine ⟨hrequest, hmoving, hgrows, hholds, fun _ => hlock, fun lock h => ?_⟩
    rw [hwaits] at h
    cases h
  unfold decide
  cases hu : call.underLock env s.ledger.indexes scope draws with
  | error error => exact runLock_finish hmoving (fun _ _ h => h) _ _ hrequest
  | ok next =>
    cases next with
    | answer response => exact runLock_finish hmoving (fun _ _ h => h) _ _ hrequest
    | persist kind response => exact hpc rfl fun _ _ h => h
    | effect change response =>
      simp only []
      cases hr : change.effect.runId with
      | none => exact hpc rfl fun _ _ h => h
      | some runId => exact hpc rfl fun _ _ h => RunLocks.get_grows h

theorem runLock_advance {draws : Draws} {p : Sys × Task}
    (hret : ∀ kind response position, task.pc = .appended kind response position →
      kind.isRetention = false)
    (h : s.advance env task draws = some p) : RunLockMove env s task p.1.locks p.2 := by
  unfold advance at h
  split at h
  · next scope call hreq hpc =>
    have hmoving : task.pc.isDone = false := by rw [hpc]; rfl
    have hwait : task.pc.runWait = none := by rw [hpc]; rfl
    split at h
    · cases h
      exact runLock_finish hmoving (fun _ _ h => h) _ _ rfl
    · cases h
      refine runLock_decide task task hmoving rfl
        (by rw [Task.lockAfter, hwait, Option.none_or]) ?_ ..
      rw [hwait]
      exact fun _ h => nomatch h
    · cases h
      exact runLock_keep hmoving (fun _ _ h => h) (Or.inl rfl) rfl
    · next runId hcheck =>
      cases h
      refine ⟨rfl, hmoving, fun _ _ h => RunLocks.get_grows h, Or.inr (Or.inl rfl),
        fun h => absurd rfl h, ?_⟩
      intro lock hlock
      cases hlock
      exact ⟨scope, call, runId, hreq, hcheck, RunLocks.get_self ..⟩
  · next scope call index hreq hpc =>
    have hwait : task.pc.runWait = none := by rw [hpc]; rfl
    split at h
    · cases h
      refine runLock_decide task { task with partition := some index } (by rw [hpc]; rfl) rfl
        (by rw [Task.lockAfter, hwait, Option.none_or]) ?_ ..
      rw [hwait]
      exact fun _ h => nomatch h
    · cases h
  · next scope call lock hreq hpc =>
    have hwait : task.pc.runWait = some lock := by rw [hpc]; rfl
    split at h
    · next hfree =>
      cases h
      refine runLock_decide task { task with runLock := some lock } (by rw [hpc]; rfl) rfl
        (by rw [Task.lockAfter, hwait, Option.some_or]) ?_ ..
      rw [hwait]
      rintro _ ⟨⟩
      exact hfree
    · cases h
  · next scope call lock change now response hreq hpc =>
    have hmoving : task.pc.isDone = false := by rw [hpc]; rfl
    split at h
    · split at h
      · cases h
        exact runLock_finish hmoving (fun _ _ h => h) _ _ rfl
      · cases h
        exact runLock_keep hmoving (fun _ _ h => h) (Or.inr (by rw [hpc]; rfl)) rfl
    · cases h
  · next scope call kind response hreq hpc =>
    have hmoving : task.pc.isDone = false := by rw [hpc]; rfl
    split at h
    · split at h
      · cases h
        exact runLock_finish hmoving (fun _ _ h => h) _ _ rfl
      · cases h
        exact runLock_keep hmoving (fun _ _ h => h) (Or.inr (by rw [hpc]; rfl)) rfl
    · cases h
  · next scope call kind response position hreq hpc =>
    cases h
    have hmoving : task.pc.isDone = false := by rw [hpc]; rfl
    have hgrows : ∀ r lock, s.locks.ids r = some lock →
        (s.locks.apply kind).ids r = some lock :=
      fun _ _ h => RunLocks.apply_grows (hret kind response position hpc) h
    unfold commit
    split
    · exact runLock_finish hmoving hgrows _ _ rfl
    · exact runLock_finish hmoving hgrows _ _ rfl
  · next hreq hpc =>
    cases h
    exact runLock_keep (by rw [hpc]; rfl) (fun _ _ h => h) (Or.inl rfl) rfl
  · next hreq hpc =>
    split at h
    · cases h
      exact runLock_keep (by rw [hpc]; rfl) (fun _ _ h => h) (Or.inl rfl) rfl
    · cases h
  · next watermark state now hreq hpc =>
    cases h
    cases watermark with
    | none | some => exact runLock_keep (by rw [hpc]; rfl) (fun _ _ h => h) (Or.inl rfl) rfl
  · next watermark hreq hpc =>
    cases h
    exact runLock_keep (by rw [hpc]; rfl) (fun _ _ h => h) (Or.inl rfl) rfl
  · next hreq hpc =>
    cases h
    exact runLock_keep (by rw [hpc]; rfl) (fun _ _ h => h) (Or.inl rfl) rfl
  · next id ids hreq hpc =>
    cases h
    exact runLock_keep (by rw [hpc]; rfl) (fun _ _ h => h) (Or.inl rfl) rfl
  · cases h

theorem set_injective {l : List Task} (hi : l[i]? = some task) {t t' : Task}
    (h : l.set i t = l.set i t') : t = t' := by
  have hget := congrArg (fun l : List Task => l[i]?) h
  simp only [getElem?_set_of_some hi, if_true] at hget
  exact Option.some.inj hget

/-- **Every step that moves a task moves its run lock in one of these ways.** -/
theorem step_runLock {action : Action} (h : s.step env action = some s')
    (hlive : s.live action = true) (haction : action.task = some i)
    (hi : s.tasks[i]? = some task) (htasks : s'.tasks = s.tasks.set i task') :
    RunLockMove env s task s'.locks task' := by
  cases action with
  | spawn request => cases haction
  | reopen keep => cases haction
  | step j draws =>
    obtain rfl : j = i := Option.some.inj haction
    simp only [step, hi] at h
    obtain ⟨p, hp, rfl⟩ := Option.map_eq_some_iff.mp h
    rw [← set_injective hi htasks]
    refine runLock_advance ?_ hp
    intro kind response position hpc
    exact (live_commits hlive (commits_of_appended draws hi hpc)).1
  | walFail j error =>
    obtain rfl : j = i := Option.some.inj haction
    simp only [step, hi] at h
    split at h
    · next hpc =>
      split at h
      · cases h
        rw [← set_injective hi htasks]
        exact runLock_finish (by rw [hpc]; rfl) (fun _ _ h => h) _ _ rfl
      · cases h
    · cases h

end Sys

/-! ## Updates in flight -/

/-- The run that an `update_run` call is for, with the version it expects. -/
def Request.update : Request → Option (Uuid × Option Int)
  | .call _ (.updateRun runId _ expected) => some (runId, expected)
  | _ => none

theorem Request.update_eq_some {request : Request} (h : request.update = some (r, expected)) :
    ∃ scope req, request = .call scope (.updateRun r req expected) := by
  unfold update at h
  split at h
  · cases h
    exact ⟨_, _, rfl⟩
  · cases h

/-- `next` is what an update makes of the run that is stored. -/
structure UpdateReady (idx : Indexes) (r : Uuid) (expected : Option Int) (next run : RunRecord) :
    Prop where
  id : next.id = r
  stored : idx.runs[r]? = some run
  version : next.version = run.version + 1
  status : run.status.isTerminal = true → next.status = run.status
  matched : ∀ v, expected = some v → v = run.version

section

variable {env : Env} {idx : Indexes} {scope : Scope} {draws : Draws} {kind : RecordKind} {r : Uuid}
  {expected : Option Int}

/-- An `update_run` call persists the next version of the run it is for. -/
theorem update_ready {req : UpdateRunRequest} (hk : idx.Keyed)
    (h : (Call.updateRun r req expected).underLock env idx scope draws
      = .ok (.persist kind response)) :
    ∃ next run, kind = .runUpdated next ∧ UpdateReady idx r expected next run := by
  cases persists_of_underLock h with
  | updateRun req hrun hversion hstatus =>
    obtain ⟨hstored, -⟩ := runInScope_ok.mp hrun
    have hid := hk.runs r _ hstored
    refine ⟨_, _, rfl, hid, hstored, rfl, fun ht => ?_, ?_⟩
    · by_contra hne
      exact hstatus ⟨ht, hne⟩
    · rintro v rfl
      by_contra hne
      rw [checkVersion, if_pos hne] at hversion
      cases hversion

/-- Only `update_run` writes a run back. -/
theorem update_of_persist
    (h : call.underLock env idx scope draws = .ok (.persist (.runUpdated run) response)) :
    ∃ runId req expected, call = .updateRun runId req expected := by
  cases persists_of_underLock h with
  | updateRun req => exact ⟨_, req, _, rfl⟩
  | applyRetention hr => cases applyRetention_kind hr

/-- An `update_run` call decides on a record, or fails. -/
theorem update_persists {request : Request} {next : Next} (hrequest : request = .call scope call)
    (hupdate : request.update ≠ none) (h : call.underLock env idx scope draws = .ok next) :
    ∃ kind response, next = .persist kind response := by
  obtain ⟨⟨r, expected⟩, hr⟩ := Option.ne_none_iff_exists'.mp hupdate
  obtain ⟨scope', req, hreq⟩ := Request.update_eq_some hr
  cases hrequest.symm.trans hreq
  obtain ⟨⟨kind, view⟩, -, he⟩ := map_eq_ok.mp h
  cases he
  exact ⟨kind, _, rfl⟩

/-- A run is created with version 1. -/
theorem Built.created_version (h : Built env idx scope kind) (hk : kind = .runCreated run) :
    run.version = 1 := by
  cases h with
  | runCreated =>
    cases hk
    rfl
  | retentionApplied h =>
    rw [applyRetention_kind h] at hk
    cases hk
  | runUpdated | effectApplied | eventAppended | checkpointCreated => cases hk

/-- **Versions and statuses stay**, under every record of live operation that does not update
the run. -/
theorem Indexes.run_kept
    (hret : kind.isRetention = false)
    (hfresh : ∀ run, kind = .runCreated run → idx.runs[run.id]? = none)
    (hother : ∀ run, kind = .runUpdated run → run.id ≠ r) (hr : idx.runs[r]? = some run) :
    ∃ run', (idx.apply kind).1.runs[r]? = some run' ∧ run'.version = run.version ∧
      run'.status = run.status := by
  rcases apply_at idx kind r with ⟨hsame, -⟩ | ⟨new, hk, hid, -⟩ | ⟨event, -, -, -, -, hmoved, -⟩ |
      ⟨_, _, _, rfl, -⟩
  · exact ⟨run, hsame.trans hr, rfl, rfl⟩
  · rcases hk with hk | hk
    · have hnone := hfresh new hk
      rw [hid, hr] at hnone
      cases hnone
    · exact absurd hid (hother new hk)
  · exact ⟨run.moveHead event, by rw [hmoved, hr]; rfl, rfl, rfl⟩
  · cases hret

/-- A run that appears was created. -/
theorem Indexes.run_appears (hother : ∀ run, kind = .runUpdated run → run.id ≠ r)
    (hr : idx.runs[r]? = none) (hr' : (idx.apply kind).1.runs[r]? = some run) :
    kind = .runCreated run := by
  rcases apply_at idx kind r with ⟨hsame, -⟩ | ⟨new, hk, hid, hnew, -⟩ |
      ⟨event, -, -, -, -, hmoved, -⟩ | ⟨_, _, _, -, -, hnone, -⟩
  · rw [hsame, hr] at hr'
    cases hr'
  · rw [hnew] at hr'
    cases hr'
    rcases hk with hk | hk
    · exact hk
    · exact absurd hid (hother _ hk)
  · rw [hmoved, hr] at hr'
    cases hr'
  · rw [hnone] at hr'
    cases hr'

end

/-! ## The invariant -/

/-- A wait that is not part of `update_run`. -/
def Pc.otherWait : Pc → Bool
  | .waitPartition _ | .waitEffectRun _ _ _ _ => true
  | _ => false

namespace Task

/-- What the record of a task has to do with the stored runs. -/
structure Prepared (idx : Indexes) (task : Task) : Prop where
  path : task.request.update ≠ none → task.pc.otherWait = false
  update : ∀ r expected kind, task.request.update = some (r, expected) →
    task.pc.pending = some kind →
    ∃ next run, kind = .runUpdated next ∧ UpdateReady idx r expected next run
  others : ∀ run, task.pc.pending = some (.runUpdated run) → task.request.update ≠ none
  created : ∀ run, task.pc.pending = some (.runCreated run) → run.version = 1

/-- An `update_run` waits for, and then holds, the lock of its run. -/
structure Locked (locks : RunLocks) (task : Task) : Prop where
  waits : ∀ r expected lock, task.request.update = some (r, expected) →
    task.pc.runWait = some lock → locks.ids r = some lock
  holds : ∀ r expected, task.request.update = some (r, expected) → task.pc.pending ≠ none →
    ∃ lock, task.runLock = some lock ∧ locks.ids r = some lock

theorem prepared_idle {task : Task} (hpath : task.request.update ≠ none → task.pc.otherWait = false)
    (hpending : task.pc.pending = none) : task.Prepared idx where
  path := hpath
  update r expected kind _ h := by
    rw [hpending] at h
    cases h
  others run h := by
    rw [hpending] at h
    cases h
  created run h := by
    rw [hpending] at h
    cases h

theorem Prepared.same {task task' : Task} (h : task.Prepared idx)
    (hrequest : task'.request = task.request) (hpending : task'.pc.pending = task.pc.pending)
    (hpath : task'.pc.otherWait = false) : task'.Prepared idx where
  path _ := hpath
  update := by
    rw [hrequest, hpending]
    exact h.update
  others := by
    rw [hrequest, hpending]
    exact h.others
  created := by
    rw [hpending]
    exact h.created

theorem prepared_effect {task : Task} {effect : EffectRecord} {event : Option EventRecord}
    (hupdate : task.request.update = none)
    (hpending : task.pc.pending = some (.effectApplied effect event)) : task.Prepared idx where
  path h := absurd hupdate h
  update r expected kind h := by
    rw [hupdate] at h
    cases h
  others run h := by
    rw [hpending] at h
    cases h
  created run h := by
    rw [hpending] at h
    cases h

/-- Another call's record leaves an update ready, unless it updates the same run. -/
theorem Prepared.apply {idx : Indexes} {task : Task} {kind : RecordKind} (h : task.Prepared idx)
    (hret : kind.isRetention = false)
    (hfresh : ∀ run, kind = .runCreated run → idx.runs[run.id]? = none)
    (hother : ∀ r expected run, task.request.update = some (r, expected) →
      task.pc.pending ≠ none → kind = .runUpdated run → run.id ≠ r) :
    task.Prepared (idx.apply kind).1 where
  path := h.path
  update r expected kind' hr hk := by
    obtain ⟨next, run, hnext, hready⟩ := h.update r expected kind' hr hk
    have hne : task.pc.pending ≠ none := by
      rw [hk]
      exact Option.some_ne_none kind'
    obtain ⟨run', hrun', hversion, hstatus⟩ := Indexes.run_kept hret hfresh
      (fun run hkind => hother r expected run hr hne hkind) hready.stored
    refine ⟨next, run', hnext, hready.id, hrun', ?_, ?_, ?_⟩
    · rw [hversion, hready.version]
    · rw [hstatus]
      exact hready.status
    · rw [hversion]
      exact hready.matched
  others := h.others
  created := h.created

theorem Locked.grow {locks locks' : RunLocks} {task : Task} (h : task.Locked locks)
    (hgrows : ∀ r lock, locks.ids r = some lock → locks'.ids r = some lock) :
    task.Locked locks' where
  waits r expected lock hr hw := hgrows r lock (h.waits r expected lock hr hw)
  holds r expected hr hp := by
    obtain ⟨lock, hlock, hid⟩ := h.holds r expected hr hp
    exact ⟨lock, hlock, hgrows r lock hid⟩

/-- The step of a task keeps it `Locked`, if an update builds its record under its lock. -/
theorem Locked.move {env : Env} {s : Sys} {locks : RunLocks} {task task' : Task}
    (h : task.Locked s.locks) (hmove : RunLockMove env s task locks task')
    (hfrom : task.request.update ≠ none → task'.pc.pending ≠ none →
      task.pc.pending ≠ none ∨ task.pc.runWait ≠ none) : task'.Locked locks where
  waits r expected lock hr hw := by
    rw [hmove.request] at hr
    obtain ⟨scope, call, runId, hcall, hcheck, hid⟩ := hmove.waits lock hw
    obtain ⟨scope', req, hreq⟩ := Request.update_eq_some hr
    cases hcall.symm.trans hreq
    cases hcheck
    exact hid
  holds r expected hr hp := by
    rw [hmove.request] at hr
    rw [hmove.pending hp, lockAfter]
    cases hwait : task.pc.runWait with
    | some lock => exact ⟨lock, rfl, hmove.grows r lock (h.waits r expected lock hr hwait)⟩
    | none =>
      have hne : task.request.update ≠ none := by
        rw [hr]
        exact Option.some_ne_none _
      have hpending := (hfrom hne hp).resolve_right (not_not.mpr hwait)
      obtain ⟨lock, hlock, hid⟩ := h.holds r expected hr hpending
      exact ⟨lock, hlock, hmove.grows r lock hid⟩

end Task

namespace Sys

/-- **Every update in flight is the next version of the run that is stored**, and holds the lock
of its run. -/
structure RunUpdates (s : Sys) : Prop where
  keyed : s.ledger.indexes.Keyed
  prepared : ∀ (i : Nat) (task : Task), s.tasks[i]? = some task → task.Prepared s.ledger.indexes
  locked : ∀ (i : Nat) (task : Task), s.tasks[i]? = some task → task.Locked s.locks
  exclusive : ∀ (i j : Nat) (task other : Task) (lock : Nat), s.tasks[i]? = some task →
    s.tasks[j]? = some other → task.runLock = some lock → other.runLock = some lock → i = j

variable {env : Env} {s s' : Sys} {i : Nat} {task task' : Task}

variable (h : RunUpdates s) (hi : s.tasks[i]? = some task) (htasks : s'.tasks = s.tasks.set i task')
  (hmove : RunLockMove env s task s'.locks task')

include h hi hmove in
/-- Nobody else holds the run lock of the task that has moved. -/
theorem exclusive_move {other : Task} (hne : j ≠ i) (hj : s.tasks[j]? = some other)
    (hlock : task'.runLock = some lock) : other.runLock ≠ some lock := by
  intro hother
  rcases hmove.holds with hnone | hsame | ⟨lock', htaken, hfree⟩
  · rw [hnone] at hlock
    cases hlock
  · exact hne (h.exclusive j i other task lock hj hi hother (hsame ▸ hlock))
  · rw [htaken] at hlock
    cases hlock
    have hne := List.all_eq_true.mp hfree other (List.mem_of_getElem? hj)
    simp [hother] at hne

include h hi htasks hmove in
/-- The invariant after a step of task `i`. -/
theorem RunUpdates.set (hkeyed : s'.ledger.indexes.Keyed)
    (hothers : ∀ j other, j ≠ i → s.tasks[j]? = some other → other.Prepared s'.ledger.indexes)
    (hnew : task'.Prepared s'.ledger.indexes)
    (hfrom : task.request.update ≠ none → task'.pc.pending ≠ none →
      task.pc.pending ≠ none ∨ task.pc.runWait ≠ none) : RunUpdates s' := by
  have hget : ∀ {j} {other}, s'.tasks[j]? = some other →
      j = i ∧ other = task' ∨ j ≠ i ∧ s.tasks[j]? = some other := by
    intro j other hj
    rw [htasks, getElem?_set_of_some hi] at hj
    split at hj
    · next hij => exact Or.inl ⟨hij.symm, (Option.some.inj hj).symm⟩
    · next hij => exact Or.inr ⟨Ne.symm hij, hj⟩
  constructor
  case keyed => exact hkeyed
  case prepared =>
    intro j other hj
    rcases hget hj with ⟨-, rfl⟩ | ⟨hne, hj⟩
    · exact hnew
    · exact hothers j other hne hj
  case locked =>
    intro j other hj
    rcases hget hj with ⟨-, rfl⟩ | ⟨hne, hj⟩
    · exact (h.locked i task hi).move hmove hfrom
    · exact (h.locked j other hj).grow hmove.grows
  case exclusive =>
    intro j k a b lock hj hk ha hb
    rcases hget hj with ⟨rfl, rfl⟩ | ⟨hjne, hj⟩
    · rcases hget hk with ⟨rfl, rfl⟩ | ⟨hkne, hk⟩
      · rfl
      · exact absurd hb (exclusive_move h hi hmove hkne hk ha)
    · rcases hget hk with ⟨rfl, rfl⟩ | ⟨hkne, hk⟩
      · exact absurd ha (exclusive_move h hi hmove hjne hj hb)
      · exact h.exclusive j k a b lock hj hk ha hb

theorem RunUpdates.init : RunUpdates Sys.init where
  keyed := Indexes.keyed_empty
  prepared _ _ h := nomatch h
  locked _ _ h := nomatch h
  exclusive _ _ _ _ _ h := nomatch h

theorem RunUpdates.spawn (h : RunUpdates s) (request : Request) :
    RunUpdates { s with tasks := s.tasks ++ [Task.new request] } where
  keyed := h.keyed
  prepared j other hj := by
    rcases getElem?_append_singleton hj with hj | rfl
    · exact h.prepared j other hj
    · exact Task.prepared_idle (fun _ => rfl) rfl
  locked j other hj := by
    rcases getElem?_append_singleton hj with hj | rfl
    · exact h.locked j other hj
    · exact ⟨fun _ _ _ _ hw => (nomatch hw), fun _ _ _ hp => absurd rfl hp⟩
  exclusive j k a b lock hj hk ha hb := by
    -- a task that has just arrived holds no lock
    rcases getElem?_append_singleton hj with hj | rfl
    · rcases getElem?_append_singleton hk with hk | rfl
      · exact h.exclusive j k a b lock hj hk ha hb
      · cases hb
    · cases ha

include h hi htasks hmove in
/-- The step of task `i` that leaves the indexes as they are. -/
theorem RunUpdates.move (hindexes : s'.ledger.indexes = s.ledger.indexes)
    (hnew : task'.Prepared s.ledger.indexes)
    (hfrom : task.request.update ≠ none → task'.pc.pending ≠ none →
      task.pc.pending ≠ none ∨ task.pc.runWait ≠ none) : RunUpdates s' := by
  refine h.set hi htasks hmove (hindexes ▸ h.keyed) ?_ (hindexes ▸ hnew) hfrom
  intro j other _ hj
  exact hindexes ▸ h.prepared j other hj

/-- An `update_run` that waits for nothing else decides under the lock of its run. -/
theorem decides_update {scope : Scope} {partition : Option Nat}
    (hp : task.Prepared s.ledger.indexes) (hrequest : task.request = .call scope call)
    (hupdate : task.request.update ≠ none) (h : s.Decides env task scope call partition) :
    task.pc.runWait ≠ none := by
  obtain ⟨⟨r, expected⟩, hr⟩ := Option.ne_none_iff_exists'.mp hupdate
  obtain ⟨scope', req, hreq⟩ := Request.update_eq_some hr
  cases hrequest.symm.trans hreq
  cases h with
  | unlocked hpc hcheck => cases hcheck
  | partition hpc hfree =>
    have hpath := hp.path hupdate
    rw [hpc] at hpath
    cases hpath
  | run hpc =>
    rw [hpc]
    exact Option.some_ne_none _

theorem prepared_quiet (hpc : task.pc.Quiet) (hwaits : s.Waits env task) (idx : Indexes) :
    task.Prepared idx := by
  refine Task.prepared_idle ?_ hpc.pending
  intro hupdate
  obtain ⟨⟨r, expected⟩, hr⟩ := Option.ne_none_iff_exists'.mp hupdate
  obtain ⟨scope, req, hreq⟩ := Request.update_eq_some hr
  unfold Waits at hwaits
  rw [hreq] at hwaits
  cases hcase : task.pc with
  | waitPartition index =>
    rw [hcase] at hwaits
    cases hwaits
  | waitEffectRun lock change now response =>
    rw [hcase] at hpc
    cases hpc
  | _ => rfl

theorem prepared_persist {scope : Scope} {draws : Draws} (hk : s.ledger.indexes.Keyed)
    (hrequest : task.request = .call scope call) (hpc : task.pc = .waitCommit kind response)
    (hu : call.underLock env s.ledger.indexes scope draws = .ok (.persist kind response)) :
    task.Prepared s.ledger.indexes := by
  have hpending : task.pc.pending = some kind := by rw [hpc]; rfl
  constructor
  case path =>
    intro _
    rw [hpc]
    rfl
  case update =>
    intro r expected kind' hr hkind
    cases hpending.symm.trans hkind
    obtain ⟨scope', req, hreq⟩ := Request.update_eq_some hr
    cases hrequest.symm.trans hreq
    exact update_ready hk hu
  case others =>
    intro run hkind
    cases hpending.symm.trans hkind
    obtain ⟨runId, req, expected, rfl⟩ := update_of_persist hu
    rw [hrequest]
    exact Option.some_ne_none _
  case created =>
    intro run hkind
    cases hpending.symm.trans hkind
    exact (built_of_persist hu).1.created_version rfl

include h hi in
/-- Two updates of one run are not in flight together. -/
theorem RunUpdates.one_update {other : Task} {expected expected' : Option Int}
    (hj : s.tasks[j]? = some other) (hr : task.request.update = some (r, expected))
    (hr' : other.request.update = some (r, expected')) (hp : task.pc.pending ≠ none)
    (hp' : other.pc.pending ≠ none) : i = j := by
  obtain ⟨lock, hlock, hid⟩ := (h.locked i task hi).holds r expected hr hp
  obtain ⟨lock', hlock', hid'⟩ := (h.locked j other hj).holds r expected' hr' hp'
  cases hid.symm.trans hid'
  exact h.exclusive i j task other lock hi hj hlock hlock'

include h hi in
theorem RunUpdates.one_update_of_pending {other : Task} (hj : s.tasks[j]? = some other)
    (hpending : task.pc.pending = some (.runUpdated run)) (hid : run.id = r)
    (hr : other.request.update = some (r, expected)) (hp : other.pc.pending ≠ none) : i = j := by
  have hprepared := h.prepared i task hi
  obtain ⟨⟨r', expected'⟩, hr'⟩ := Option.ne_none_iff_exists'.mp (hprepared.others run hpending)
  obtain ⟨next, old, hnext, hready⟩ := hprepared.update r' expected' _ hr' hpending
  cases hnext
  rw [← hready.id, hid] at hr'
  refine h.one_update hi hj hr' hr ?_ hp
  rw [hpending]
  exact Option.some_ne_none _

/-- **Live operation keeps the invariant.** -/
theorem RunUpdates.step (h : RunUpdates s) {action : Action} (hlive : s.live action = true)
    (hstep : s.step env action = some s') : RunUpdates s' := by
  have hmove : ∀ {i} {task task'}, action.task = some i → s.tasks[i]? = some task →
      s'.tasks = s.tasks.set i task' → RunLockMove env s task s'.locks task' :=
    fun ha hi htasks => step_runLock hstep hlive ha hi htasks
  cases step_moves hstep with
  | spawn request => exact h.spawn request
  | reopen ho => exact absurd hlive live_ne_reopen
  | quiet haction locks hi hrequest hpc hbefore hpartition hwaits =>
    exact h.move hi rfl (hmove haction hi rfl) rfl (prepared_quiet hpc hwaits _)
      fun _ hp => absurd hpc.pending hp
  | answer hi | saveState hi | list hi | remove hi =>
    exact h.move hi rfl (hmove rfl hi rfl) rfl (Task.prepared_idle (fun _ => rfl) rfl)
      fun _ hp => absurd rfl hp
  | persist hi hrequest hrequest' hpc hu hbefore hdecides =>
    exact h.move hi rfl (hmove rfl hi rfl) rfl
      (prepared_persist h.keyed (hrequest'.trans hrequest) hpc hu)
      fun hupdate _ => Or.inr (decides_update (h.prepared _ _ hi) hrequest hupdate hdecides)
  | persistRunless hi hrequest hrequest' hpc hrun hu hbefore hdecides =>
    refine h.move hi rfl (hmove rfl hi rfl) rfl ?_
      fun hupdate _ => Or.inr (decides_update (h.prepared _ _ hi) hrequest hupdate hdecides)
    refine Task.prepared_effect ?_ (by rw [hpc]; rfl)
    by_contra hupdate
    obtain ⟨_, _, he⟩ := update_persists (hrequest'.trans hrequest) hupdate hu
    cases he
  | waitEffectRun locks hi hrequest hrequest' hpc hu hbefore hdecides =>
    refine h.move hi rfl (hmove rfl hi rfl) rfl ?_ fun _ hp => absurd (by rw [hpc]; rfl) hp
    refine Task.prepared_idle ?_ (by rw [hpc]; rfl)
    intro hupdate
    obtain ⟨_, _, he⟩ := update_persists (hrequest'.trans hrequest) hupdate hu
    cases he
  | persistEffect hi hrequest hrequest' hold hpc hevent hpartition =>
    -- no `update_run` waits in `build_effect_event`
    have hupdate : ¬ _ ≠ none := fun hne => by
      have hpath := (h.prepared _ _ hi).path hne
      rw [hold] at hpath
      cases hpath
    refine h.move hi rfl (hmove rfl hi rfl) rfl ?_ fun hne _ => absurd hne hupdate
    refine Task.prepared_effect ?_ (by rw [hpc]; rfl)
    rw [hrequest']
    exact not_not.mp hupdate
  | append hi hpc hfree hlen =>
    refine h.move hi rfl (hmove rfl hi rfl) rfl ?_
      fun _ _ => Or.inl (by rw [hpc]; exact Option.some_ne_none _)
    exact (h.prepared _ _ hi).same rfl (by rw [hpc]; rfl) rfl
  | commit hi hpc =>
    rename_i i task draws kind response position
    obtain ⟨hret, hfresh⟩ := live_commits hlive (commits_of_appended draws hi hpc)
    have hpending : task.pc.pending = some kind := by rw [hpc]; rfl
    obtain ⟨result, hfinish⟩ := finish_commit s task kind response position
    have hindexes := indexes_commit s task kind response position
    refine h.set hi rfl (hmove rfl hi rfl) (hindexes ▸ h.keyed.apply kind) ?_ ?_ ?_
    · intro j other hne hj
      refine hindexes ▸ (h.prepared j other hj).apply hret hfresh ?_
      rintro r expected run hr hp rfl hid
      exact hne (h.one_update_of_pending hi hj hpending hid hr hp).symm
    · exact hfinish ▸ Task.prepared_idle (fun _ => rfl) rfl
    · exact fun _ hp => absurd (hfinish ▸ rfl) hp
  | saveManifest hi hrequest hpc =>
    rename_i watermark _ _
    cases watermark with
    | none | some =>
      exact h.move hi rfl (hmove rfl hi rfl) rfl (Task.prepared_idle (fun _ => rfl) rfl)
        fun _ hp => absurd rfl hp

/-! ## What a step does to versions and statuses -/

end Sys

def Pc.succeeded : Pc → Bool
  | .done (.ok _) _ => true
  | _ => false

/-- An `update_run` call on run `r` that has succeeded. -/
def Task.updated (r : Uuid) (task : Task) : Bool :=
  task.pc.succeeded && task.request.update.any fun update => update.1 = r

theorem Task.updated_iff {task : Task} :
    task.updated r = true ↔
      task.pc.succeeded = true ∧ ∃ expected, task.request.update = some (r, expected) := by
  unfold updated
  cases task.request.update with
  | none => simp
  | some update =>
    obtain ⟨r', expected⟩ := update
    simp

theorem Pc.succeeded_isDone {pc : Pc} (h : pc.isDone = false) : pc.succeeded = false := by
  cases pc with
  | done result persisted => cases h
  | _ => rfl

theorem Pc.Quiet.succeeded {pc : Pc} (h : pc.Quiet) : pc.succeeded = false := by
  cases pc with
  | done result persisted =>
    cases result with
    | ok response => cases h
    | error error => rfl
  | _ => rfl

/-- Every run keeps its version and status, and a new one has version 1. -/
structure Indexes.RunsKept (idx idx' : Indexes) : Prop where
  kept : ∀ (r : Uuid) (run : RunRecord), idx.runs[r]? = some run →
    ∃ run', idx'.runs[r]? = some run' ∧ run'.version = run.version ∧ run'.status = run.status
  created : ∀ (r : Uuid) (run : RunRecord), idx.runs[r]? = none → idx'.runs[r]? = some run →
    run.version = 1

theorem Indexes.RunsKept.refl (idx : Indexes) : idx.RunsKept idx where
  kept r run h := ⟨run, h, rfl, rfl⟩
  created r run h h' := by
    rw [h] at h'
    cases h'

namespace Sys

variable {env : Env} {s s' : Sys} {i : Nat} {task task' : Task}

/-- A step as the runs see it: an `update_run` succeeds, or versions and statuses stay. -/
inductive UpdateMove (s s' : Sys) : Prop where
  | other (hruns : s.ledger.indexes.RunsKept s'.ledger.indexes)
      (hcount : ∀ r, s'.tasks.countP (Task.updated r) = s.tasks.countP (Task.updated r))
      (htasks : ∀ (j : Nat) (task : Task) (r : Uuid), s'.tasks[j]? = some task →
        task.updated r = true → s.tasks[j]? = some task)
  | update {i : Nat} {task task' : Task} {r : Uuid} {expected : Option Int} {next run : RunRecord}
      (hi : s.tasks[i]? = some task) (hbefore : task.pc.isDone = false)
      (hsucceeded : task'.pc.succeeded = true)
      (hrequest : task'.request.update = some (r, expected))
      (htasks : s'.tasks = s.tasks.set i task')
      (hready : UpdateReady s.ledger.indexes r expected next run)
      (hruns : s'.ledger.indexes.runs = s.ledger.indexes.runs.insert r next)

theorem countP_set_of_not {α : Type} {p : α → Bool} {l : List α} {k : Nat} {a : α}
    (hk : l[k]? = some a) (ha : p a = false) (b : α) :
    (l.set k b).countP p = l.countP p + if p b then 1 else 0 := by
  obtain ⟨hlt, rfl⟩ := List.getElem?_eq_some_iff.mp hk
  rw [List.countP_set hlt, ha]
  simp

theorem updateMove_set (hi : s.tasks[i]? = some task) (htasks : s'.tasks = s.tasks.set i task')
    (hbefore : task.pc.isDone = false) (hruns : s.ledger.indexes.RunsKept s'.ledger.indexes)
    (hnew : task'.pc.succeeded = true → task'.request.update = none) : UpdateMove s s' := by
  have hfresh : ∀ r, task'.updated r = false := by
    intro r
    by_contra h
    obtain ⟨hs, expected, hr⟩ := Task.updated_iff.mp (Bool.not_eq_false _ ▸ h)
    rw [hnew hs] at hr
    cases hr
  refine .other hruns ?_ ?_
  · intro r
    have hold : task.updated r = false := by
      rw [Task.updated, Pc.succeeded_isDone hbefore, Bool.false_and]
    rw [htasks, countP_set_of_not hi hold, hfresh]
    rfl
  · intro j other r hj hu
    rw [htasks, getElem?_set_of_some hi] at hj
    split at hj
    · cases hj
      rw [hfresh] at hu
      cases hu
    · exact hj

theorem updateMove_spawn (s : Sys) (request : Request) :
    UpdateMove s { s with tasks := s.tasks ++ [Task.new request] } := by
  refine .other (.refl _) ?_ ?_
  · intro r
    rw [List.countP_append, List.countP_singleton]
    rfl
  · intro j task r hj hu
    rcases getElem?_append_singleton hj with hj | rfl
    · exact hj
    · cases hu

/-- The commit of an `update_run`: it succeeds. -/
theorem updateMove_commit (h : RunUpdates s) (hi : s.tasks[i]? = some task) {position : WalPosition}
    (hpc : task.pc = .appended kind response position)
    (hr : task.request.update = some (r, expected)) :
    UpdateMove s { (s.commit task kind response position).1 with
      tasks := s.tasks.set i (s.commit task kind response position).2 } := by
  obtain ⟨next, run, rfl, hready⟩ := (h.prepared i task hi).update r expected kind hr
    (by rw [hpc]; rfl)
  have hcommit : (s.commit task (.runUpdated next) response position).2
      = task.finish (.ok response) (some (.runUpdated next)) := commit_ok rfl task response position
  refine .update hi (by rw [hpc]; rfl) (by rw [hcommit]; rfl) (by rw [hcommit]; exact hr) rfl
    hready ?_
  rw [← hready.id]
  exact congrArg Indexes.runs (indexes_commit s task (.runUpdated next) response position)

/-- The commit of any other call. -/
theorem runsKept_commit (h : RunUpdates s) (hi : s.tasks[i]? = some task)
    (hpending : task.pc.pending = some kind) (hupdate : task.request.update = none)
    (hret : kind.isRetention = false)
    (hfresh : ∀ run, kind = .runCreated run → s.ledger.indexes.runs[run.id]? = none) :
    s.ledger.indexes.RunsKept (s.ledger.indexes.apply kind).1 := by
  have hprepared := h.prepared i task hi
  have hother : ∀ r run, kind = .runUpdated run → run.id ≠ r := by
    rintro r run rfl
    exact absurd hupdate (hprepared.others run hpending)
  constructor
  · intro r run hr
    exact Indexes.run_kept hret hfresh (hother r) hr
  · intro r run hr hr'
    cases Indexes.run_appears (hother r) hr hr'
    exact hprepared.created run hpending

/-- **Every step of live operation is an update that succeeds, or keeps versions and statuses.** -/
theorem step_updateMove (h : RunUpdates s) {action : Action} (hlive : s.live action = true)
    (hstep : s.step env action = some s') : UpdateMove s s' := by
  have hset : ∀ {i} {task task'}, action.task = some i → s.tasks[i]? = some task →
      s'.tasks = s.tasks.set i task' → s'.ledger.indexes = s.ledger.indexes →
      (task'.pc.succeeded = true → task'.request.update = none) → UpdateMove s s' := by
    intro i task task' haction hi htasks hindexes hnew
    refine updateMove_set hi htasks (step_runLock hstep hlive haction hi htasks).moving ?_ hnew
    rw [hindexes]
    exact .refl _
  cases step_moves hstep with
  | spawn request => exact updateMove_spawn s request
  | reopen ho => exact absurd hlive live_ne_reopen
  | quiet haction locks hi hrequest hpc =>
    refine hset haction hi rfl rfl fun hs => ?_
    cases hpc.succeeded.symm.trans hs
  | answer hi hrequest hu =>
    refine hset rfl hi rfl rfl fun _ => ?_
    by_contra hupdate
    obtain ⟨_, _, he⟩ := update_persists hrequest hupdate hu
    cases he
  | persist hi _ _ hpc | persistRunless hi _ _ hpc | waitEffectRun _ hi _ _ hpc
  | persistEffect hi _ _ _ hpc =>
    refine hset rfl hi rfl rfl fun hs => ?_
    rw [hpc] at hs
    cases hs
  | append hi | saveState hi | list hi | remove hi =>
    exact hset rfl hi rfl rfl (fun hs => nomatch hs)
  | commit hi hpc =>
    rename_i i task draws kind response position
    obtain ⟨hret, hfresh⟩ := live_commits hlive (commits_of_appended draws hi hpc)
    cases hupdate : task.request.update with
    | some update => exact updateMove_commit h hi hpc hupdate
    | none =>
      obtain ⟨result, hfinish⟩ := finish_commit s task kind response position
      refine updateMove_set hi rfl (by rw [hpc]; rfl) ?_ fun _ => ?_
      · rw [show Sys.ledger _ = _ from rfl, indexes_commit]
        exact runsKept_commit h hi (by rw [hpc]; rfl) hupdate hret hfresh
      · rw [hfinish]
        exact hupdate
  | saveManifest hi =>
    refine hset rfl hi rfl rfl fun hs => ?_
    cases (Pc.succeeded_isDone (Pc.isDone_afterSave _)).symm.trans hs

/-! ## Versions count the updates -/

/-- What the updates that succeeded have done to the runs. -/
structure Versions (s : Sys) : Prop where
  counted : ∀ (r : Uuid) (run : RunRecord), s.ledger.indexes.runs[r]? = some run →
    run.version = 1 + s.tasks.countP (Task.updated r)
  /-- The run of an update that succeeded is past the version that the call expected. -/
  past : ∀ (i : Nat) (task : Task) (r : Uuid) (expected : Option Int), s.tasks[i]? = some task →
    task.pc.succeeded = true → task.request.update = some (r, expected) →
    ∃ run, s.ledger.indexes.runs[r]? = some run ∧ ∀ v, expected = some v → v < run.version
  once : ∀ (i j : Nat) (task other : Task) (r : Uuid) (v : Int), s.tasks[i]? = some task →
    s.tasks[j]? = some other → task.pc.succeeded = true → other.pc.succeeded = true →
    task.request.update = some (r, some v) → other.request.update = some (r, some v) → i = j

theorem Versions.init : Versions Sys.init where
  counted r run h := by simp [Sys.init, fresh, Indexes.empty] at h
  past _ _ _ _ h := nomatch h
  once _ _ _ _ _ _ h := nomatch h

theorem Versions.other (h : Versions s) (hruns : s.ledger.indexes.RunsKept s'.ledger.indexes)
    (hcount : ∀ r, s'.tasks.countP (Task.updated r) = s.tasks.countP (Task.updated r))
    (htasks : ∀ (j : Nat) task r, s'.tasks[j]? = some task →
      task.updated r = true → s.tasks[j]? = some task) : Versions s' := by
  have hold : ∀ {j} {task : Task} {r} {expected},
      s'.tasks[j]? = some task → task.pc.succeeded = true →
      task.request.update = some (r, expected) → s.tasks[j]? = some task :=
    fun hj hs hr => htasks _ _ _ hj (Task.updated_iff.mpr ⟨hs, _, hr⟩)
  constructor
  case counted =>
    intro r run' hr'
    rw [hcount]
    cases hr : s.ledger.indexes.runs[r]? with
    | some run =>
      obtain ⟨_, hkept, hversion, -⟩ := hruns.kept r run hr
      cases hkept.symm.trans hr'
      rw [hversion]
      exact h.counted r run hr
    | none =>
      -- no update has succeeded on a run that is not there
      have hzero : s.tasks.countP (Task.updated r) = 0 := by
        refine List.countP_eq_zero.mpr fun task htask hu => ?_
        obtain ⟨j, hj⟩ := List.mem_iff_getElem?.mp htask
        obtain ⟨hs, expected, hupdate⟩ := Task.updated_iff.mp hu
        obtain ⟨run, hrun, -⟩ := h.past j task r expected hj hs hupdate
        rw [hr] at hrun
        cases hrun
      rw [hzero, hruns.created r run' hr hr']
      rfl
  case past =>
    intro j task r expected hj hs hupdate
    obtain ⟨run, hr, hpast⟩ := h.past j task r expected (hold hj hs hupdate) hs hupdate
    obtain ⟨run', hr', hversion, -⟩ := hruns.kept r run hr
    exact ⟨run', hr', hversion ▸ hpast⟩
  case once =>
    intro j k task other r v hj hk hs hs' hr hr'
    exact h.once j k task other r v (hold hj hs hr) (hold hk hs' hr') hs hs' hr hr'

theorem Versions.update (h : Versions s) {next run : RunRecord} (hi : s.tasks[i]? = some task)
    (hbefore : task.pc.isDone = false) (hsucceeded : task'.pc.succeeded = true)
    (hrequest : task'.request.update = some (r, expected)) (htasks : s'.tasks = s.tasks.set i task')
    (hready : UpdateReady s.ledger.indexes r expected next run)
    (hruns : s'.ledger.indexes.runs = s.ledger.indexes.runs.insert r next) : Versions s' := by
  have hget : ∀ {j} {other}, s'.tasks[j]? = some other →
      j = i ∧ other = task' ∨ s.tasks[j]? = some other := by
    intro j other hj
    rw [htasks, getElem?_set_of_some hi] at hj
    split at hj
    · next hij => exact Or.inl ⟨hij.symm, (Option.some.inj hj).symm⟩
    · exact Or.inr hj
  -- an earlier update of the run expected an earlier version
  have hearlier : ∀ {j : Nat} {other} {v}, s.tasks[j]? = some other →
      other.pc.succeeded = true → other.request.update = some (r, some v) →
      expected ≠ some v := by
    intro j other v hj hs hr hexpected
    obtain ⟨_, hrun, hpast⟩ := h.past j other r (some v) hj hs hr
    cases hrun.symm.trans hready.stored
    have := hready.matched v hexpected
    have := hpast v rfl
    omega
  have hversion := hready.version
  constructor
  case counted =>
    intro k run' hr'
    have hold : task.updated k = false := by
      rw [Task.updated, Pc.succeeded_isDone hbefore, Bool.false_and]
    rw [htasks, countP_set_of_not hi hold]
    rw [hruns, Map.get_insert] at hr'
    split at hr'
    · next hk =>
      cases hr'
      subst hk
      rw [if_pos (Task.updated_iff.mpr ⟨hsucceeded, expected, hrequest⟩), hversion,
        h.counted r run hready.stored]
      push_cast
      ring
    · next hk =>
      have hne : ¬ task'.updated k = true := by
        intro hu
        obtain ⟨-, expected', hr⟩ := Task.updated_iff.mp hu
        cases hrequest.symm.trans hr
        exact hk rfl
      rw [if_neg hne]
      exact h.counted k run' hr'
  case past =>
    intro j other k expected' hj hs hr
    rw [hruns, Map.get_insert]
    rcases hget hj with ⟨-, rfl⟩ | hj
    · cases hrequest.symm.trans hr
      refine ⟨next, if_pos rfl, fun v hv => ?_⟩
      have := hready.matched v hv
      omega
    · obtain ⟨old, hold, hpast⟩ := h.past j other k expected' hj hs hr
      split
      · next hk =>
        subst hk
        cases hold.symm.trans hready.stored
        refine ⟨next, rfl, fun v hv => ?_⟩
        have := hpast v hv
        omega
      · exact ⟨old, hold, hpast⟩
  case once =>
    intro j k a b r' v hj hk ha hb hra hrb
    rcases hget hj with ⟨rfl, rfl⟩ | hj
    · cases hrequest.symm.trans hra
      rcases hget hk with ⟨rfl, -⟩ | hk
      · rfl
      · exact absurd rfl (hearlier hk hb hrb)
    · rcases hget hk with ⟨rfl, rfl⟩ | hk
      · cases hrequest.symm.trans hrb
        exact absurd rfl (hearlier hj ha hra)
      · exact h.once j k a b r' v hj hk ha hb hra hrb

/-- The invariants hold in every state of live operation. -/
theorem versions_of_reach (h : Reach (Sys.step env) (fun s a => s.live a = true) Sys.init s) :
    RunUpdates s ∧ Versions s := by
  refine h.invariant (I := fun s => RunUpdates s ∧ Versions s) ⟨.init, .init⟩ ?_
  rintro s action s' ⟨hu, hv⟩ hlive hstep
  refine ⟨hu.step hlive hstep, ?_⟩
  cases step_updateMove hu hlive hstep with
  | other hruns hcount htasks => exact hv.other hruns hcount htasks
  | update hi hbefore hsucceeded hrequest htasks hready hruns =>
    exact hv.update hi hbefore hsucceeded hrequest htasks hready hruns

/-- The status of a run, once terminal, is the same after any step of live operation. -/
theorem UpdateMove.terminal (h : UpdateMove s s') (hr : s.ledger.indexes.runs[r]? = some run)
    (ht : run.status.isTerminal = true) :
    ∃ run', s'.ledger.indexes.runs[r]? = some run' ∧ run'.status = run.status := by
  cases h with
  | other hruns =>
    obtain ⟨run', hr', -, hstatus⟩ := hruns.kept r run hr
    exact ⟨run', hr', hstatus⟩
  | update hi hbefore hsucceeded hrequest htasks hready hruns =>
    rw [hruns, Map.get_insert]
    split
    · next hk =>
      subst hk
      cases hr.symm.trans hready.stored
      exact ⟨_, rfl, hready.status ht⟩
    · exact ⟨run, hr, rfl⟩

theorem terminal_of_reach (h : Reach (Sys.step env) (fun s a => s.live a = true) Sys.init s)
    (h' : Reach (Sys.step env) (fun s a => s.live a = true) s s')
    (hr : s.ledger.indexes.runs[r]? = some run) (ht : run.status.isTerminal = true) :
    ∃ run', s'.ledger.indexes.runs[r]? = some run' ∧ run'.status = run.status := by
  induction h' with
  | init => exact ⟨run, hr, rfl⟩
  | step hbefore hlive hstep ih =>
    obtain ⟨run₁, hr₁, hstatus⟩ := ih
    have hu := (versions_of_reach (h.trans hbefore)).1
    obtain ⟨run₂, hr₂, hstatus'⟩ :=
      (step_updateMove hu hlive hstep).terminal hr₁ (hstatus ▸ ht)
    exact ⟨run₂, hr₂, hstatus'.trans hstatus⟩

end Sys

/--
**No run update is lost.** In every state of live operation, however the calls overlapped: the
version of a run is 1 plus the number of `update_run` calls on it that succeeded, no two of them
expected the same version, and a terminal status stays for good.
-/
theorem no_lost_run_update (env : Env) {s : Sys}
    (h : Reach (Sys.step env) (fun s a => s.live a = true) Sys.init s) (r : Uuid) :
    (∀ run, s.ledger.indexes.runs[r]? = some run →
      run.version = 1 + s.tasks.countP (Task.updated r)) ∧
    (∀ (v : Int) (i j : Nat) (task other : Task), s.tasks[i]? = some task →
      s.tasks[j]? = some other → task.pc.succeeded = true → other.pc.succeeded = true →
      task.request.update = some (r, some v) → other.request.update = some (r, some v) → i = j) ∧
    ∀ (s' : Sys) (run : RunRecord),
      Reach (Sys.step env) (fun s a => s.live a = true) s s' →
      s.ledger.indexes.runs[r]? = some run → run.status.isTerminal = true →
      ∃ run', s'.ledger.indexes.runs[r]? = some run' ∧ run'.status = run.status := by
  have hv := (Sys.versions_of_reach h).2
  refine ⟨hv.counted r, ?_, ?_⟩
  · intro v i j task other
    exact hv.once i j task other r v
  · intro s' run h' hr ht
    exact Sys.terminal_of_reach h h' hr ht

/-- Two overlapping updates that expect version 1: one succeeds, and the version is 2. -/
theorem no_lost_run_update_overlapping :
    ∃ s run, Reach (Sys.step Sample.env) (fun s a => s.live a = true) Sys.init s ∧
      s.ledger.indexes.runs[(1 : Uuid)]? = some run ∧ run.status = .suspended ∧
      s.tasks.map (fun task => task.pc.isDone) = [true, true, true] ∧ run.version = 2 := by
  have hrun : ((Lib.run (Sys.step Sample.env) Sys.live Sys.init
      (Sample.spawn Sample.createRun :: steps 0 1 3
        ++ [Sample.spawn (.updateRun 1 { status := .suspended } (some 1)),
          Sample.spawn (.updateRun 1 { status := .completed } (some 1))]
        ++ steps 1 2 1 ++ steps 2 3 1 ++ steps 1 2 3
        ++ steps 2 3 1)).map fun s =>
          (s.ledger.indexes.runs[(1 : Uuid)]?.map RunRecord.status,
            s.tasks.map (fun task => task.pc.isDone), s.tasks.countP (Task.updated 1)))
      = some (some .suspended, [true, true, true], 1) := by
    decide +kernel
  obtain ⟨s, hreach, he⟩ := exists_reach_of_run hrun
  obtain ⟨hstatus, he⟩ := Prod.mk.inj he
  obtain ⟨hdone, hcount⟩ := Prod.mk.inj he
  obtain ⟨run, hr, hs⟩ := Option.map_eq_some_iff.mp hstatus
  refine ⟨s, run, hreach, hr, hs, hdone, ?_⟩
  rw [(no_lost_run_update Sample.env hreach 1).1 run hr, hcount]
  rfl

end Calod.Ledger
