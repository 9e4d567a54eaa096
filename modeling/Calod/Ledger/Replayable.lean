import Calod.Ledger.CommitLock
import Calod.Ledger.Decoding
import Calod.Ledger.Heads

/-!
# The log can be replayed

`persist` appends a record and applies it afterwards. If applying fails, the record is in the
log for good, and `open` fails on it. `apply_retention` takes neither partition nor run locks,
so it can remove a run whose next event is already built (`log_cannot_be_replayed`).

* `log_replays` — as long as no run is removed while another call holds an event or an update
  of it, and no call brings along a value that nests too deep to be read back, every appended
  record applies, the log replays at any time, and no call fails after its record became durable.
* `Sys.Meets` — what is asked of the values that calls bring along holds of the log

Events built on an old head are no problem here: `Follows` survives a growing timeline, and
`apply_event` takes such an event as covered.
-/

namespace Calod.Ledger

open Calod.Core Calod.Storage Lib Ledger.Sample Sys

/-! ## The condition on a step -/

namespace Sys

/-- Calls only: no snapshot, no reopening. -/
def callsOnly (_ : Sys) : Action → Bool
  | .spawn .snapshot | .reopen _ => false
  | _ => true

/-- No run is removed while another call holds an event or an update of it. -/
def noStaleRetention (s : Sys) (action : Action) : Bool :=
  match s.commits action with
  | some (i, .retentionApplied _ runIds _) =>
    runIds.all fun r => s.othersAll i fun other => !other.updatesRun r && !other.appendsTo r
  | _ => true

/-- Calls bring along only values that meet the standard. -/
def spawnsMeeting (t : Standard) (_ : Sys) : Action → Bool
  | .spawn (.call _ made) => made.meets t
  | _ => true

theorem noStaleRetention_commits {s : Sys} {action : Action} {i j : Nat} {cutoff : Int}
    {runIds effectIds : List Uuid} {other : RecordKind} {r : Uuid}
    (h : s.noStaleRetention action = true)
    (hc : s.commits action = some (i, .retentionApplied cutoff runIds effectIds)) (hr : r ∈ runIds)
    (hne : j ≠ i) (hj : s.pendingAt j = some other) :
    (∀ run, other = .runUpdated run → run.id ≠ r) ∧
      ∀ event, other.event = some event → event.runId ≠ r := by
  unfold noStaleRetention at h
  rw [hc] at h
  exact RecordKind.leaves_run (othersAll_pending (List.all_eq_true.mp h r hr) hj hne)

end Sys

variable {env : Env}

namespace Sys

variable {s s' : Sys} {action : Action}

/-- Records in flight fit, in every run whose steps meet the condition. -/
theorem fits_of_reach
    (h : Reach (step env) (fun s a => (s.callsOnly a && s.noStaleRetention a) = true)
      init s) :
    InFlight (fun idx => idx.Keyed ∧ idx.HeadsValid) Indexes.Fits s := by
  refine inFlight_of_reach ?_ ⟨Indexes.keyed_empty, Indexes.headsValid_empty⟩ ?_ ?_ ?_ h
  · intro s keep hc
    cases (Bool.and_eq_true_iff.mp hc).1
  · rintro idx scope kind ⟨hk, hv⟩ hb
    exact hv.fits hk hb
  · intro s action i kind _ hcommits hi
    have hf := hi.2 i kind (commits_pending hcommits)
    exact ⟨hi.1.1.apply kind, hf.headsValid hi.1.2⟩
  · intro s action i kind j other hc hcommits hi hne hj
    refine (hi.2 j other hj).apply ?_
    rintro cutoff runIds effectIds rfl r hr
    exact noStaleRetention_commits (Bool.and_eq_true_iff.mp hc).2 hcommits hr hne hj

end Sys

/-! ## What is stored can be read back -/

def Pc.Meets (t : Standard) : Pc → Prop
  | .waitEffectRun _ change _ _ => change.Meets t
  | .waitCommit kind _ | .appended kind _ _ => kind.meets t = true
  | _ => True

theorem Pc.Quiet.meets {t : Standard} {pc : Pc} (h : pc.Quiet) : pc.Meets t := by
  cases pc with
  | waitEffectRun | waitCommit | appended => cases h
  | _ => trivial

theorem Pc.meets_afterSave {t : Standard} (watermark : Option WalPosition) :
    (Pc.afterSave watermark).Meets t := by
  cases watermark <;> trivial

structure Task.Meets (t : Standard) (task : Task) : Prop where
  call : ∀ scope made, task.request = .call scope made → made.meets t = true
  pc : task.pc.Meets t

namespace Sys

/-- Indexes, calls and log keep to the standard. -/
structure Meets (t : Standard) (env : Env) (s : Sys) : Prop where
  indexes : s.ledger.indexes.Meets t
  tasks : ∀ task ∈ s.tasks, task.Meets t
  log : ∀ r ∈ s.ledger.wal.records env.encodedLen, r.payload.meets t = true

variable {t : Standard} {s s' : Sys} {action : Action}

theorem meets_init : Meets t env init where
  indexes := Indexes.meets_empty
  tasks task h := by cases h
  log r h := by cases h

theorem Meets.pending (hm : Meets t env s) {i : Nat} {kind : RecordKind}
    (h : s.pendingAt i = some kind) : kind.meets t = true := by
  obtain ⟨task, hi, hp⟩ := Option.bind_eq_some_iff.mp h
  have hpc := (hm.tasks task (List.mem_of_getElem? hi)).pc
  cases he : task.pc with
  | waitCommit | appended =>
    rw [he] at hp hpc
    cases hp
    exact hpc
  | _ =>
    rw [he] at hp
    cases hp

/-- The task that moves goes on with what meets the standard. -/
theorem Meets.tasks_set (hm : Meets t env s) {i : Nat} {task task' : Task}
    (hi : s.tasks[i]? = some task) (hrequest : task'.request = task.request)
    (hpc : task'.pc.Meets t) : ∀ u ∈ s.tasks.set i task', u.Meets t := by
  intro u hu
  rcases List.mem_or_eq_of_mem_set hu with hmem | rfl
  · exact hm.tasks u hmem
  · exact ⟨fun scope made h => (hm.tasks task (List.mem_of_getElem? hi)).call scope made
      (hrequest.symm.trans h), hpc⟩

/-- **Every step keeps to the standard** that the new calls and the reopened indexes meet. -/
theorem Meets.step (hm : Meets t env s) (hp : t.Plain)
    (hspawn : s.spawnsMeeting t action = true)
    (hreopen : ∀ keepUnacked ledger, action = .reopen keepUnacked →
      Ledger.open env s.disk (s.crashDir keepUnacked) = .ok ledger → ledger.indexes.Meets t)
    (h : s.step env action = some s') : Meets t env s' := by
  have hmoves := step_moves h
  have hlog : ∀ r ∈ s'.ledger.wal.records env.encodedLen, r.payload.meets t = true := by
    intro r hr
    rcases hmoves.records r hr with hr | ⟨i, hi⟩
    · exact hm.log r hr
    · exact hm.pending hi
  have hcall : ∀ {i : Nat} {task : Task} {scope made}, s.tasks[i]? = some task →
      task.request = .call scope made → made.meets t = true := fun hi hrequest =>
    (hm.tasks _ (List.mem_of_getElem? hi)).call _ _ hrequest
  cases hmoves with
  | spawn request =>
    refine ⟨hm.indexes, fun u hu => ?_, hlog⟩
    rcases List.mem_append.mp hu with hu | hu
    · exact hm.tasks u hu
    · rw [List.mem_singleton.mp hu]
      refine ⟨fun scope made hrequest => ?_, trivial⟩
      cases hrequest
      exact hspawn
  | quiet _ locks hi hrequest hpc =>
    exact ⟨hm.indexes, hm.tasks_set hi hrequest hpc.meets, hlog⟩
  | answer hi | saveState hi | list hi | remove hi =>
    exact ⟨hm.indexes, hm.tasks_set hi rfl trivial, hlog⟩
  | persist hi hrequest hrequest' hpc hu =>
    refine ⟨hm.indexes, hm.tasks_set hi hrequest' ?_, hlog⟩
    rw [hpc]
    exact meets_persist hm.indexes (hcall hi hrequest) hu
  | persistRunless hi hrequest hrequest' hpc hrun hu =>
    refine ⟨hm.indexes, hm.tasks_set hi hrequest' ?_, hlog⟩
    rw [hpc]
    exact Bool.and_eq_true_iff.mpr ⟨(meets_effect hp hm.indexes (hcall hi hrequest) hu).effect, rfl⟩
  | waitEffectRun locks hi hrequest hrequest' hpc hu =>
    refine ⟨hm.indexes, hm.tasks_set hi hrequest' ?_, hlog⟩
    rw [hpc]
    exact meets_effect hp hm.indexes (hcall hi hrequest) hu
  | persistEffect hi hrequest hrequest' hold hpc hevent =>
    refine ⟨hm.indexes, hm.tasks_set hi hrequest' ?_, hlog⟩
    have hchange := (hm.tasks _ (List.mem_of_getElem? hi)).pc
    rw [hold] at hchange
    rw [hpc]
    exact meets_buildEffectEvent hp hchange hevent
  | append hi hpc =>
    refine ⟨hm.indexes, hm.tasks_set hi rfl ?_, hlog⟩
    have hkind := (hm.tasks _ (List.mem_of_getElem? hi)).pc
    rw [hpc] at hkind
    exact hkind
  | commit hi hpc =>
    rename_i i task draws kind response position
    have hkind := (hm.tasks _ (List.mem_of_getElem? hi)).pc
    rw [hpc] at hkind
    obtain ⟨result, hfinish⟩ := finish_commit s task kind response position
    refine ⟨?_, hm.tasks_set hi (by rw [hfinish]; rfl) (by rw [hfinish]; trivial), hlog⟩
    show Indexes.Meets t (s.commit task kind response position).1.ledger.indexes
    rw [indexes_commit]
    exact hm.indexes.apply hkind
  | saveManifest hi =>
    exact ⟨hm.indexes, hm.tasks_set hi rfl (Pc.meets_afterSave _), hlog⟩
  | reopen ho => exact ⟨hreopen _ _ rfl ho, fun u hu => (by cases hu), hlog⟩

end Sys

/-! ## The log -/

/-- The call returned an error although its record is in the log. -/
def Task.failedAfterAppend (task : Task) : Bool :=
  match task.pc with
  | .done (.error _) (some _) => true
  | _ => false

namespace Sys

variable {s s' : Sys} {action : Action}

/-- Replaying the settled log from nothing gives the indexes. -/
structure Replays (env : Env) (s : Sys) : Prop where
  disk : s.disk = .empty
  calls : ∀ task ∈ s.tasks, task.request ≠ .snapshot
  log : replay .empty ((s.settled.records env.encodedLen).map WalRecord.payload)
    = .ok s.ledger.indexes
  durable : ∀ task ∈ s.tasks, task.failedAfterAppend = false

theorem replays_init : Replays env init where
  disk := rfl
  calls task h := by cases h
  log := rfl
  durable task h := by cases h

/-- A step that moves one task and leaves the settled log and the indexes alone. -/
theorem Replays.set {i : Nat} {task task' : Task} (hr : Replays env s)
    (hi : s.tasks[i]? = some task) (htasks : s'.tasks = s.tasks.set i task')
    (hrequest : task'.request = task.request) (hpc : task'.failedAfterAppend = false)
    (hdisk : s'.disk = s.disk)
    (hlog : replay .empty ((s'.settled.records env.encodedLen).map WalRecord.payload)
      = .ok s'.ledger.indexes) : Replays env s' where
  disk := hdisk.trans hr.disk
  calls t ht := by
    rw [htasks] at ht
    rcases List.mem_or_eq_of_mem_set ht with hm | rfl
    · exact hr.calls t hm
    · rw [hrequest]
      exact hr.calls task (List.mem_of_getElem? hi)
  log := hlog
  durable t ht := by
    rw [htasks] at ht
    rcases List.mem_or_eq_of_mem_set ht with hm | rfl
    · exact hr.durable t hm
    · exact hpc

theorem Replays.step (hr : Replays env s) (hl : CommitLock env s)
    (hf : InFlight (fun idx => idx.Keyed ∧ idx.HeadsValid) Indexes.Fits s)
    (hcalls : s.callsOnly action = true) (h : s.step env action = some s') : Replays env s' := by
  -- a call that has not yet got to the commit lock
  have hplain : ∀ {i} {task task'} {locks}, s.tasks[i]? = some task →
      task.pc.holdsCommit = false → task'.request = task.request → task'.pc.plain = true →
      task'.failedAfterAppend = false → Replays env (s.withTask i task' locks) := by
    intro i task task' locks hi hbefore hrequest hpc hok
    refine hr.set hi rfl hrequest hok rfl ?_
    rw [settled_withTask hi hbefore hpc]
    exact hr.log
  -- there are no snapshots
  have hsnapshot : ∀ {i} {task : Task}, s.tasks[i]? = some task →
      task.request ≠ .snapshot := fun hi => hr.calls _ (List.mem_of_getElem? hi)
  cases step_moves h with
  | spawn request =>
    have hrequest : request ≠ .snapshot := by
      rintro rfl
      cases hcalls
    refine ⟨hr.disk, fun t ht => ?_, ?_, fun t ht => ?_⟩
    · rcases List.mem_append.mp ht with hm | hm
      · exact hr.calls t hm
      · rw [List.mem_singleton.mp hm]
        exact hrequest
    · rw [settled_spawn]
      exact hr.log
    · rcases List.mem_append.mp ht with hm | hm
      · exact hr.durable t hm
      · rw [List.mem_singleton.mp hm]
        rfl
  | quiet _ locks hi hrequest hpc hbefore =>
    refine hplain hi hbefore hrequest hpc.plain ?_
    unfold Task.failedAfterAppend
    split
    · next hpc' => simp [hpc', Pc.Quiet] at hpc
    · rfl
  | answer hi hrequest hu hbefore => exact hplain hi hbefore rfl rfl rfl
  | persist hi _ hrequest' hpc _ hbefore | persistRunless hi _ hrequest' hpc _ _ hbefore
  | waitEffectRun _ hi _ hrequest' hpc _ hbefore =>
    exact hplain hi hbefore hrequest' (by rw [hpc]; rfl) (by rw [Task.failedAfterAppend, hpc])
  | persistEffect hi hrequest hrequest' hold hpc hevent =>
    exact hplain hi (by rw [hold]; rfl) hrequest' (by rw [hpc]; rfl)
      (by rw [Task.failedAfterAppend, hpc])
  | append hi hpc hfree hlen =>
    refine hr.set hi rfl rfl rfl rfl ?_
    have hlog := hr.log
    rw [settled_of_commitFree hfree] at hlog
    rcases settled_append env _ _ hi with hs | hs <;> rw [hs]
    · exact hlog
    · rw [Wal.records_rollSegment]
      exact hlog
  | commit hi hpc =>
    rename_i i task draws kind response position
    have hpending := pendingAt_of_pc hi (show task.pc.pending = some kind by rw [hpc]; rfl)
    have hok := (hf.2 i kind hpending).apply_ok
    have happly : s.ledger.indexes.apply kind = ((s.ledger.indexes.apply kind).1, .ok ()) :=
      Prod.ext rfl hok
    refine hr.set hi rfl ?_ ?_ (commit_frame ..).2 ?_
    · unfold commit
      rw [happly]
      rfl
    · unfold commit
      rw [happly]
      rfl
    · rw [hl.settled_commit hi hpc, (hl.settled_appended hi hpc).1, Wal.records_writeRecord,
        List.map_append, List.map_singleton, replay_append kind hr.log, replay_singleton hok]
      unfold commit
      rw [happly]
  | saveState hi hrequest | saveManifest hi hrequest | list hi hrequest | remove hi hrequest =>
    exact absurd hrequest (hsnapshot hi)
  | reopen ho => cases hcalls

theorem replays_of_reach
    (h : Reach (step env) (fun s a => (s.callsOnly a && s.noStaleRetention a) = true)
      init s) : Replays env s := by
  refine h.invariant_of_reach replays_init ?_
  intro s action s' hreach hi hc hstep
  exact hi.step (CommitLock.of_reach hreach) (fits_of_reach hreach)
    (Bool.and_eq_true_iff.mp hc).1 hstep

/-- Also with the unacknowledged record, the log replays. -/
theorem Replays.crashDir (hr : Replays env s) (hl : CommitLock env s)
    (hf : InFlight (fun idx => idx.Keyed ∧ idx.HeadsValid) Indexes.Fits s) (keepUnacked : Bool) :
    ∃ idx, replay .empty ((replayAll env.encodedLen (s.crashDir keepUnacked).segments).map
      WalRecord.payload) = .ok idx := by
  unfold Sys.crashDir
  split
  · change ∃ idx, replay _ ((s.ledger.wal.records env.encodedLen).map _) = _
    by_cases hfree : s.settled = s.ledger.wal
    · exact ⟨_, hfree ▸ hr.log⟩
    · obtain ⟨i, task, kind, response, position, hi, hpc⟩ := exists_appended hfree
      have hpending := pendingAt_of_pc hi (show task.pc.pending = some kind by rw [hpc]; rfl)
      rw [(hl.settled_appended hi hpc).1, Wal.records_writeRecord, List.map_append,
        List.map_singleton, replay_append kind hr.log,
        replay_singleton (hf.2 i kind hpending).apply_ok]
      exact ⟨_, rfl⟩
  · exact ⟨_, hr.log⟩

end Sys

/-- Replay reads every record when there is no snapshot. -/
theorem replayed_none (env : Env) (dir : WalDir RecordKind) :
    replayed env none dir = (replayAll env.encodedLen dir.segments).map WalRecord.payload := by
  have hall : (replayAll env.encodedLen dir.segments).filter (uncovered none)
      = replayAll env.encodedLen dir.segments :=
    List.filter_eq_self.mpr fun _ _ => rfl
  rw [replayed, hall]

/-- A log that replays opens, or the configuration is refused. -/
theorem openFiles_ne_corruption {rereadF64 : UInt64 → UInt64} {dir : WalDir RecordKind}
    {idx : Indexes}
    (h : replay .empty ((replayAll env.encodedLen dir.segments).map WalRecord.payload) = .ok idx)
    (hlog : ∀ r ∈ replayAll env.encodedLen dir.segments,
      r.payload.meets (.readable walDepth) = true) (message : String) :
    openFiles rereadF64 env .empty dir ≠ .error (.corruption message) := by
  have hload : loadFiles rereadF64 env .empty = .ok (.empty, none) := rfl
  obtain ⟨idx', hreplay⟩ := replayFiles_ok rereadF64 (fun _ => rfl) (fun kind hkind => by
    obtain ⟨r, hr, rfl⟩ := List.mem_map.mp hkind
    exact hlog r hr) h
  rw [← replayed_none] at hreplay
  unfold openFiles
  rw [hload]
  cases hwal : Wal.open env.encodedLen env.config.maxSegmentSize dir with
  | ok wal =>
    simp only [bind, Except.bind, hreplay]
    rintro ⟨⟩
  | error error =>
    simp only [bind, Except.bind, hreplay]
    unfold Wal.open at hwal
    split at hwal
    · cases hwal
      rintro ⟨⟩
    · split at hwal
      · cases hwal
      · split at hwal <;> cases hwal

namespace Sys

/-- The condition on a step: calls only, none with a value that nests too deep, and no run removed
while another call holds an event or an update of it. -/
def replayable (s : Sys) (action : Action) : Bool :=
  s.callsOnly action && s.noStaleRetention action && s.spawnsMeeting (.readable walDepth) action

variable {s : Sys}

theorem meets_of_replayable (h : Reach (step env) (fun s a => s.replayable a = true) init s) :
    Meets (.readable walDepth) env s := by
  refine h.invariant meets_init ?_
  intro s action s' hm hc hstep
  obtain ⟨hc, hspawn⟩ := Bool.and_eq_true_iff.mp hc
  refine hm.step (Standard.plain_readable (by decide)) hspawn ?_ hstep
  rintro keep ledger rfl
  cases (Bool.and_eq_true_iff.mp hc).1

end Sys

/--
**The log can be replayed**, as long as no run is removed while another call holds an event or
an update of it, and no value nests too deep: every appended record applies, no crash leaves a log
that `open` calls corrupt, and no call fails after its record became durable.
-/
theorem log_replays (env : Env) {s : Sys}
    (h : Reach (step env) (fun s a => s.replayable a = true) init s) :
    (∀ (i : Nat) (task : Task) kind response position, s.tasks[i]? = some task →
      task.pc = .appended kind response position → (s.ledger.indexes.apply kind).2 = .ok ()) ∧
    (∀ rereadF64 keepUnacked message,
      openFiles rereadF64 env s.disk (s.crashDir keepUnacked) ≠ .error (.corruption message)) ∧
    ∀ task ∈ s.tasks, task.failedAfterAppend = false := by
  have hcalls : Reach (step env) (fun s a => (s.callsOnly a && s.noStaleRetention a) = true)
      init s := h.mono fun _ _ hc => (Bool.and_eq_true_iff.mp hc).1
  have hr := replays_of_reach hcalls
  have hf := fits_of_reach hcalls
  refine ⟨fun i task kind response position hi hpc => ?_, fun f keep message => ?_, hr.durable⟩
  · exact (hf.2 i kind (pendingAt_of_pc hi (by rw [hpc]; rfl))).apply_ok
  · obtain ⟨idx, hidx⟩ := hr.crashDir (CommitLock.of_reach h) hf keep
    rw [hr.disk]
    refine openFiles_ne_corruption hidx (fun r hm => ?_) message
    exact (meets_of_replayable h).log r ((crashDir_records_sublist env s keep).subset hm)

namespace Sample

/-- A run with one event is completed; task 3 is then about to commit its next event. -/
def completedRun : List Sys.Action :=
  spawn createRun :: steps 0 1 3
    ++ spawn (appendEvent 1) :: steps 1 2 4
    ++ spawn (updateRun 1 .completed) :: steps 2 3 4
    ++ spawn (appendEvent 1) :: steps 3 4 2

end Sample

/-- The event is committed before the run is removed: nothing fails. -/
theorem log_replays_in_turn :
    ∃ s, Reach (step Sample.env) (fun s a => s.replayable a = true) init s ∧
      s.tasks.length = 5 ∧ s.ledger.indexes.runs[(1 : Uuid)]?.isNone = true ∧
      (∀ rereadF64 keepUnacked message, openFiles rereadF64 Sample.env s.disk
        (s.crashDir keepUnacked) ≠ .error (.corruption message)) ∧
      ∀ task ∈ s.tasks, task.failedAfterAppend = false := by
  have hrun : ((Lib.run (step Sample.env) replayable
      init (completedRun ++ steps 3 4 2
        ++ Sample.spawn retention :: steps 4 5 3)).map fun s =>
          (s.tasks.length, s.ledger.indexes.runs[(1 : Uuid)]?.isNone)) = some (5, true) := by
    decide +kernel
  obtain ⟨s, hreach, he⟩ := exists_reach_of_run hrun
  obtain ⟨hlen, hnone⟩ := Prod.mk.inj he
  exact ⟨s, hreach, hlen, hnone, (log_replays Sample.env hreach).2⟩

/-- The message of a corruption error. -/
def corruption {α : Type} : Except PersistenceError α → Option String
  | .error (.corruption message) => some message
  | _ => none

/--
**Retention between building and committing an event poisons the log.** The run is removed while
its second event waits for the commit lock. The event is appended, does not apply, its call
fails, and `open` refuses the log.
-/
theorem log_cannot_be_replayed :
    ∃ s, Reach (step Sample.env) (fun s a => s.callsOnly a = true) init s ∧
      s.tasks.map Task.failedAfterAppend = [false, false, false, true, false] ∧
      openFiles id Sample.env s.disk (s.crashDir true) = .error (.corruption
        "run 00000000-0000-0000-0000-000000000001 event sequence gap: have 0, got 2") := by
  have hrun : ((Lib.run (step Sample.env) callsOnly init
      (completedRun ++ Sample.spawn retention :: steps 4 5 3
        ++ steps 3 4 2)).map fun s =>
          (s.tasks.map Task.failedAfterAppend,
            corruption (openFiles id Sample.env s.disk (s.crashDir true))))
      = some ([false, false, false, true, false],
        some "run 00000000-0000-0000-0000-000000000001 event sequence gap: have 0, got 2") := by
    decide +kernel
  obtain ⟨s, hreach, he⟩ := exists_reach_of_run hrun
  obtain ⟨hfailed, hopen⟩ := Prod.mk.inj he
  refine ⟨s, hreach, hfailed, ?_⟩
  unfold corruption at hopen
  split at hopen
  · next ho =>
    cases hopen
    exact ho
  · cases hopen

end Calod.Ledger
