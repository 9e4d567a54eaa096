import Calod.Ledger.Concurrent

/-!
# The commit lock and the log

One task at a time holds the commit lock, so at most one record is in the log and not yet
acknowledged, and it is the last one.

* `CommitLock` — holds in every state of every run (`CommitLock.of_reach`)
* `settled` is the log without that record. Each kind of step does one thing to it:
  `settled_append`, `settled_commit`, `settled_removeSegment`, and nothing otherwise
-/

namespace Calod.Ledger

open Calod.Core Calod.Storage Lib

variable {pc : Pc} {r : WalRecord RecordKind} {keepUnacked : Bool}

namespace Pc

/-- Outside the commit lock and outside a snapshot's save and truncation. -/
def plain : Pc → Bool
  | .appended _ _ _ | .saving _ _ _ | .truncating _ | .removing _ => false
  | _ => true

theorem holdsCommit_of_plain (h : pc.plain = true) : pc.holdsCommit = false := by
  cases pc <;> first | rfl | cases h

theorem isAppended_of_holdsCommit (h : pc.holdsCommit = false) : pc.isAppended = false := by
  cases pc <;> first | rfl | cases h

theorem holdsCommit_afterSave (watermark : Option WalPosition) :
    (afterSave watermark).holdsCommit = false := by
  cases watermark <;> rfl

theorem Quiet.plain (h : pc.Quiet) : pc.plain = true := by
  cases pc <;> first | rfl | cases h

end Pc

namespace Sys

variable {env : Env} {s s' : Sys} {action : Action} {i : Nat} {task task' : Task}
  {kind : RecordKind} {response : Response} {position : WalPosition}

theorem commitFree_at (h : s.commitFree = true) (hi : s.tasks[i]? = some task) :
    task.pc.holdsCommit = false := by
  unfold commitFree at h
  simpa using List.all_eq_true.mp h task (List.mem_of_getElem? hi)

/-! ## The settled log -/

theorem settled_of_free
    (h : ∀ (i : Nat) (task : Task), s.tasks[i]? = some task → task.pc.isAppended = false) :
    s.settled = s.ledger.wal := by
  unfold settled
  rw [if_pos]
  refine List.all_eq_true.mpr fun task hm => ?_
  obtain ⟨i, hi⟩ := List.mem_iff_getElem?.mp hm
  simp [h i task hi]

theorem settled_of_commitFree (h : s.commitFree = true) : s.settled = s.ledger.wal :=
  settled_of_free fun _ _ hi => Pc.isAppended_of_holdsCommit (commitFree_at h hi)

theorem settled_of_appended (hi : s.tasks[i]? = some task) (h : task.pc.isAppended = true) :
    s.settled = s.ledger.wal.dropLast := by
  unfold settled
  rw [if_neg]
  intro hall
  have := List.all_eq_true.mp hall task (List.mem_of_getElem? hi)
  simp [h] at this

/-- If something is not settled, a task has appended it. -/
theorem exists_appended (h : s.settled ≠ s.ledger.wal) :
    ∃ (i : Nat) (task : Task) (kind : RecordKind) (response : Response) (position : WalPosition),
      s.tasks[i]? = some task ∧ task.pc = .appended kind response position := by
  by_contra hno
  refine h (settled_of_free fun i task hi => ?_)
  cases hpc : task.pc with
  | appended kind response position => exact absurd ⟨i, task, _, _, _, hi, hpc⟩ hno
  | _ => rfl

theorem settled_records_subset (h : r ∈ s.settled.records env.encodedLen) :
    r ∈ s.ledger.wal.records env.encodedLen := by
  unfold settled at h
  split at h
  · exact h
  · exact (Wal.records_dropLast_sublist env.encodedLen).subset h

/-- What is settled survives every crash. -/
theorem settled_records_crashDir (h : r ∈ s.settled.records env.encodedLen) :
    r ∈ replayAll env.encodedLen (s.crashDir keepUnacked).segments := by
  unfold crashDir
  split
  · exact settled_records_subset h
  · exact h

/-- Moving a task does not change whether all have a property that it keeps or lacks as before. -/
theorem all_set {p : Task → Bool} (hi : s.tasks[i]? = some task) (hp : p task' = p task) :
    (s.tasks.set i task').all p = s.tasks.all p := by
  rw [Bool.eq_iff_iff, List.all_eq_true, List.all_eq_true]
  constructor
  · intro h t ht
    obtain ⟨j, hj⟩ := List.mem_iff_getElem?.mp ht
    by_cases hij : i = j
    · subst hij
      cases hi.symm.trans hj
      rw [← hp]
      refine h task' (List.mem_iff_getElem?.mpr ⟨i, ?_⟩)
      rw [getElem?_set_of_some hi, if_pos rfl]
    · refine h t (List.mem_iff_getElem?.mpr ⟨j, ?_⟩)
      rw [getElem?_set_of_some hi, if_neg hij]
      exact hj
  · intro h t ht
    rcases List.mem_or_eq_of_mem_set ht with hm | rfl
    · exact h t hm
    · rw [hp]
      exact h task (List.mem_of_getElem? hi)

/-- Moving a task that neither had nor has a record in the log does not change who has one. -/
theorem appended_all_set (hi : s.tasks[i]? = some task) (hold : task.pc.isAppended = false)
    (hnew : task'.pc.isAppended = false) :
    ((s.tasks.set i task').all fun t => !t.pc.isAppended)
      = s.tasks.all fun t => !t.pc.isAppended :=
  all_set hi (by simp [hold, hnew])

theorem settled_set (hi : s.tasks[i]? = some task) (htasks : s'.tasks = s.tasks.set i task')
    (hwal : s'.ledger.wal = s.ledger.wal) (hold : task.pc.isAppended = false)
    (hnew : task'.pc.isAppended = false) : s'.settled = s.settled := by
  unfold settled
  rw [htasks, hwal, appended_all_set hi hold hnew]

theorem settled_spawn (request : Request) :
    ({ s with tasks := s.tasks ++ [Task.new request] } : Sys).settled = s.settled := by
  unfold settled
  simp only [List.all_append]
  simp [Task.new, Pc.isAppended]

theorem settled_withTask {locks : RunLocks} (hi : s.tasks[i]? = some task)
    (hold : task.pc.holdsCommit = false) (hnew : task'.pc.plain = true) :
    (s.withTask i task' locks).settled = s.settled :=
  settled_set hi rfl rfl (Pc.isAppended_of_holdsCommit hold)
    (Pc.isAppended_of_holdsCommit (Pc.holdsCommit_of_plain hnew))

/-- Appending seals the active file or not; the settled records stay. -/
theorem settled_append (env : Env) (kind : RecordKind) (response : Response)
    (hi : s.tasks[i]? = some task) :
    let t : Sys := { (s.append env task kind response).1 with
      tasks := s.tasks.set i (s.append env task kind response).2 }
    t.settled = s.ledger.wal ∨ t.settled = s.ledger.wal.rollSegment := by
  intro t
  have hat : t.tasks[i]? = some (s.append env task kind response).2 := by
    rw [getElem?_set_of_some hi, if_pos rfl]
  rw [settled_of_appended hat rfl]
  exact (Wal.handleAppend_dropLast ..).1

theorem settled_removeSegment {id : Nat} {ids : List Nat} (hi : s.tasks[i]? = some task)
    (hpc : task.pc = .removing (id :: ids)) :
    let t : Sys := { s with
      ledger := { s.ledger with wal := s.ledger.wal.removeSegment id }
      tasks := s.tasks.set i { task with pc := .removing ids } }
    t.settled = s.settled.removeSegment id := by
  intro t
  have hnew : ({ task with pc := .removing ids } : Task).pc.isAppended = false := rfl
  have hall := appended_all_set hi (by rw [hpc]; rfl) hnew
  unfold settled
  change (if ((s.tasks.set i _).all _) = true then s.ledger.wal.removeSegment id
    else (s.ledger.wal.removeSegment id).dropLast) = _
  rw [hall]
  split <;> rfl

theorem settled_saveManifest (env : Env) {watermark : Option WalPosition}
    {state : PersistedState} {now : Int} (hi : s.tasks[i]? = some task)
    (hpc : task.pc = .saving watermark state now) :
    ({ s with
      disk := s.disk.writeManifest (manifestFor env state watermark now)
      tasks := s.tasks.set i { task with pc := .afterSave watermark } } : Sys).settled
        = s.settled :=
  settled_set hi rfl rfl (by rw [hpc]; rfl)
    (Pc.isAppended_of_holdsCommit (Pc.holdsCommit_afterSave _))

/-- A restart continues the log where it was settled, or later. -/
theorem endPosition_reopen {wal : Wal RecordKind}
    (h : Wal.open env.encodedLen env.config.maxSegmentSize (s.crashDir keepUnacked) = .ok wal) :
    s.settled.endPosition env.encodedLen ≤ wal.endPosition env.encodedLen := by
  unfold crashDir at h
  split at h
  · refine WalPosition.le_trans ?_ (Wal.endPosition_open _ h)
    unfold settled
    split
    · exact WalPosition.le_refl _
    · exact Wal.endPosition_dropLast_le _
  · exact Wal.endPosition_open _ h

theorem endPosition_le_of_settled (h : s'.settled = s.settled) :
    s.settled.endPosition env.encodedLen ≤ s'.settled.endPosition env.encodedLen := by
  rw [h]
  exact WalPosition.le_refl _

/-! ## One holder at a time -/

/-- The commit lock has one holder, and its record is the last of the log. -/
structure CommitLock (env : Env) (s : Sys) : Prop where
  exclusive : ∀ (i j : Nat) (t u : Task), s.tasks[i]? = some t → s.tasks[j]? = some u →
    t.pc.holdsCommit = true → u.pc.holdsCommit = true → i = j
  appended : ∀ (i : Nat) (task : Task) (kind : RecordKind) (response : Response)
    (position : WalPosition), s.tasks[i]? = some task →
    task.pc = .appended kind response position →
    s.ledger.wal = s.ledger.wal.dropLast.writeRecord kind ∧
      position = s.ledger.wal.dropLast.endPosition env.encodedLen

theorem commitLock_init : CommitLock env init where
  exclusive i j t u h := by simp [init] at h
  appended i task kind response position h := by simp [init] at h

/-- A step that leaves the lock with whoever had it, and the log as it was. -/
theorem CommitLock.set (hl : CommitLock env s) (hi : s.tasks[i]? = some task)
    (htasks : s'.tasks = s.tasks.set i task') (hwal : s'.ledger.wal = s.ledger.wal)
    (hnew : task'.pc.holdsCommit = false) : CommitLock env s' where
  exclusive j k t u hj hk ht hu := by
    rw [htasks, getElem?_set_of_some hi] at hj hk
    split at hj
    · cases hj
      rw [hnew] at ht
      cases ht
    · split at hk
      · cases hk
        rw [hnew] at hu
        cases hu
      · exact hl.exclusive j k t u hj hk ht hu
  appended j t kind response position hj hpc := by
    rw [htasks, getElem?_set_of_some hi] at hj
    split at hj
    · cases hj
      rw [hpc] at hnew
      cases hnew
    · rw [hwal]
      exact hl.appended j t kind response position hj hpc

/-- A step in which a task takes the free lock. -/
theorem CommitLock.take (hfree : s.commitFree = true) (hi : s.tasks[i]? = some task)
    (htasks : s'.tasks = s.tasks.set i task')
    (happended : ∀ kind response position, task'.pc = .appended kind response position →
      s'.ledger.wal = s'.ledger.wal.dropLast.writeRecord kind ∧
        position = s'.ledger.wal.dropLast.endPosition env.encodedLen) :
    CommitLock env s' where
  exclusive j k t u hj hk ht hu := by
    rw [htasks, getElem?_set_of_some hi] at hj hk
    split at hj
    · next hij =>
      split at hk
      · next hik => exact hij.symm.trans hik
      · rw [commitFree_at hfree hk] at hu
        cases hu
    · rw [commitFree_at hfree hj] at ht
      cases ht
  appended j t kind response position hj hpc := by
    rw [htasks, getElem?_set_of_some hi] at hj
    split at hj
    · cases hj
      exact happended kind response position hpc
    · have hnot := commitFree_at hfree hj
      rw [hpc] at hnot
      cases hnot

theorem CommitLock.step (hl : CommitLock env s) (h : s.step env action = some s') :
    CommitLock env s' := by
  cases step_moves h with
  | spawn request =>
    refine ⟨fun j k t u hj hk ht hu => ?_, fun j t kind response position hj hpc => ?_⟩
    · rcases getElem?_append_singleton hj with hj | rfl
      · rcases getElem?_append_singleton hk with hk | rfl
        · exact hl.exclusive j k t u hj hk ht hu
        · cases hu
      · cases ht
    · rcases getElem?_append_singleton hj with hj | rfl
      · exact hl.appended j t kind response position hj hpc
      · cases hpc
  | quiet _ locks hi hrequest hpc => exact hl.set hi rfl rfl (Pc.holdsCommit_of_plain hpc.plain)
  | answer hi | list hi => exact hl.set hi rfl rfl rfl
  | persist hi _ _ hpc | persistRunless hi _ _ hpc | waitEffectRun _ hi _ _ hpc
  | persistEffect hi _ _ _ hpc => exact hl.set hi rfl rfl (by rw [hpc]; rfl)
  | saveManifest hi => exact hl.set hi rfl rfl (Pc.holdsCommit_afterSave _)
  | append hi hpc hfree hlen =>
    refine CommitLock.take hfree hi rfl fun k r p hp => ?_
    cases hp
    exact (Wal.handleAppend_dropLast ..).2
  | saveState hi hrequest hpc hfree =>
    exact CommitLock.take hfree hi rfl fun k r p hp => by cases hp
  | commit hi hpc =>
    rename_i i task draws kind response position
    refine hl.set hi rfl (commit_frame ..).1 ?_
    unfold Sys.commit
    split <;> rfl
  | remove hi hrequest hpc =>
    rename_i i task draws id ids
    -- deleting a sealed file commutes with the last record of the active one
    have hset : CommitLock env
        { s with tasks := s.tasks.set i { task with pc := .removing ids } } :=
      hl.set hi rfl rfl rfl
    refine ⟨hset.exclusive, fun j t kind response position hj hpc' => ?_⟩
    obtain ⟨hwal, hpos⟩ := hset.appended j t kind response position hj hpc'
    exact ⟨congrArg (fun w => Wal.removeSegment w id) hwal, hpos⟩
  | reopen ho =>
    refine ⟨?_, ?_⟩
    · intro j k t u hj
      cases hj
    · intro j t kind response position hj
      cases hj

theorem CommitLock.of_reach {P : Sys → Action → Prop} (h : Reach (Sys.step env) P init s) :
    CommitLock env s :=
  h.invariant commitLock_init fun _ _ _ hi _ hs => hi.step hs

/-- The holder's record ends the log; the rest is settled. -/
theorem CommitLock.settled_appended (hl : CommitLock env s) (hi : s.tasks[i]? = some task)
    (hpc : task.pc = .appended kind response position) :
    s.ledger.wal = s.settled.writeRecord kind ∧
      position = s.settled.endPosition env.encodedLen := by
  rw [settled_of_appended hi (by rw [hpc]; rfl)]
  exact hl.appended i task kind response position hi hpc

/-- The record in the log is past the settled end. -/
theorem CommitLock.endPosition_lt (hl : CommitLock env s) (hi : s.tasks[i]? = some task)
    (hpc : task.pc = .appended kind response position) :
    s.settled.endPosition env.encodedLen < s.ledger.wal.endPosition env.encodedLen := by
  rw [(hl.settled_appended hi hpc).1]
  exact Wal.endPosition_lt_writeRecord _ kind

/-- Acknowledging the record settles it. -/
theorem CommitLock.settled_commit (hl : CommitLock env s) (hi : s.tasks[i]? = some task)
    (hpc : task.pc = .appended kind response position) :
    let t : Sys := { (s.commit task kind response position).1 with
      tasks := s.tasks.set i (s.commit task kind response position).2 }
    t.settled = s.ledger.wal := by
  intro t
  have hwal : t.ledger.wal = s.ledger.wal := (commit_frame ..).1
  rw [← hwal]
  refine settled_of_free fun j u hj => ?_
  rw [getElem?_set_of_some hi] at hj
  split at hj
  · cases hj
    unfold Sys.commit
    split <;> rfl
  · next hij =>
    -- the only holder was task `i`
    cases hu : u.pc.isAppended with
    | false => rfl
    | true =>
      have hh : u.pc.holdsCommit = true := by
        cases hp : u.pc <;> simp [hp, Pc.isAppended, Pc.holdsCommit] at hu ⊢
      exact absurd (hl.exclusive i j task u hi hj (by rw [hpc]; rfl) hh) hij

end Sys

end Calod.Ledger
