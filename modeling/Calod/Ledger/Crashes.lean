import Calod.Ledger.Histories
import Calod.Ledger.Truncation

/-!
# What a crash leaves can be opened

`Calod/Ledger/Truncation.lean` says which records are still there after a crash. Here `open` gets
on with them. It refuses the directory if the crash falls between state file and manifest, if a
record does not apply or cannot be decoded, and it rebuilds something else if a snapshot stored
records past its watermark. Outside of these:

* `acked_recovered` — whatever calls, snapshots, crashes and reopens overlap or follow each other,
  `open` succeeds after a crash and gives back runs, effects, events and checkpoints: with all
  acknowledged records, and with the unacknowledged one if it survived.

`Saves` is the invariant that carries this: either no save is in progress, and the directories give
back the indexes; or a state file was just collected that has all of the log.
-/

namespace Calod.Ledger

open Calod.Core Calod.Storage Lib Ledger.Sample Sys

def Pc.isSaving : Pc → Bool
  | .saving _ _ _ => true
  | _ => false

theorem Pc.isSaving_of_holdsCommit {pc : Pc} (h : pc.holdsCommit = false) :
    pc.isSaving = false := by
  cases pc <;> first | rfl | cases h

namespace Sys

variable {rereadF64 : UInt64 → UInt64} {env : Env} {s s' : Sys} {action : Action} {i : Nat}
  {task task' : Task} {kind : RecordKind} {response : Response} {position : WalPosition}

/-! ## The condition on a step -/

/-- No task is between state file and manifest. -/
def saveFree (s : Sys) : Bool := s.tasks.all fun task => !task.pc.isSaving

/--
A state file is written when no record is past `last_wal_position`, and of what can be read back
as it was; no crash falls between it and its manifest.
-/
def savesExactly (rereadF64 : UInt64 → UInt64) (env : Env) (s : Sys) : Action → Bool
  | .step i _ =>
    match s.tasks[i]?.map Task.pc with
    | some .waitSnapshot =>
      ((s.ledger.wal.records env.encodedLen).all fun r =>
        !uncovered s.ledger.lastWalPosition r) &&
        s.ledger.indexes.collectState.meets (.exact rereadF64 stateDepth)
    | _ => true
  | .reopen _ => s.saveFree
  | _ => true

def crashSafe (rereadF64 : UInt64 → UInt64) (env : Env) (s : Sys) (action : Action) : Bool :=
  s.truncatesCovered env action && s.noStaleRetention action &&
    s.spawnsMeeting (.exact rereadF64 walDepth) action && s.savesExactly rereadF64 env action

/-! ## Saves -/

/-- The directories without the unacknowledged record give back the indexes. -/
def Recovered (env : Env) (s : Sys) : Prop :=
  ∃ base idx, loadIndexes env s.disk = .ok (base, s.disk.watermark) ∧
    replay base (replayed env s.disk.watermark s.settled.dir) = .ok idx ∧
    idx.Same s.ledger.indexes

structure Saves (env : Env) (s : Sys) : Prop where
  idle : s.saveFree = true → s.Recovered env
  saving : ∀ (i : Nat) (task : Task) watermark state now, s.tasks[i]? = some task →
    task.pc = .saving watermark state now →
      state = s.ledger.indexes.collectState ∧ s.disk.stateFile = some state ∧
        replayed env watermark s.settled.dir = []

theorem saves_init : Saves env init where
  idle _ := ⟨.empty, .empty, rfl, rfl, .refl _⟩
  saving i task watermark state now h := by simp [init] at h

theorem replayed_congr {watermark : Option WalPosition} {wal wal' : Wal RecordKind}
    (h : wal'.records env.encodedLen = wal.records env.encodedLen) :
    replayed env watermark wal'.dir = replayed env watermark wal.dir :=
  congrArg (fun records => (records.filter (uncovered watermark)).map WalRecord.payload) h

/--
A step that moves one task outside a save, and changes nothing of what is replayed past the
manifest or past a save that covers the log.
-/
theorem Saves.set (hs : Saves env s) (hi : s.tasks[i]? = some task)
    (htasks : s'.tasks = s.tasks.set i task')
    (hindexes : s'.ledger.indexes = s.ledger.indexes) (hdisk : s'.disk = s.disk)
    (hold : task.pc.isSaving = false) (hnew : task'.pc.isSaving = false)
    (hlog : ∀ watermark,
      watermark = s.disk.watermark ∨ replayed env watermark s.settled.dir = [] →
        replayed env watermark s'.settled.dir = replayed env watermark s.settled.dir) :
    Saves env s' where
  idle hfree := by
    unfold saveFree at hfree
    rw [htasks, all_set hi (by rw [hold, hnew])] at hfree
    obtain ⟨base, idx, hload, hreplay, hsame⟩ := hs.idle hfree
    rw [Recovered, hdisk, hindexes, hlog _ (Or.inl rfl)]
    exact ⟨base, idx, hload, hreplay, hsame⟩
  saving j u watermark state now hj hpc := by
    rw [htasks, getElem?_set_of_some hi] at hj
    split at hj
    · cases hj
      rw [hpc] at hnew
      cases hnew
    · obtain ⟨hstate, hfile, hnil⟩ := hs.saving j u watermark state now hj hpc
      rw [hindexes, hdisk, hlog watermark (Or.inr hnil)]
      exact ⟨hstate, hfile, hnil⟩

/-- Who holds the commit lock without saving keeps others from saving. -/
theorem saveFree_of_appended (hl : CommitLock env s) (hi : s.tasks[i]? = some task)
    (hpc : task.pc.isAppended = true) : s.saveFree = true := by
  have hholds : task.pc.holdsCommit = true := by
    cases hp : task.pc <;> simp [hp, Pc.isAppended, Pc.holdsCommit] at hpc ⊢
  refine List.all_eq_true.mpr fun u hu => ?_
  obtain ⟨j, hj⟩ := List.mem_iff_getElem?.mp hu
  cases hsaving : u.pc.isSaving with
  | false => rfl
  | true =>
    have hholds' : u.pc.holdsCommit = true := by
      cases hp : u.pc <;> simp [hp, Pc.isSaving, Pc.holdsCommit] at hsaving ⊢
    cases hl.exclusive i j task u hi hj hholds hholds'
    cases hi.symm.trans hj
    cases hp : task.pc <;> simp [hp, Pc.isSaving, Pc.isAppended] at hsaving hpc

/-- The unacknowledged record is replayed after all others. -/
theorem replayed_appended (hl : CommitLock env s) (hc : Covered env s)
    (hi : s.tasks[i]? = some task) (hpc : task.pc = .appended kind response position) :
    replayed env s.disk.watermark s.ledger.wal.dir
      = replayed env s.disk.watermark s.settled.dir ++ [kind] := by
  obtain ⟨hwal, hpos⟩ := hl.settled_appended hi hpc
  have huncovered : uncovered s.disk.watermark
      { position := s.settled.endPosition env.encodedLen, payload := kind } = true := by
    unfold uncovered
    cases hw : s.disk.watermark with
    | none => rfl
    | some w =>
      obtain ⟨last, hlast, hle⟩ := hc.manifest w hw
      have hlt := WalPosition.lt_of_le_of_lt hle (hc.last last hlast)
      simp [WalPosition.not_le_of_lt hlt]
  unfold replayed
  change ((Wal.records env.encodedLen s.ledger.wal).filter _).map _ = _
  rw [hwal, Wal.records_writeRecord, List.filter_append, List.map_append,
    List.filter_cons_of_pos huncovered]
  rfl

/-- **Replaying also the unacknowledged record applies it.** -/
theorem Saves.appended (hs : Saves env s) (hl : CommitLock env s) (hc : Covered env s)
    (hi : s.tasks[i]? = some task) (hpc : task.pc = .appended kind response position)
    (hf : s.ledger.indexes.Fits kind) :
    ∃ base idx, loadIndexes env s.disk = .ok (base, s.disk.watermark) ∧
      replay base (replayed env s.disk.watermark s.ledger.wal.dir) = .ok idx ∧
      idx.Same (s.ledger.indexes.apply kind).1 := by
  obtain ⟨base, idx, hload, hreplay, hsame⟩ :=
    hs.idle (saveFree_of_appended hl hi (by rw [hpc]; rfl))
  obtain ⟨hsame', hresult⟩ := hsame.apply kind
  refine ⟨base, (idx.apply kind).1, hload, ?_, hsame'⟩
  rw [replayed_appended hl hc hi hpc, replay_append kind hreplay,
    replay_singleton (hresult.trans hf.apply_ok)]

/-- **After a crash outside a save, `open` finds the acknowledged state**, or one record more. -/
theorem Saves.crash (hs : Saves env s) (hl : CommitLock env s) (hc : Covered env s)
    (hf : ∀ i kind, s.pendingAt i = some kind → s.ledger.indexes.Fits kind)
    (hfree : s.saveFree = true) (keepUnacked : Bool) :
    ∃ base idx, loadIndexes env s.disk = .ok (base, s.disk.watermark) ∧
      replay base (replayed env s.disk.watermark (s.crashDir keepUnacked)) = .ok idx ∧
      (idx.Same s.ledger.indexes ∨
        ∃ task ∈ s.tasks, ∃ kind response position, task.pc = .appended kind response position ∧
          idx.Same (s.ledger.indexes.apply kind).1) := by
  obtain ⟨base, idx, hload, hreplay, hsame⟩ := hs.idle hfree
  unfold crashDir
  split
  · by_cases hsettled : s.settled = s.ledger.wal
    · exact ⟨base, idx, hload, hsettled ▸ hreplay, Or.inl hsame⟩
    · obtain ⟨i, task, kind, response, position, hi, hpc⟩ := exists_appended hsettled
      have hpending := pendingAt_of_pc hi (show task.pc.pending = some kind by rw [hpc]; rfl)
      obtain ⟨base, idx, hload, hreplay, hsame⟩ := hs.appended hl hc hi hpc (hf i kind hpending)
      exact ⟨base, idx, hload, hreplay, Or.inr
        ⟨task, List.mem_of_getElem? hi, kind, response, position, hpc, hsame⟩⟩
  · exact ⟨base, idx, hload, hreplay, Or.inl hsame⟩

/-! ## The steps of a save -/

theorem Saves.commit (hs : Saves env s) (hl : CommitLock env s) (hc : Covered env s)
    (hi : s.tasks[i]? = some task) (hpc : task.pc = .appended kind response position)
    (hf : s.ledger.indexes.Fits kind) :
    Saves env { (s.commit task kind response position).1 with
      tasks := s.tasks.set i (s.commit task kind response position).2 } := by
  obtain ⟨result, hfinish⟩ := finish_commit s task kind response position
  have hfree := saveFree_of_appended hl hi (by rw [hpc]; rfl)
  refine ⟨fun _ => ?_, fun j u watermark state now hj hu => ?_⟩
  · obtain ⟨base, idx, hload, hreplay, hsame⟩ := hs.appended hl hc hi hpc hf
    rw [← indexes_commit s task kind response position] at hsame
    rw [← (commit_frame s task kind response position).2] at hload hreplay
    refine ⟨base, idx, hload, ?_, hsame⟩
    rw [hl.settled_commit hi hpc]
    exact hreplay
  · change (s.tasks.set i _)[j]? = some u at hj
    rw [getElem?_set_of_some hi, hfinish] at hj
    split at hj
    · cases hj
      cases hu
    · have := List.all_eq_true.mp hfree u (List.mem_of_getElem? hj)
      rw [hu] at this
      cases this

theorem Saves.saveState {draws : Draws} (hi : s.tasks[i]? = some task)
    (hpc : task.pc = .waitSnapshot) (hfree : s.commitFree = true)
    (hcond : s.savesExactly rereadF64 env (.step i draws) = true) :
    Saves env { s with
      disk := s.disk.writeState s.ledger.indexes.collectState
      tasks := s.tasks.set i { task with
        pc := .saving s.ledger.lastWalPosition s.ledger.indexes.collectState draws.now } } where
  idle h := by
    cases List.all_eq_true.mp h _
      (List.mem_of_getElem? ((getElem?_set_of_some hi _ i).trans (if_pos rfl)))
  saving j u watermark state now hj hu := by
    change (s.tasks.set i _)[j]? = some u at hj
    rw [getElem?_set_of_some hi] at hj
    split at hj
    · cases hj
      cases hu
      refine ⟨rfl, rfl, ?_⟩
      have hsettled : ({ s with
          disk := s.disk.writeState s.ledger.indexes.collectState
          tasks := s.tasks.set i { task with
            pc := .saving s.ledger.lastWalPosition s.ledger.indexes.collectState draws.now } } :
          Sys).settled = s.settled := settled_set hi rfl rfl (by rw [hpc]; rfl) rfl
      rw [hsettled, settled_of_commitFree hfree]
      simp only [savesExactly, hi, Option.map_some, hpc, Bool.and_eq_true] at hcond
      unfold replayed
      rw [List.map_eq_nil_iff, List.filter_eq_nil_iff]
      intro r hr
      simpa using List.all_eq_true.mp hcond.1 r hr
    · have := commitFree_at hfree hj
      rw [hu] at this
      cases this

theorem Saves.saveManifest {watermark : Option WalPosition} {state : PersistedState} {now : Int}
    (hs : Saves env s) (hl : CommitLock env s) (hw : s.ledger.indexes.WellFormed env.crates)
    (hi : s.tasks[i]? = some task) (hpc : task.pc = .saving watermark state now) :
    Saves env { s with
      disk := s.disk.writeManifest (manifestFor env state watermark now)
      tasks := s.tasks.set i { task with pc := .afterSave watermark } } := by
  obtain ⟨rfl, hfile, hnil⟩ := hs.saving i task watermark state now hi hpc
  have hsettled := settled_saveManifest env hi hpc
  refine ⟨fun _ => ?_, fun j u watermark' state now' hj hu => ?_⟩
  · -- the state file is already there
    have hdisk : s.disk = s.disk.writeState s.ledger.indexes.collectState := by
      rw [SnapshotDir.writeState, ← hfile]
    have hload := loadIndexes_saved env s.disk s.ledger.indexes watermark now
    rw [← hdisk] at hload
    refine ⟨_, _, hload, ?_, hw.load_collect⟩
    rw [hsettled]
    change replay _ (replayed env watermark s.settled.dir) = _
    rw [hnil]
    rfl
  · change (s.tasks.set i _)[j]? = some u at hj
    rw [getElem?_set_of_some hi] at hj
    split at hj
    · cases hj
      cases watermark <;> cases hu
    · next hij =>
      exact absurd (hl.exclusive i j task u hi hj (by rw [hpc]; rfl) (by rw [hu]; rfl)) hij

/-- Deleting files of covered records changes nothing of what is replayed. -/
theorem Saves.remove {id : Nat} {ids : List Nat} (hs : Saves env s) (hc : Covered env s)
    (hi : s.tasks[i]? = some task) (hpc : task.pc = .removing (id :: ids)) :
    Saves env { s with
      ledger := { s.ledger with wal := s.ledger.wal.removeSegment id }
      tasks := s.tasks.set i { task with pc := .removing ids } } := by
  have hremoving : SaveInProgress env s (.removing (id :: ids)) := by
    rw [← hpc]
    exact hc.saves task (List.mem_of_getElem? hi)
  obtain ⟨hlt, hall⟩ := hremoving id List.mem_cons_self
  have hactive : s.settled.active.id = s.ledger.wal.active.id := by
    unfold settled
    split <;> rfl
  refine hs.set hi rfl rfl rfl (by rw [hpc]; rfl) rfl fun watermark hwatermark => ?_
  rw [settled_removeSegment hi hpc]
  rcases hwatermark with rfl | hnil
  · -- records of the file are at or before the watermark
    unfold replayed
    change ((Wal.records env.encodedLen _).filter _).map _ = ((Wal.records _ _).filter _).map _
    rw [Wal.records_removeSegment env.encodedLen (by rw [hactive]; omega), List.filter_filter]
    congr 1
    refine List.filter_congr fun r hr => ?_
    by_cases hseg : r.position.segmentId = id
    · obtain ⟨w, hw, hle⟩ := hall r (settled_records_subset hr) hseg
      simp [uncovered, hw, hle]
    · simp [hseg]
  · rw [hnil]
    refine List.eq_nil_of_subset_nil fun kind hkind => ?_
    rw [← hnil]
    obtain ⟨r, hr, rfl⟩ := List.mem_map.mp hkind
    obtain ⟨hr, hu⟩ := List.mem_filter.mp hr
    exact List.mem_map.mpr
      ⟨r, List.mem_filter.mpr ⟨(Wal.records_removeSegment_sublist _ _).subset hr, hu⟩, rfl⟩

theorem Saves.reopen {ledger : Ledger} {keepUnacked : Bool}
    (h : Ledger.open env s.disk (s.crashDir keepUnacked) = .ok ledger) :
    Saves env { ledger, disk := s.disk, locks := .empty, tasks := [], acked := s.acked } := by
  obtain ⟨base, hload, hreplay, hwal, -⟩ := open_eq_ok h
  refine ⟨fun _ => ⟨base, ledger.indexes, hload, ?_, .refl _⟩, fun j u _ _ _ hj => by cases hj⟩
  have hrecords : ledger.wal.records env.encodedLen
      = replayAll env.encodedLen (s.crashDir keepUnacked).segments := Wal.records_open _ hwal
  have hdir : replayed env s.disk.watermark ledger.wal.dir
      = replayed env s.disk.watermark (s.crashDir keepUnacked) :=
    congrArg (fun l => (l.filter (uncovered s.disk.watermark)).map WalRecord.payload) hrecords
  exact hdir ▸ hreplay

theorem Saves.step (hs : Saves env s) (hl : CommitLock env s) (hc : Covered env s)
    (hw : s.ledger.indexes.WellFormed env.crates)
    (hf : ∀ i kind, s.pendingAt i = some kind → s.ledger.indexes.Fits kind)
    (hcond : s.savesExactly rereadF64 env action = true) (h : s.step env action = some s') :
    Saves env s' := by
  have hplain : ∀ {i : Nat} {task task' : Task} {locks : RunLocks}, s.tasks[i]? = some task →
      task.pc.holdsCommit = false → task'.pc.plain = true →
      Saves env (s.withTask i task' locks) := fun hi hbefore hpc =>
    hs.set hi rfl rfl rfl (Pc.isSaving_of_holdsCommit hbefore)
      (Pc.isSaving_of_holdsCommit (Pc.holdsCommit_of_plain hpc))
      fun _ _ => by rw [settled_withTask hi hbefore hpc]
  cases step_moves h with
  | spawn request =>
    refine ⟨fun hfree => ?_, fun j u watermark state now hj hu => ?_⟩
    · rw [saveFree, List.all_append, Bool.and_eq_true] at hfree
      rw [Recovered, settled_spawn]
      exact hs.idle hfree.1
    · rw [settled_spawn]
      rcases getElem?_append_singleton hj with hj | rfl
      · exact hs.saving j u watermark state now hj hu
      · cases hu
  | quiet _ locks hi hrequest hpc hbefore => exact hplain hi hbefore hpc.plain
  | answer hi hrequest hu hbefore => exact hplain hi hbefore rfl
  | persist hi hrequest hrequest' hpc hu hbefore => exact hplain hi hbefore (by rw [hpc]; rfl)
  | persistRunless hi _ _ hpc _ _ hbefore | waitEffectRun _ hi _ _ hpc _ hbefore =>
    exact hplain hi hbefore (by rw [hpc]; rfl)
  | persistEffect hi hrequest hrequest' hold hpc hevent =>
    exact hplain hi (by rw [hold]; rfl) (by rw [hpc]; rfl)
  | append hi hpc hfree hlen =>
    refine hs.set hi rfl rfl rfl (by rw [hpc]; rfl) rfl fun watermark _ => replayed_congr ?_
    rw [settled_of_commitFree hfree]
    rcases settled_append env _ _ hi with hsettled | hsettled <;> rw [hsettled]
    rw [Wal.records_rollSegment]
  | commit hi hpc =>
    exact hs.commit hl hc hi hpc (hf _ _ (pendingAt_of_pc hi (by rw [hpc]; rfl)))
  | saveState hi hrequest hpc hfree => exact Saves.saveState hi hpc hfree hcond
  | saveManifest hi hrequest hpc => exact hs.saveManifest hl hw hi hpc
  | list hi hrequest hpc =>
    refine hs.set hi rfl rfl rfl (by rw [hpc]; rfl) rfl fun watermark _ => replayed_congr ?_
    refine congrArg (Wal.records env.encodedLen) ?_
    exact settled_set hi rfl rfl (by rw [hpc]; rfl) rfl
  | remove hi hrequest hpc => exact hs.remove hc hi hpc
  | reopen ho => exact Saves.reopen ho

end Sys

/-! ## Over runs -/

/-- What makes indexes well-formed besides keys and hashes. -/
structure Indexes.Steady (idx : Indexes) : Prop where
  heads : idx.HeadsValid
  events : ∀ r : Uuid, idx.events[r]? ≠ some []
  checkpoints : ∀ r : Uuid, idx.checkpoints[r]? ≠ some []

namespace Indexes

variable {a b idx : Indexes} {kind : RecordKind} {t : Standard}

theorem Steady.of_same (h : Same a b) (hb : b.Steady) : a.Steady where
  heads r run hr := h.timeline r ▸ hb.heads r run (h.runs ▸ hr)
  events := h.events ▸ hb.events
  checkpoints := h.checkpoints ▸ hb.checkpoints

theorem Steady.apply (h : idx.Steady) (hf : Fits idx kind) : (idx.apply kind).1.Steady where
  heads := hf.headsValid h.heads
  events := events_apply_ne_nil hf h.events
  checkpoints := checkpoints_apply_ne_nil h.checkpoints

theorem Meets.of_same (h : Same a b) (hb : b.Meets t) : a.Meets t where
  runs := h.runs ▸ hb.runs
  effects := h.effectsById ▸ hb.effects

end Indexes

namespace Sys

variable {rereadF64 : UInt64 → UInt64} {env : Env} {s s' : Sys} {action : Action}

/-- All that recovery rests on. -/
structure Recoverable (rereadF64 : UInt64 → UInt64) (env : Env) (s : Sys) : Prop where
  steady : s.ledger.indexes.Steady
  fits : ∀ i kind, s.pendingAt i = some kind → s.ledger.indexes.Fits kind
  saves : Saves env s
  meets : Meets (.exact rereadF64 walDepth) env s
  state : ∀ state, s.disk.stateFile = some state →
    state.meets (.exact rereadF64 stateDepth) = true

theorem recoverable_init : Recoverable rereadF64 env init where
  steady := ⟨Indexes.headsValid_empty, fun r => by simp [init, fresh, Indexes.empty],
    fun r => by simp [init, fresh, Indexes.empty]⟩
  fits i kind h := by simp [pendingAt, init] at h
  saves := saves_init
  meets := meets_init
  state state h := by cases h

section

variable (hr : Recoverable rereadF64 env s) (hl : CommitLock env s) (hc : Covered env s)

include hr hl hc

theorem Recoverable.opened {keepUnacked : Bool} {ledger : Ledger} (hfree : s.saveFree = true)
    (ho : Ledger.open env s.disk (s.crashDir keepUnacked) = .ok ledger) :
    ledger.indexes.Steady ∧ ledger.indexes.Meets (.exact rereadF64 walDepth) := by
  obtain ⟨base, idx, hload, hreplay, hsame⟩ := hr.saves.crash hl hc hr.fits hfree keepUnacked
  obtain ⟨base', hload', hreplay', -, -⟩ := open_eq_ok ho
  cases hload.symm.trans hload'
  cases hreplay.symm.trans hreplay'
  rcases hsame with hsame | ⟨task, hm, kind, response, position, hpc, hsame⟩
  · exact ⟨hr.steady.of_same hsame, hr.meets.indexes.of_same hsame⟩
  · obtain ⟨i, hi⟩ := List.mem_iff_getElem?.mp hm
    have hpending := pendingAt_of_pc hi (show task.pc.pending = some kind by rw [hpc]; rfl)
    exact ⟨(hr.steady.apply (hr.fits i kind hpending)).of_same hsame,
      (hr.meets.indexes.apply (hr.meets.pending hpending)).of_same hsame⟩

theorem Recoverable.step (hsound : Sound env s)
    (hcond : s.crashSafe rereadF64 env action = true) (h : s.step env action = some s') :
    Recoverable rereadF64 env s' := by
  simp only [crashSafe, Bool.and_eq_true] at hcond
  obtain ⟨⟨⟨-, hstale⟩, hspawn⟩, hsaves⟩ := hcond
  have hw : s.ledger.indexes.WellFormed env.crates := ⟨hsound.keyed, hsound.chained,
    hr.steady.heads, hr.steady.events, hr.steady.checkpoints⟩
  have hopened : ∀ keepUnacked ledger, action = .reopen keepUnacked →
      Ledger.open env s.disk (s.crashDir keepUnacked) = .ok ledger →
      ledger.indexes.Steady ∧ ledger.indexes.Meets (.exact rereadF64 walDepth) := by
    rintro keep ledger rfl ho
    exact hr.opened hl hc hsaves ho
  have hsteady : s'.ledger.indexes.Steady ∧
      ∀ i kind, s'.pendingAt i = some kind → s'.ledger.indexes.Fits kind := by
    cases step_indexMove h with
    | same hindexes hpending =>
      rw [hindexes]
      refine ⟨hr.steady, fun j kind hj => ?_⟩
      rcases hpending j kind hj with hj | ⟨scope, hb⟩
      · exact hr.fits j kind hj
      · exact hw.fits hb
    | commit hcommits hi hindexes hpending =>
      rw [hindexes]
      refine ⟨hr.steady.apply (hr.fits _ _ hi), fun j other hj => ?_⟩
      obtain ⟨hne, hj⟩ := hpending j other hj
      refine (hr.fits j other hj).apply ?_
      rintro cutoff runIds effectIds rfl r hmem
      exact noStaleRetention_commits hstale hcommits hmem hne hj
    | reopen haction hopen hpending =>
      refine ⟨(hopened _ _ haction hopen).1, fun j kind hj => ?_⟩
      rw [hpending j] at hj
      cases hj
  refine ⟨hsteady.1, hsteady.2, hr.saves.step hl hc hw hr.fits hsaves h, ?_,
    fun state hstate => ?_⟩
  · exact hr.meets.step (Standard.plain_exact rereadF64 (by decide)) hspawn
      (fun keep ledger haction ho => (hopened keep ledger haction ho).2) h
  · cases step_moves h with
    | saveState hi hrequest hpc hfree =>
      cases hstate
      simp only [savesExactly, hi, Option.map_some, hpc, Bool.and_eq_true] at hsaves
      exact hsaves.2
    | commit => exact hr.state state ((commit_frame ..).2 ▸ hstate)
    | _ => exact hr.state state hstate

end

theorem covered_of_crashSafe
    (h : Reach (step env) (fun s a => s.crashSafe rereadF64 env a = true) init s) :
    Covered env s := by
  refine covered_of_reach (h.mono fun s a hcond => ?_)
  simp only [crashSafe, Bool.and_eq_true] at hcond
  exact hcond.1.1.1

theorem recoverable_of_reach
    (h : Reach (step env) (fun s a => s.crashSafe rereadF64 env a = true) init s) :
    Recoverable rereadF64 env s := by
  refine h.invariant_of_reach recoverable_init ?_
  intro s action s' hreach hr hcond hstep
  exact hr.step (CommitLock.of_reach hreach) (covered_of_crashSafe hreach)
    (Sound.of_reach hreach) hcond hstep

end Sys

/--
**Every acknowledged record survives a crash**, as long as every `truncate_before` finds the
watermark's segment still active or without records past the watermark, snapshots are taken with no
record past `last_wal_position`, no run is removed while another call holds an event or an update
of it, and the stored values are read back as they were: the record is at or before the watermark
of the saved manifest, or in the log and replayed; and `open`, after a crash that does not fall
between state file and manifest, gives back the acknowledged state, or that with the
unacknowledged record.
-/
theorem acked_recovered (rereadF64 : UInt64 → UInt64) (env : Env)
    (hmax : headerLen < env.config.maxSegmentSize) {s : Sys}
    (h : Reach (step env) (fun s a => s.crashSafe rereadF64 env a = true) init s) :
    (∀ r ∈ s.acked, (∃ watermark, s.disk.watermark = some watermark ∧ r.position ≤ watermark) ∨
      (r ∈ s.ledger.wal.records env.encodedLen ∧
        ∀ keepUnacked, r.payload ∈ replayed env s.disk.watermark (s.crashDir keepUnacked))) ∧
    (s.saveFree = true → ∀ keepUnacked, ∃ ledger,
      openFiles rereadF64 env s.disk (s.crashDir keepUnacked) = .ok ledger ∧
      (ledger.indexes.Same s.ledger.indexes ∨
        ∃ task ∈ s.tasks, ∃ kind response position, task.pc = .appended kind response position ∧
          ledger.indexes.Same (s.ledger.indexes.apply kind).1)) := by
  have hc := covered_of_crashSafe h
  have hr := recoverable_of_reach h
  refine ⟨fun r hm => hc.acked_covered hm, fun hfree keep => ?_⟩
  obtain ⟨base, idx, hload, hreplay, hsame⟩ :=
    hr.saves.crash (CommitLock.of_reach h) hc hr.fits hfree keep
  obtain ⟨wal, hwal⟩ := Wal.open_ok env.encodedLen (s.crashDir keep) hmax
  have hlog : ∀ r ∈ replayAll env.encodedLen (s.crashDir keep).segments,
      r.payload.meets (.exact rereadF64 walDepth) = true := fun r hm =>
    hr.meets.log r ((crashDir_records_sublist env s keep).subset hm)
  rw [openFiles_eq_open hr.state hlog]
  exact ⟨_, open_of_parts hload hreplay hwal, hsame⟩

/--
The segment of the watermark is sealed with covered records only. After truncation, a crash and a
reopen, a fourth record is in the log and not acknowledged: it may survive another crash or not,
the other three do.
-/
theorem acked_recovered_sealed :
    ∃ s r, Reach (step smallSegments)
        (fun s a => s.crashSafe (· + 1) smallSegments a = true) init s ∧
      s.acked[2]? = some r ∧ s.acked.length = 3 ∧ s.disk.watermark = some ⟨1, 471⟩ ∧
      r.position = ⟨2, 0⟩ ∧ s.ledger.indexes.runs.size = 3 ∧
      r ∈ s.ledger.wal.records smallSegments.encodedLen ∧
      ∀ keepUnacked, ∃ ledger,
        openFiles (· + 1) smallSegments s.disk (s.crashDir keepUnacked) = .ok ledger ∧
        (ledger.indexes.Same s.ledger.indexes ∨
          ∃ task ∈ s.tasks, ∃ kind response position, task.pc = .appended kind response position ∧
            ledger.indexes.Same (s.ledger.indexes.apply kind).1) := by
  have hrun : ((Lib.run (step smallSegments) (crashSafe (· + 1) smallSegments) init
      (Sample.spawn Sample.createRun :: steps 0 1 3
        ++ Sample.spawn Sample.createRun :: steps 1 2 3
        ++ .spawn .snapshot :: steps 2 3 3
        ++ Sample.spawn Sample.createRun :: steps 3 4 3
        ++ steps 2 3 2
        ++ .reopen true :: Sample.spawn Sample.createRun :: steps 0 5 2)).map fun s =>
          (s.acked[2]?.map WalRecord.position, s.acked.length, s.disk.watermark,
            s.ledger.indexes.runs.size, s.saveFree))
      = some (some ⟨2, 0⟩, 3, some ⟨1, 471⟩, 3, true) := by
    decide +kernel
  obtain ⟨s, hreach, he⟩ := exists_reach_of_run hrun
  simp only [Prod.mk.injEq] at he
  obtain ⟨hacked, hlen, hw, hruns, hfree⟩ := he
  obtain ⟨r, hr, hpos⟩ := Option.map_eq_some_iff.mp hacked
  obtain ⟨hcovered, hopens⟩ := acked_recovered (· + 1) smallSegments (by decide) hreach
  refine ⟨s, r, hreach, hr, hlen, hw, hpos, hruns, ?_, hopens hfree⟩
  rcases hcovered r (List.mem_of_getElem? hr) with ⟨w, hw', hle⟩ | ⟨hin, -⟩
  · -- the record lies past the watermark
    cases hw.symm.trans hw'
    rw [hpos] at hle
    exact absurd hle (by decide)
  · exact hin

end Calod.Ledger
