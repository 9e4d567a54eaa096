import Calod.Ledger.CommitLock
import Calod.Ledger.Decoding

/-!
# Truncation under overlapping calls

`snapshot` gives the commit lock back after the save and only then calls
`truncate_before(watermark.segment_id + 1)`. The cutoff is bounded by the active segment, read at
that moment. If the watermark's segment took more records and was sealed in between, its file is
deleted with records that no snapshot covers (`truncation_deletes_uncovered`).

* `Covered.acked_covered` — as long as `truncate_before` finds the watermark's segment still active,
  or without records past the watermark (`covered_of_reach`), every acknowledged record is covered
  by the saved manifest or still in the log, through any crash.
-/

namespace Calod.Ledger

open Calod.Core Calod.Storage Lib Ledger.Sample Sys

namespace Sys

variable {env : Env} {s s' : Sys} {action : Action}

/--
When a task calls `truncate_before`, the watermark's segment is still active or has no record
past the watermark.
-/
def truncatesCovered (env : Env) (s : Sys) : Action → Bool
  | .step i _ =>
    match s.tasks[i]?.map Task.pc with
    | some (.truncating watermark) =>
      s.ledger.wal.active.id ≤ watermark.segmentId ||
        (s.ledger.wal.records env.encodedLen).all fun r =>
          r.position.segmentId ≠ watermark.segmentId || r.position ≤ watermark
    | _ => true
  | _ => true

/-- The position is at or before the watermark of the saved manifest. -/
def Saved (s : Sys) (position : WalPosition) : Prop :=
  ∃ watermark, s.disk.watermark = some watermark ∧ position ≤ watermark

/-- What a snapshot in progress may rely on. -/
def SaveInProgress (env : Env) (s : Sys) : Pc → Prop
  | .saving watermark _ _ => watermark = s.ledger.lastWalPosition
  | .truncating watermark => s.Saved watermark
  | .removing ids => ∀ id ∈ ids, id < s.ledger.wal.active.id ∧
      ∀ r ∈ s.ledger.wal.records env.encodedLen, r.position.segmentId = id → s.Saved r.position
  | _ => True

/-- Acknowledged records are covered or in the settled log; the watermarks are in order. -/
structure Covered (env : Env) (s : Sys) : Prop where
  last : ∀ position, s.ledger.lastWalPosition = some position →
    position < s.settled.endPosition env.encodedLen
  manifest : ∀ watermark, s.disk.watermark = some watermark →
    ∃ position, s.ledger.lastWalPosition = some position ∧ watermark ≤ position
  acked : ∀ r ∈ s.acked, r ∈ s.settled.records env.encodedLen ∨ s.Saved r.position
  saves : ∀ task ∈ s.tasks, SaveInProgress env s task.pc

theorem covered_init : Covered env init where
  last position h := by cases h
  manifest watermark h := by cases h
  acked r h := by cases h
  saves task h := by cases h

/-- A step only adds records to the active file, and only moves the manifest forward. -/
theorem SaveInProgress.mono {pc : Pc} (h : SaveInProgress env s pc)
    (hlast : ∀ watermark state now, pc = .saving watermark state now →
      s'.ledger.lastWalPosition = s.ledger.lastWalPosition)
    (hsaved : ∀ position, s.Saved position → s'.Saved position)
    (hactive : s.ledger.wal.active.id ≤ s'.ledger.wal.active.id)
    (hrecords : ∀ r ∈ s'.ledger.wal.records env.encodedLen,
      r.position.segmentId < s.ledger.wal.active.id → r ∈ s.ledger.wal.records env.encodedLen) :
    SaveInProgress env s' pc := by
  cases pc with
  | saving watermark state now => exact h.trans (hlast _ _ _ rfl).symm
  | truncating watermark => exact hsaved watermark h
  | removing ids =>
    intro id hid
    obtain ⟨hlt, hall⟩ := h id hid
    refine ⟨Nat.lt_of_lt_of_le hlt hactive, fun r hr hseg => hsaved _ (hall r ?_ hseg)⟩
    exact hrecords r hr (hseg ▸ hlt)
  | _ => trivial

theorem saveInProgress_of_plain {pc : Pc} (h : pc.plain = true) : SaveInProgress env s pc := by
  cases pc <;> trivial

/-- A step that moves one task, and leaves log, positions and manifest as they are. -/
theorem Covered.set {i : Nat} {task' : Task} (hc : Covered env s)
    (htasks : s'.tasks = s.tasks.set i task')
    (hledger : s'.ledger = s.ledger) (hdisk : s'.disk.watermark = s.disk.watermark)
    (hacked : s'.acked = s.acked) (hsettled : s'.settled = s.settled)
    (hnew : SaveInProgress env s task'.pc) : Covered env s' := by
  have hsaved : ∀ position, s.Saved position → s'.Saved position := by
    intro position h
    rw [Saved, hdisk]
    exact h
  refine ⟨?_, ?_, ?_, ?_⟩
  · rw [hledger, hsettled]
    exact hc.last
  · rw [hledger, hdisk]
    exact hc.manifest
  · rw [hacked, hsettled]
    intro r hr
    exact (hc.acked r hr).imp_right (hsaved _)
  · intro t ht
    have hold : SaveInProgress env s t.pc := by
      rw [htasks] at ht
      rcases List.mem_or_eq_of_mem_set ht with hm | rfl
      · exact hc.saves t hm
      · exact hnew
    refine hold.mono (fun _ _ _ _ => by rw [hledger]) hsaved (by rw [hledger]) ?_
    rw [hledger]
    exact fun r hr _ => hr

/-! ## The steps that touch the log -/

section

variable {i : Nat} {task : Task} {kind : RecordKind} {response : Response}
  {position : WalPosition}

variable (hc : Covered env s) (hi : s.tasks[i]? = some task)

include hc hi in
theorem Covered.append (hfree : s.commitFree = true) :
    Covered env { (s.append env task kind response).1 with
      tasks := s.tasks.set i (s.append env task kind response).2 } := by
  have hsettled := settled_append env kind response hi
  have hrecords : ∀ r ∈ s.settled.records env.encodedLen, r ∈ Wal.records env.encodedLen
      ({ (s.append env task kind response).1 with
        tasks := s.tasks.set i (s.append env task kind response).2 } : Sys).settled := by
    rw [settled_of_commitFree hfree]
    intro r hr
    rcases hsettled with h | h <;> rw [h]
    · exact hr
    · rw [Wal.records_rollSegment]
      exact hr
  refine ⟨fun p hp => ?_, hc.manifest, fun r hr => ?_, fun t ht => ?_⟩
  · have hlt := hc.last p hp
    rw [settled_of_commitFree hfree] at hlt
    rcases hsettled with h | h <;> rw [h]
    · exact hlt
    · exact WalPosition.lt_of_lt_of_le hlt (Wal.endPosition_le_rollSegment _)
  · exact (hc.acked r hr).imp_left (hrecords r)
  · have hold : SaveInProgress env s t.pc := by
      rcases List.mem_or_eq_of_mem_set ht with hm | rfl
      · exact hc.saves t hm
      · trivial
    refine hold.mono (fun _ _ _ _ => rfl) (fun _ h => h) (Wal.active_le_handleAppend ..) ?_
    intro r hr hlt
    change r ∈ (s.ledger.wal.handleAppend _ _ kind).2.records _ at hr
    rw [Wal.records_handleAppend] at hr
    rcases List.mem_append.mp hr with hr | hr
    · exact hr
    · -- the new record is in the active file
      rw [List.mem_singleton.mp hr, Wal.handleAppend_segmentId] at hlt
      exact absurd (Wal.active_le_handleAppend ..) (Nat.not_le_of_lt hlt)

theorem Covered.commit (hc : Covered env s) (hl : CommitLock env s)
    (hi : s.tasks[i]? = some task) (hpc : task.pc = .appended kind response position) :
    Covered env { (s.commit task kind response position).1 with
      tasks := s.tasks.set i (s.commit task kind response position).2 } := by
  have hsettled := hl.settled_commit hi hpc
  obtain ⟨hwal, hpos⟩ := hl.settled_appended hi hpc
  obtain ⟨hwal', hdisk'⟩ := commit_frame s task kind response position
  have hend := hl.endPosition_lt hi hpc
  -- the position of the last applied record moves to the end of the settled log, or stays
  have hlast := lastWalPosition_commit s task kind response position
  refine ⟨fun p hp => ?_, fun w hw => ?_, fun r hr => ?_, fun t ht => ?_⟩
  · rw [hsettled]
    rcases hlast with h | h
    · cases h.symm.trans hp
      rw [hpos]
      exact hend
    · exact WalPosition.lt_of_lt_of_le (hc.last p (h.symm.trans hp)) (WalPosition.le_of_lt hend)
  · change (s.commit task kind response position).1.disk.watermark = some w at hw
    rw [hdisk'] at hw
    obtain ⟨p, hp, hle⟩ := hc.manifest w hw
    rcases hlast with h | h
    · refine ⟨position, h, ?_⟩
      rw [hpos]
      exact WalPosition.le_trans hle (WalPosition.le_of_lt (hc.last p hp))
    · exact ⟨p, h.trans hp, hle⟩
  · have hr' : r ∈ s.acked ++ [{ position, payload := kind }] := by
      unfold Sys.commit at hr
      split at hr <;> exact hr
    rw [hsettled, hwal, Wal.records_writeRecord]
    rcases List.mem_append.mp hr' with hr' | hr'
    · rcases hc.acked r hr' with h | h
      · exact Or.inl (List.mem_append_left _ h)
      · right
        rw [Saved]
        change ∃ w, (s.commit task kind response position).1.disk.watermark = some w ∧ _
        rw [hdisk']
        exact h
    · rw [hpos] at hr'
      exact Or.inl (List.mem_append_right _ hr')
  · rcases List.mem_or_eq_of_mem_set ht with hm | rfl
    · refine (hc.saves t hm).mono ?_ ?_ ?_ ?_
      · -- a save in progress would hold the lock that the committing task holds
        intro watermark state now hsaving
        obtain ⟨j, hj⟩ := List.mem_iff_getElem?.mp hm
        cases hl.exclusive i j task t hi hj (by rw [hpc]; rfl) (by rw [hsaving]; rfl)
        cases hi.symm.trans hj
        cases hpc.symm.trans hsaving
      · intro p hp
        rw [Saved]
        change ∃ w, (s.commit task kind response position).1.disk.watermark = some w ∧ _
        rw [hdisk']
        exact hp
      · change s.ledger.wal.active.id
          ≤ (s.commit task kind response position).1.ledger.wal.active.id
        rw [hwal']
      · change ∀ r ∈ (s.commit task kind response position).1.ledger.wal.records env.encodedLen, _
        rw [hwal']
        exact fun r hr _ => hr
    · refine saveInProgress_of_plain ?_
      unfold Sys.commit
      split <;> rfl

include hc hi in
theorem Covered.saveManifest {watermark : Option WalPosition} {state : PersistedState} {now : Int}
    (hpc : task.pc = .saving watermark state now) :
    Covered env { s with
      disk := s.disk.writeManifest (manifestFor env state watermark now)
      tasks := s.tasks.set i { task with pc := .afterSave watermark } } := by
  have hwatermark : watermark = s.ledger.lastWalPosition := by
    have h := hc.saves task (List.mem_of_getElem? hi)
    rw [hpc] at h
    exact h
  subst hwatermark
  have hsettled := settled_saveManifest env hi hpc
  -- the new manifest covers what the old one covered
  have hsaved : ∀ p, s.Saved p →
      ∃ w, s.ledger.lastWalPosition = some w ∧ p ≤ w := by
    rintro p ⟨w, hw, hle⟩
    obtain ⟨l, hl, hwl⟩ := hc.manifest w hw
    exact ⟨l, hl, WalPosition.le_trans hle hwl⟩
  refine ⟨?_, fun w hw => ⟨w, hw, WalPosition.le_refl w⟩, fun r hr => ?_, fun t ht => ?_⟩
  · rw [hsettled]
    exact hc.last
  · rw [hsettled]
    exact (hc.acked r hr).imp_right (hsaved r.position)
  · rcases List.mem_or_eq_of_mem_set ht with hm | rfl
    · exact (hc.saves t hm).mono (fun _ _ _ _ => rfl) hsaved (Nat.le_refl _) fun r hr _ => hr
    · cases hlast : s.ledger.lastWalPosition with
      | none => trivial
      | some w => exact ⟨w, rfl, WalPosition.le_refl w⟩

/-- `truncate_before` lists files whose records are all covered. -/
theorem Covered.list {watermark : WalPosition} {draws : Draws} (hc : Covered env s)
    (hi : s.tasks[i]? = some task) (hpc : task.pc = .truncating watermark)
    (hcond : s.truncatesCovered env (.step i draws) = true) :
    Covered env { s with tasks := s.tasks.set i { task with
      pc := .removing (s.ledger.wal.truncateTargets (watermark.segmentId + 1)) } } := by
  refine hc.set rfl rfl rfl rfl (settled_set hi rfl rfl (by rw [hpc]; rfl) rfl) ?_
  obtain ⟨w, hw, hle⟩ : s.Saved watermark := by
    have h := hc.saves task (List.mem_of_getElem? hi)
    rw [hpc] at h
    exact h
  simp only [truncatesCovered, hi, Option.map_some, hpc, Bool.or_eq_true,
    decide_eq_true_eq] at hcond
  intro id hid
  obtain ⟨-, hlt⟩ := List.mem_filter.mp hid
  simp only [decide_eq_true_eq, Nat.lt_min] at hlt
  obtain ⟨hbelow, hactive⟩ := hlt
  refine ⟨hactive, fun r hr hseg => ⟨w, hw, WalPosition.le_trans ?_ hle⟩⟩
  rcases Nat.lt_or_ge id watermark.segmentId with hlt | hge
  · exact Or.inl (hseg ▸ hlt)
  · -- the watermark's own segment, which is sealed
    have heq : id = watermark.segmentId := by omega
    rcases hcond with h | h
    · omega
    · have := List.all_eq_true.mp h r hr
      simpa [hseg.trans heq] using this

include hc hi in
theorem Covered.remove {id : Nat} {ids : List Nat} (hpc : task.pc = .removing (id :: ids)) :
    Covered env { s with
      ledger := { s.ledger with wal := s.ledger.wal.removeSegment id }
      tasks := s.tasks.set i { task with pc := .removing ids } } := by
  have hremoving : SaveInProgress env s (.removing (id :: ids)) := by
    rw [← hpc]
    exact hc.saves task (List.mem_of_getElem? hi)
  obtain ⟨hlt, hall⟩ := hremoving id List.mem_cons_self
  have hsettled := settled_removeSegment hi hpc
  have hactive : s.settled.active.id = s.ledger.wal.active.id := by
    unfold settled
    split <;> rfl
  refine ⟨?_, hc.manifest, fun r hr => ?_, fun t ht => ?_⟩
  · rw [hsettled]
    exact hc.last
  · rcases hc.acked r hr with h | h
    · rw [hsettled, Wal.records_removeSegment env.encodedLen (by rw [hactive]; omega)]
      by_cases hseg : r.position.segmentId = id
      · exact Or.inr (hall r (settled_records_subset h) hseg)
      · exact Or.inl (List.mem_filter.mpr ⟨h, by simpa using hseg⟩)
    · exact Or.inr h
  · have hold : SaveInProgress env s t.pc := by
      rcases List.mem_or_eq_of_mem_set ht with hm | rfl
      · exact hc.saves t hm
      · exact fun id' hid' => hremoving id' (List.mem_cons_of_mem _ hid')
    exact hold.mono (fun _ _ _ _ => rfl) (fun _ h => h) (Nat.le_refl _) fun r hr _ =>
      (Wal.records_removeSegment_sublist _ _).subset hr

theorem Covered.reopen {keepUnacked : Bool} {ledger : Ledger} (hc : Covered env s)
    (h : Ledger.open env s.disk (s.crashDir keepUnacked) = .ok ledger) :
    Covered env { ledger, disk := s.disk, locks := .empty, tasks := [], acked := s.acked } := by
  obtain ⟨_, -, -, hwal, hlast⟩ := open_eq_ok h
  have hsettled : ({ ledger, disk := s.disk, locks := .empty, tasks := [], acked := s.acked } :
      Sys).settled = ledger.wal := rfl
  have hend := endPosition_reopen hwal
  refine ⟨fun p hp => ?_, fun w hw => ⟨w, hlast.trans hw, WalPosition.le_refl w⟩,
    fun r hr => ?_, fun t ht => by cases ht⟩
  · obtain ⟨l, hl, hle⟩ := hc.manifest p (hlast.symm.trans hp)
    rw [hsettled]
    exact WalPosition.lt_of_le_of_lt hle (WalPosition.lt_of_lt_of_le (hc.last l hl) hend)
  · rw [hsettled, Wal.records_open env.encodedLen hwal]
    exact (hc.acked r hr).imp_left fun h => settled_records_crashDir h

end

theorem Covered.step (hc : Covered env s) (hl : CommitLock env s)
    (hcond : s.truncatesCovered env action = true) (h : s.step env action = some s') :
    Covered env s' := by
  have hplain : ∀ {i : Nat} {task task' : Task} {locks : RunLocks}, s.tasks[i]? = some task →
      task.pc.holdsCommit = false → task'.pc.plain = true →
      Covered env (s.withTask i task' locks) := fun hi hbefore hpc =>
    hc.set rfl rfl rfl rfl (settled_withTask hi hbefore hpc) (saveInProgress_of_plain hpc)
  cases step_moves h with
  | spawn request =>
    refine ⟨?_, hc.manifest, ?_, fun t ht => ?_⟩
    · rw [settled_spawn]
      exact hc.last
    · rw [settled_spawn]
      exact hc.acked
    · rcases List.mem_append.mp ht with hm | hm
      · exact hc.saves t hm
      · rw [List.mem_singleton.mp hm]
        trivial
  | quiet _ locks hi hrequest hpc hbefore => exact hplain hi hbefore hpc.plain
  | answer hi hrequest hu hbefore => exact hplain hi hbefore rfl
  | persist hi hrequest hrequest' hpc hu hbefore => exact hplain hi hbefore (by rw [hpc]; rfl)
  | persistRunless hi _ _ hpc _ _ hbefore | waitEffectRun _ hi _ _ hpc _ hbefore =>
    exact hplain hi hbefore (by rw [hpc]; rfl)
  | persistEffect hi hrequest hrequest' hold hpc hevent =>
    exact hplain hi (by rw [hold]; rfl) (by rw [hpc]; rfl)
  | append hi hpc hfree hlen => exact hc.append hi hfree
  | commit hi hpc => exact hc.commit hl hi hpc
  | saveState hi hrequest hpc hfree =>
    exact hc.set rfl rfl rfl rfl (settled_set hi rfl rfl (by rw [hpc]; rfl) rfl) rfl
  | saveManifest hi hrequest hpc => exact hc.saveManifest hi hpc
  | list hi hrequest hpc => exact hc.list hi hpc hcond
  | remove hi hrequest hpc => exact hc.remove hi hpc
  | reopen ho => exact hc.reopen ho

theorem covered_of_reach
    (h : Reach (step env) (fun s a => s.truncatesCovered env a = true) init s) :
    Covered env s := by
  refine h.invariant_of_reach covered_init ?_
  intro s action s' hreach hi hc hstep
  exact hi.step (CommitLock.of_reach hreach) hc hstep

/-- A record that the saved manifest does not cover is replayed by the `open` after any crash. -/
theorem Covered.acked_covered (hc : Covered env s) {r : WalRecord RecordKind} (hr : r ∈ s.acked) :
    (∃ watermark, s.disk.watermark = some watermark ∧ r.position ≤ watermark) ∨
      (r ∈ s.ledger.wal.records env.encodedLen ∧
        ∀ keepUnacked, r.payload ∈ replayed env s.disk.watermark (s.crashDir keepUnacked)) := by
  by_cases hsaved : s.Saved r.position
  · exact Or.inl hsaved
  have hin : r ∈ s.settled.records env.encodedLen := (hc.acked r hr).resolve_right hsaved
  refine Or.inr ⟨settled_records_subset hin, fun keep => ?_⟩
  refine List.mem_map.mpr ⟨r, List.mem_filter.mpr ⟨settled_records_crashDir hin, ?_⟩, rfl⟩
  unfold uncovered
  cases hw : s.disk.watermark with
  | none => rfl
  | some w =>
    have hnot : ¬ r.position ≤ w := fun hle => hsaved ⟨w, hw, hle⟩
    simp [hnot]

end Sys

namespace Sample

/--
Segments of 1000 bytes. A `run_created` record of `createRun` is 458 bytes of JSON, so two of
them fill a segment.
-/
def smallSegments : Env :=
  { env with config := { env.config with maxSegmentSize := 1000 }, encodedLen := fun _ => 458 }

end Sample

/--
**Truncation deletes an uncovered record.** Record 1 is saved; before the truncation record 2
goes into the same segment and record 3 seals it. The file is deleted with record 2, which no
manifest covers, and the next `open` knows nothing of the run it created.
-/
theorem truncation_deletes_uncovered :
    ∃ s ledger, Reach (step smallSegments) (fun _ _ => True) init s ∧
      s.acked.map WalRecord.position = [⟨1, 0⟩, ⟨1, 471⟩, ⟨2, 0⟩] ∧
      s.disk.watermark = some ⟨1, 0⟩ ∧
      (s.ledger.wal.records smallSegments.encodedLen).map WalRecord.position = [⟨2, 0⟩] ∧
      s.ledger.indexes.runs[(3 : Uuid)]?.isSome = true ∧
      openFiles id smallSegments s.disk (s.crashDir true) = .ok ledger ∧
      ledger.indexes.runs[(3 : Uuid)]? = none := by
  have hrun : ((Lib.run (step smallSegments) (fun _ _ => true) init
      (Sample.spawn Sample.createRun :: steps 0 1 3
        ++ .spawn .snapshot :: steps 1 2 3
        ++ Sample.spawn Sample.createRun :: steps 2 3 3
        ++ Sample.spawn Sample.createRun :: steps 3 4 3
        ++ steps 1 2 2)).map fun s =>
          (s.acked.map WalRecord.position, s.disk.watermark,
            (s.ledger.wal.records smallSegments.encodedLen).map WalRecord.position,
            s.ledger.indexes.runs[(3 : Uuid)]?.isSome,
            (openFiles id smallSegments s.disk (s.crashDir true)).toOption.map
              fun ledger => ledger.indexes.runs[(3 : Uuid)]?.isNone))
      = some ([⟨1, 0⟩, ⟨1, 471⟩, ⟨2, 0⟩], some ⟨1, 0⟩, [⟨2, 0⟩], true, some true) := by
    decide +kernel
  obtain ⟨s, hreach, he⟩ := exists_reach_of_run hrun
  simp only [Prod.mk.injEq] at he
  obtain ⟨hacked, hw, hlog, hlive, hopen⟩ := he
  obtain ⟨ledger, ho, hnone⟩ := Option.map_eq_some_iff.mp hopen
  exact ⟨s, ledger, hreach.mono fun _ _ _ => trivial, hacked, hw, hlog, hlive,
    toOption_eq_some.mp ho, Option.isNone_iff_eq_none.mp hnone⟩

end Calod.Ledger
