import Calod.Ledger.CommitLock

/-!
# Watermarks

`last_wal_position`, the watermark of the saved manifest and that of a snapshot in progress all
lie before the place where the log is written next, in every run (`Watermarks.of_reach`). So no
snapshot covers a record that is still to come.
-/

namespace Calod.Ledger

open Calod.Core Calod.Storage Lib

/-- The watermark of a snapshot that has written its state file and not yet its manifest. -/
def Pc.savesUpTo : Pc → Option WalPosition
  | .saving watermark _ _ => watermark
  | _ => none

theorem Pc.savesUpTo_plain {pc : Pc} (h : pc.plain = true) : pc.savesUpTo = none := by
  cases pc with
  | saving watermark state now => cases h
  | _ => rfl

namespace Sys

variable {env : Env} {s s' : Sys} {action : Action} {i : Nat} {task task' : Task}

/-- Every watermark in play lies before the end of the settled log. -/
structure Watermarks (env : Env) (s : Sys) : Prop where
  last : ∀ p, s.ledger.lastWalPosition = some p → p < s.settled.endPosition env.encodedLen
  manifest : ∀ p, s.disk.watermark = some p → p < s.settled.endPosition env.encodedLen
  saving : ∀ task ∈ s.tasks, ∀ p, task.pc.savesUpTo = some p →
    p < s.settled.endPosition env.encodedLen

theorem watermarks_init : Watermarks env init where
  last _ h := nomatch h
  manifest _ h := nomatch h
  saving _ h := nomatch h

section

variable (hw : Watermarks env s)

include hw

/-- A step that moves one task, and may add to the log. -/
theorem Watermarks.set (htasks : s'.tasks = s.tasks.set i task')
    (hlast : s'.ledger.lastWalPosition = s.ledger.lastWalPosition)
    (hdisk : s'.disk.watermark = s.disk.watermark)
    (hend : s.settled.endPosition env.encodedLen ≤ s'.settled.endPosition env.encodedLen)
    (hnew : ∀ p, task'.pc.savesUpTo = some p → p < s.settled.endPosition env.encodedLen) :
    Watermarks env s' where
  last p hp := WalPosition.lt_of_lt_of_le (hw.last p (hlast ▸ hp)) hend
  manifest p hp := WalPosition.lt_of_lt_of_le (hw.manifest p (hdisk ▸ hp)) hend
  saving t ht p hp := by
    rw [htasks] at ht
    refine WalPosition.lt_of_lt_of_le ?_ hend
    rcases List.mem_or_eq_of_mem_set ht with hm | rfl
    · exact hw.saving t hm p hp
    · exact hnew p hp

theorem Watermarks.commit (hl : CommitLock env s) (hi : s.tasks[i]? = some task) {kind : RecordKind}
    {response : Response} {position : WalPosition}
    (hpc : task.pc = .appended kind response position) :
    Watermarks env { (s.commit task kind response position).1 with
      tasks := s.tasks.set i (s.commit task kind response position).2 } := by
  have hsettled := hl.settled_commit hi hpc
  obtain ⟨-, hpos⟩ := hl.settled_appended hi hpc
  obtain ⟨result, hfinish⟩ := finish_commit s task kind response position
  have hend := hl.endPosition_lt hi hpc
  refine ⟨fun p hp => ?_, fun p hp => ?_, fun t ht p hp => ?_⟩
  · rw [hsettled]
    rcases lastWalPosition_commit s task kind response position with h | h
    · cases h.symm.trans hp
      rw [hpos]
      exact hend
    · exact WalPosition.lt_of_lt_of_le (hw.last p (h.symm.trans hp)) (WalPosition.le_of_lt hend)
  · rw [hsettled]
    change (s.commit task kind response position).1.disk.watermark = some p at hp
    rw [(commit_frame ..).2] at hp
    exact WalPosition.lt_of_lt_of_le (hw.manifest p hp) (WalPosition.le_of_lt hend)
  · rw [hsettled]
    rcases List.mem_or_eq_of_mem_set ht with hm | rfl
    · exact WalPosition.lt_of_lt_of_le (hw.saving t hm p hp) (WalPosition.le_of_lt hend)
    · rw [hfinish] at hp
      cases hp

theorem Watermarks.saveManifest {watermark : Option WalPosition} {state : PersistedState}
    {now : Int} (hi : s.tasks[i]? = some task) (hpc : task.pc = .saving watermark state now) :
    Watermarks env { s with
      disk := s.disk.writeManifest (manifestFor env state watermark now)
      tasks := s.tasks.set i { task with pc := .afterSave watermark } } := by
  have hsettled := settled_saveManifest env hi hpc
  refine ⟨?_, fun p hp => ?_, fun t ht p hp => ?_⟩
  · rw [hsettled]
    exact hw.last
  · rw [hsettled]
    refine hw.saving task (List.mem_of_getElem? hi) p ?_
    rw [hpc]
    exact hp
  · rw [hsettled]
    rcases List.mem_or_eq_of_mem_set ht with hm | rfl
    · exact hw.saving t hm p hp
    · cases watermark <;> cases hp

theorem Watermarks.reopen {keepUnacked : Bool} {ledger : Ledger}
    (h : Ledger.open env s.disk (s.crashDir keepUnacked) = .ok ledger) :
    Watermarks env { ledger, disk := s.disk, locks := .empty, tasks := [], acked := s.acked } := by
  obtain ⟨_, -, -, hwal, hlast⟩ := open_eq_ok h
  have hend := endPosition_reopen hwal
  have hmanifest : ∀ p, s.disk.watermark = some p → p < ledger.wal.endPosition env.encodedLen :=
    fun p hp => WalPosition.lt_of_lt_of_le (hw.manifest p hp) hend
  exact ⟨fun p hp => hmanifest p (hlast.symm.trans hp), hmanifest, fun _ h => nomatch h⟩

/-- **Every step keeps the watermarks before the end of the settled log.** -/
theorem Watermarks.step (hl : CommitLock env s) (h : s.step env action = some s') :
    Watermarks env s' := by
  have hplain : ∀ {i : Nat} {task task' : Task} {locks : RunLocks}, s.tasks[i]? = some task →
      task.pc.holdsCommit = false → task'.pc.plain = true →
      Watermarks env (s.withTask i task' locks) := by
    intro i task task' locks hi hbefore hpc
    refine hw.set rfl rfl rfl (endPosition_le_of_settled (settled_withTask hi hbefore hpc)) ?_
    rw [Pc.savesUpTo_plain hpc]
    exact fun _ hp => nomatch hp
  cases step_moves h with
  | spawn request =>
    refine ⟨?_, ?_, fun t ht => ?_⟩
    · rw [settled_spawn]
      exact hw.last
    · rw [settled_spawn]
      exact hw.manifest
    · rw [settled_spawn]
      rcases List.mem_append.mp ht with hm | hm
      · exact hw.saving t hm
      · rw [List.mem_singleton.mp hm]
        exact fun _ hp => nomatch hp
  | quiet _ locks hi hrequest hpc hbefore => exact hplain hi hbefore hpc.plain
  | answer hi hrequest hu hbefore => exact hplain hi hbefore rfl
  | persist hi hrequest hrequest' hpc hu hbefore => exact hplain hi hbefore (by rw [hpc]; rfl)
  | persistRunless hi _ _ hpc _ _ hbefore | waitEffectRun _ hi _ _ hpc _ hbefore =>
    exact hplain hi hbefore (by rw [hpc]; rfl)
  | persistEffect hi hrequest hrequest' hold hpc hevent =>
    exact hplain hi (by rw [hold]; rfl) (by rw [hpc]; rfl)
  | append hi hpc hfree hlen =>
    refine hw.set rfl rfl rfl ?_ fun p hp => nomatch hp
    rw [settled_of_commitFree hfree]
    rcases settled_append env _ _ hi with h | h
    · rw [h]
      exact WalPosition.le_refl _
    · rw [h]
      exact Wal.endPosition_le_rollSegment _
  | commit hi hpc => exact hw.commit hl hi hpc
  | saveState hi hrequest hpc hfree =>
    exact hw.set rfl rfl rfl
      (endPosition_le_of_settled (settled_set hi rfl rfl (by rw [hpc]; rfl) rfl)) hw.last
  | saveManifest hi hrequest hpc => exact hw.saveManifest hi hpc
  | list hi hrequest hpc =>
    exact hw.set rfl rfl rfl
      (endPosition_le_of_settled (settled_set hi rfl rfl (by rw [hpc]; rfl) rfl))
      fun _ hp => nomatch hp
  | remove hi hrequest hpc =>
    refine hw.set rfl rfl rfl ?_ fun p hp => nomatch hp
    rw [settled_removeSegment hi hpc]
    exact WalPosition.le_refl _
  | reopen ho => exact hw.reopen ho

end

theorem Watermarks.of_reach {P : Sys → Action → Prop} (h : Reach (Sys.step env) P init s) :
    Watermarks env s :=
  h.invariant_of_reach watermarks_init fun _ _ _ hreach hw _ hs =>
    hw.step (CommitLock.of_reach hreach) hs

end Sys

end Calod.Ledger
