import Calod.Ledger.Leases
import Calod.Ledger.Replayable

/-!
# Effects under overlapping calls

`acquire` and `transition` hold the lock of their key's partition from the decision to the end
of the call. So an effect that a call is about to store (`Pc.carries`) is the next state of the
one that its key still has, whatever other calls do in between.

* `PartitionLock` — one holder for each partition, and every effect in flight is up to date
* `PartitionLock.step` — every step keeps this, as long as nothing is removed and effect ids
  are drawn unused (`keepsEffects`)
-/

namespace Calod.Ledger

open Calod.Core Calod.Storage Lib

variable {change : EffectChange} {kind : RecordKind} {draws : Draws} {index : Nat} {scope : Scope}
  {call : Call} {response : Response} {result : Except LedgerError Response}
  {persisted : Option RecordKind}

/-! ## Effects in flight -/

/-- The effect that a task is about to store, and the answer it will then give. -/
def Pc.carries : Pc → Option (EffectRecord × Response)
  | .waitEffectRun _ change _ response => some (change.effect, response)
  | .waitCommit kind response | .appended kind response _ =>
    kind.effect.map fun effect => (effect, response)
  | _ => none

theorem Pc.Quiet.carries {pc : Pc} (h : pc.Quiet) : pc.carries = none := by
  cases pc with
  | waitEffectRun | waitCommit | appended => cases h
  | _ => rfl

theorem Pc.carries_afterSave (watermark : Option WalPosition) :
    (Pc.afterSave watermark).carries = none := by
  cases watermark <;> rfl

/-- The calls that take a partition lock. -/
def Call.partitioned : Call → Bool
  | .acquire _ _ | .transition _ _ _ => true
  | _ => false

section

variable {env : Env} {idx : Indexes} {scope : Scope} {draws : Draws} {call : Call}
  {response : Response}

theorem partitioned_of_effect
    (h : call.underLock env idx scope draws = .ok (.effect change response)) :
    call.partitioned = true := by
  cases call with
  | acquire key req => rfl
  | transition id req caps => rfl
  | applyRetention policy =>
    simp only [Call.underLock] at h
    split at h <;> cases h
  | _ =>
    obtain ⟨_, -, he⟩ := map_eq_ok.mp h
    cases he

theorem partitioned_of_persist
    (h : call.underLock env idx scope draws = .ok (.persist kind response)) :
    call.partitioned = false := by
  cases persists_of_underLock h <;> rfl

/-- A call that takes a partition lock finds it before it waits for anything. -/
theorem check_partitioned {lock : FirstLock} (hcall : call.partitioned = true)
    (h : call.check env idx scope = .ok lock) : ∃ index, lock = .partition index := by
  cases call with
  | acquire key req =>
    obtain ⟨_, -, h⟩ := bind_eq_ok.mp h
    obtain ⟨_, -, h⟩ := bind_eq_ok.mp h
    cases pure_eq_ok.mp h
    exact ⟨_, rfl⟩
  | transition id req caps =>
    obtain ⟨_, -, h⟩ := bind_eq_ok.mp h
    cases pure_eq_ok.mp h
    exact ⟨_, rfl⟩
  | _ => cases hcall

end

namespace Task

/-- A task waits for the partition of its key. Only other calls wait for a run, or persist
anything else than an effect. -/
structure Located (env : Env) (idx : Indexes) (task : Task) : Prop where
  acquire : ∀ scope key req index, task.request = .call scope (.acquire key req) →
    task.pc = .waitPartition index → index = Calod.Ledger.partition env (acquireKey scope key req)
  transition : ∀ scope id req caps index, task.request = .call scope (.transition id req caps) →
    task.pc = .waitPartition index → ∃ effect, effectInScope idx scope id = .ok effect ∧
      index = Calod.Ledger.partition env (effectKeyOf effect)
  run : ∀ scope call lock, task.request = .call scope call → task.pc = .waitRun lock →
    call.partitioned = false
  record : ∀ scope call kind, task.request = .call scope call → task.pc.pending = some kind →
    kind.effect = none → call.partitioned = false

/-- What a task is about to store is the next state of what its key has now, and the task holds
the lock. -/
def Carrying (env : Env) (idx : Indexes) (task : Task) : Prop :=
  ∀ effect response, task.pc.carries = some (effect, response) →
    ∃ scope call, task.request = .call scope call ∧
      task.partition = some (Calod.Ledger.partition env (effectKeyOf effect)) ∧
      Stores env scope call (idx.effectOf (effectKeyOf effect)) effect response ∧
      (idx.effectOf (effectKeyOf effect) = none → idx.effectsById[effect.id]? = none)

/-- Two tasks hold different locks and store different effects. -/
structure Apart (t u : Task) : Prop where
  partition : ∀ index, t.partition = some index → u.partition ≠ some index
  ids : ∀ e r e' r', t.pc.carries = some (e, r) → u.pc.carries = some (e', r') → e.id ≠ e'.id

section

variable {env : Env} {idx idx' : Indexes} {task : Task}

theorem located_start (hpc : task.pc = .start) : task.Located env idx := by
  constructor <;> intros <;> simp_all [Pc.pending]

theorem located_finish (task : Task) (result : Except LedgerError Response)
    (persisted : Option RecordKind) : (task.finish result persisted).Located env idx where
  acquire scope key req index _ hpc := by cases hpc
  transition scope id req caps index _ hpc := by cases hpc
  run scope call lock _ hpc := by cases hpc
  record scope call kind _ hpc := by cases hpc

/-- Snapshots are not about effects. -/
theorem located_snapshot (h : task.request = .snapshot) : task.Located env idx := by
  constructor <;> intros <;> simp_all

/-- A task past its first lock. -/
theorem Located.of_record {kind : RecordKind} (hpc : task.pc.pending = some kind)
    (hcall : ∀ scope call, task.request = .call scope call → kind.effect = none →
      call.partitioned = false) : task.Located env idx := by
  refine ⟨?_, ?_, ?_, ?_⟩
  · intro scope key req index _ h
    rw [h] at hpc
    cases hpc
  · intro scope id req caps index _ h
    rw [h] at hpc
    cases hpc
  · intro scope call lock _ h
    rw [h] at hpc
    cases hpc
  · intro scope call kind' hrequest h
    rw [hpc] at h
    cases h
    exact hcall scope call hrequest

/-- Where a task waits does not change as long as effects keep their keys. -/
theorem Located.mono (h : task.Located env idx)
    (hscope : ∀ scope id e, effectInScope idx scope id = .ok e →
      ∃ e', effectInScope idx' scope id = .ok e' ∧ effectKeyOf e' = effectKeyOf e) :
    task.Located env idx' where
  acquire := h.acquire
  transition scope id req caps index hrequest hpc := by
    obtain ⟨e, he, hindex⟩ := h.transition scope id req caps index hrequest hpc
    obtain ⟨e', he', hkey⟩ := hscope scope id e he
    exact ⟨e', he', hkey ▸ hindex⟩
  run := h.run
  record := h.record

end

theorem Apart.of_idle {t u : Task} (hpartition : t.partition = none)
    (hcarries : t.pc.carries = none) : t.Apart u where
  partition index ht := by
    rw [hpartition] at ht
    cases ht
  ids e r e' r' ht := by
    rw [hcarries] at ht
    cases ht

theorem Apart.symm {t u : Task} (h : t.Apart u) : u.Apart t where
  partition index hu ht := h.partition index ht hu
  ids e r e' r' hu ht hid := h.ids e' r' e r ht hu hid.symm

end Task

namespace Sys

/-! ## Steps that remove nothing -/

/-- Is the id stored as an effect's, or about to be? -/
def usesId (s : Sys) (id : Uuid) : Bool :=
  s.ledger.indexes.effectsById[id]?.isSome ||
    s.tasks.any fun task => task.pc.carries.any fun p => p.1.id = id

/-- If the step may create an effect, `new_id` yields an id that no effect uses. -/
def freshId (s : Sys) : Action → Bool
  | .step i draws =>
    match s.tasks[i]?.map Task.pc with
    | some (.waitPartition _) => !s.usesId draws.id
    | _ => true
  | _ => true

/-- Calls only, nothing is removed, and effects get unused ids. -/
def unpruned (s : Sys) (action : Action) : Bool :=
  s.callsOnly action && ((s.commits action).all fun p => !p.2.isRetention) && s.freshId action

def Action.isReopen : Action → Bool
  | .reopen _ => true
  | _ => false

/-- No restart, nothing is removed, and effects get unused ids; snapshots may be taken. -/
def keepsEffects (s : Sys) (action : Action) : Bool :=
  !action.isReopen && ((s.commits action).all fun p => !p.2.isRetention) && s.freshId action

variable {env : Env} {s s' : Sys} {action : Action} {i : Nat} {task task' : Task}

theorem unpruned_callsOnly (h : s.unpruned action = true) : s.callsOnly action = true :=
  (Bool.and_eq_true_iff.mp (Bool.and_eq_true_iff.mp h).1).1

theorem unpruned_ne_reopen (h : s.unpruned action = true) (keep : Bool) :
    action ≠ .reopen keep := by
  rintro rfl
  cases unpruned_callsOnly h

theorem unpruned_keeps (h : s.unpruned action = true) : s.keepsEffects action = true := by
  obtain ⟨h, hfresh⟩ := Bool.and_eq_true_iff.mp h
  obtain ⟨hcalls, hcommits⟩ := Bool.and_eq_true_iff.mp h
  have hopen : action.isReopen = false := by
    cases action with
    | reopen keep => cases hcalls
    | _ => rfl
  rw [keepsEffects, hopen, hcommits, hfresh]
  rfl

theorem keepsEffects_ne_reopen {keepUnacked : Bool} :
    s.keepsEffects (.reopen keepUnacked) ≠ true := by
  intro h
  cases (Bool.and_eq_true_iff.mp (Bool.and_eq_true_iff.mp h).1).1

theorem keepsEffects_commits (h : s.keepsEffects action = true)
    (hc : s.commits action = some (i, kind)) : kind.isRetention = false := by
  have hret := (Bool.and_eq_true_iff.mp (Bool.and_eq_true_iff.mp h).1).2
  rw [hc] at hret
  simpa using hret

theorem unpruned_commits (h : s.unpruned action = true) (hc : s.commits action = some (i, kind)) :
    kind.isRetention = false :=
  keepsEffects_commits (unpruned_keeps h) hc

theorem keepsEffects_fresh (h : s.keepsEffects (.step i draws) = true)
    (hi : s.tasks[i]? = some task) (hpc : task.pc = .waitPartition index) :
    s.ledger.indexes.effectsById[draws.id]? = none ∧
      ∀ (j : Nat) t e r, s.tasks[j]? = some t → t.pc.carries = some (e, r) →
        e.id ≠ draws.id := by
  have hfresh : s.usesId draws.id = false := by
    have := (Bool.and_eq_true_iff.mp h).2
    simpa [freshId, hi, hpc] using this
  obtain ⟨hstored, htasks⟩ := Bool.or_eq_false_iff.mp hfresh
  refine ⟨Option.not_isSome_iff_eq_none.mp (Bool.eq_false_iff.mp hstored), fun j t e r hj hc => ?_⟩
  have := List.any_eq_false.mp htasks t (List.mem_of_getElem? hj)
  simpa [hc] using this

theorem unpruned_noStaleRetention (h : s.unpruned action = true) :
    s.noStaleRetention action = true := by
  unfold noStaleRetention
  split
  · next hc => cases unpruned_commits h hc
  · rfl

/-! ## One holder for each partition -/

structure PartitionLock (env : Env) (s : Sys) : Prop where
  bound : s.ledger.indexes.Bound
  located : ∀ (i : Nat) (task : Task), s.tasks[i]? = some task →
    task.Located env s.ledger.indexes
  carrying : ∀ (i : Nat) (task : Task), s.tasks[i]? = some task →
    task.Carrying env s.ledger.indexes
  apart : ∀ (i j : Nat) (t u : Task), i ≠ j → s.tasks[i]? = some t → s.tasks[j]? = some u →
    t.Apart u

theorem partitionLock_init : PartitionLock env init where
  bound := Indexes.bound_empty
  located i task h := by simp [init] at h
  carrying i task h := by simp [init] at h
  apart i j t u _ h := by simp [init] at h

/-- The lock that a task holds after a step: none, the one it had, or one that was free. -/
def Keeps (s : Sys) (task task' : Task) : Prop :=
  task'.partition = none ∨ task'.partition = task.partition ∨
    ∃ index, task'.partition = some index ∧ s.partitionFree index = true

theorem Decides.keeps (h : s.Decides env task scope call task'.partition) : s.Keeps task task' := by
  generalize hp : task'.partition = p at h
  cases h with
  | unlocked => exact Or.inr (Or.inl hp)
  | partition hpc hfree => exact Or.inr (Or.inr ⟨_, hp, hfree⟩)
  | run => exact Or.inr (Or.inl hp)

/-- A task that has found out what it waits for is located. -/
theorem Waits.located (h : s.Waits env task) (hpending : task.pc.pending = none) :
    task.Located env s.ledger.indexes where
  acquire scope key req index hrequest hpc := by
    simp only [Waits, hrequest, hpc] at h
    obtain ⟨_, -, h⟩ := bind_eq_ok.mp h
    obtain ⟨_, -, h⟩ := bind_eq_ok.mp h
    cases pure_eq_ok.mp h
    rfl
  transition scope id req caps index hrequest hpc := by
    simp only [Waits, hrequest, hpc] at h
    obtain ⟨effect, heffect, h⟩ := bind_eq_ok.mp h
    cases pure_eq_ok.mp h
    exact ⟨effect, heffect, rfl⟩
  run scope call lock hrequest hpc := by
    simp only [Waits, hrequest, hpc] at h
    obtain ⟨runId, hcheck⟩ := h
    by_contra hcall
    obtain ⟨index, hlock⟩ := check_partitioned (Bool.eq_true_of_not_eq_false hcall) hcheck
    cases hlock
  record scope call kind _ h := by
    rw [hpending] at h
    cases h

theorem partitionFree_at (h : s.partitionFree index = true) (hi : s.tasks[i]? = some task) :
    task.partition ≠ some index := by
  have := List.all_eq_true.mp h task (List.mem_of_getElem? hi)
  simpa using this

variable (hl : PartitionLock env s) (hk : s.ledger.indexes.Keyed) (hi : s.tasks[i]? = some task)
  (htasks : s'.tasks = s.tasks.set i task') (hidx : s'.ledger.indexes = s.ledger.indexes)
  (hkeeps : s.Keeps task task') (hlocated : task'.Located env s.ledger.indexes)

include hl hi htasks hidx hkeeps hlocated in
/-- A step that moves one task and leaves the indexes alone. -/
theorem PartitionLock.set (hcarrying : task'.Carrying env s.ledger.indexes)
    (hids : ∀ j t e r e' r', j ≠ i → s.tasks[j]? = some t →
      task'.pc.carries = some (e, r) → t.pc.carries = some (e', r') → e.id ≠ e'.id) :
    PartitionLock env s' := by
  have hnew : ∀ j t, j ≠ i → s.tasks[j]? = some t → task'.Apart t := by
    intro j t hne hj
    refine ⟨fun index ht hu => ?_, fun e r e' r' he he' => hids j t e r e' r' hne hj he he'⟩
    rcases hkeeps with hnone | hsame | ⟨index', hsome, hfree⟩
    · rw [hnone] at ht
      cases ht
    · exact (hl.apart i j task t (Ne.symm hne) hi hj).partition index (hsame ▸ ht) hu
    · rw [hsome] at ht
      cases ht
      exact partitionFree_at hfree hj hu
  refine ⟨hidx ▸ hl.bound, fun j t hj => ?_, fun j t hj => ?_, fun j k t u hjk hj hk => ?_⟩
  · rw [htasks, getElem?_set_of_some hi] at hj
    rw [hidx]
    split at hj
    · cases hj
      exact hlocated
    · exact hl.located j t hj
  · rw [htasks, getElem?_set_of_some hi] at hj
    rw [hidx]
    split at hj
    · cases hj
      exact hcarrying
    · exact hl.carrying j t hj
  · rw [htasks, getElem?_set_of_some hi] at hj hk
    split at hj
    · next hij =>
      cases hj
      split at hk
      · next hik => exact absurd (hij.symm.trans hik) hjk
      · next hik => exact hnew k u (Ne.symm hik) hk
    · next hij =>
      split at hk
      · cases hk
        exact (hnew j t (Ne.symm hij) hj).symm
      · exact hl.apart j k t u hjk hj hk

include hl hi htasks hidx hkeeps hlocated in
/-- The same, for a task that is not about to store an effect. -/
theorem PartitionLock.set_plain (hplain : task'.pc.carries = none) : PartitionLock env s' := by
  refine hl.set hi htasks hidx hkeeps hlocated ?_ ?_
  · intro effect response h
    rw [hplain] at h
    cases h
  · intro j t e r e' r' _ _ h
    rw [hplain] at h
    cases h

include hl hi htasks hidx in
/-- The same, for a task that goes on with the effect it is about to store. -/
theorem PartitionLock.set_same (hrequest : task'.request = task.request)
    (hpartition : task'.partition = task.partition) (hcarries : task'.pc.carries = task.pc.carries)
    (hlocated : task'.Located env s.ledger.indexes) : PartitionLock env s' := by
  refine hl.set hi htasks hidx (Or.inr (Or.inl hpartition)) hlocated ?_ ?_
  · intro effect response h
    rw [hrequest, hpartition]
    exact hl.carrying i task hi effect response (hcarries ▸ h)
  · intro j t e r e' r' hne hj h h'
    exact (hl.apart i j task t (Ne.symm hne) hi hj).ids e r e' r' (hcarries ▸ h) h'

/-- A call that takes a partition lock decides with that lock. -/
theorem Decides.partitioned {p : Option Nat} (h : s.Decides env task scope call p)
    (hcall : call.partitioned = true) (hrequest : task.request = .call scope call)
    (hlocated : task.Located env s.ledger.indexes) :
    ∃ index, task.pc = .waitPartition index ∧ s.partitionFree index = true ∧ p = some index := by
  cases h with
  | unlocked hpc hcheck =>
    obtain ⟨index, hlock⟩ := check_partitioned hcall hcheck
    cases hlock
  | partition hpc hfree => exact ⟨_, hpc, hfree, rfl⟩
  | run hpc =>
    rw [hlocated.run scope call _ hrequest hpc] at hcall
    cases hcall

/-- What a call decides to store, under the lock it waited for. -/
theorem stores_underLock {idx : Indexes} (hb : idx.Bound) (hlocated : task.Located env idx)
    (hrequest : task.request = .call scope call) (hpc : task.pc = .waitPartition index)
    (h : call.underLock env idx scope draws = .ok (.effect change response)) :
    index = Calod.Ledger.partition env (effectKeyOf change.effect) ∧
      Stores env scope call (idx.effectOf (effectKeyOf change.effect)) change.effect response ∧
      (idx.effectOf (effectKeyOf change.effect) = none → change.effect.id = draws.id) := by
  have hcall := partitioned_of_effect h
  cases call with
  | acquire key req =>
    have hindex := hlocated.acquire scope key req index hrequest hpc
    obtain ⟨plan, hplan, he⟩ := map_eq_ok.mp h
    cases plan with
    | decide decision => cases he
    | apply change' decision token =>
      cases he
      obtain ⟨hkey, hstores, hid⟩ := stores_acquire hb hplan
      rw [hkey]
      exact ⟨hindex, hstores, hid⟩
  | transition id req caps =>
    obtain ⟨effect, hscope, hindex⟩ :=
      hlocated.transition scope id req caps index hrequest hpc
    obtain ⟨hstored, hscope⟩ := effectInScope_ok.mp hscope
    simp only [Call.underLock, hstored] at h
    obtain ⟨change', hplan, he⟩ := map_eq_ok.mp h
    cases he
    have hstores : Stores env scope (.transition id req caps) (some effect) change.effect
        (.effect change.effect.view) := .transition hscope hplan rfl
    have hof : idx.effectOf (effectKeyOf change.effect) = some effect :=
      hb.effectOf_eq_some.mpr ⟨id, hstored, hstores.frame.2.symm⟩
    rw [hof, hstores.frame.2]
    exact ⟨hindex, hstores, fun h => by cases h⟩
  | _ => cases hcall

include hl hk hi htasks hidx in
/-- A task decides to store an effect. -/
theorem PartitionLock.decide (hrequest' : task'.request = task.request) {scope : Scope}
    {call : Call} {draws : Draws} {change : EffectChange} {response : Response}
    (hrequest : task.request = .call scope call)
    (hdecides : s.Decides env task scope call task'.partition)
    (h : call.underLock env s.ledger.indexes scope draws = .ok (.effect change response))
    (hcarries : task'.pc.carries = some (change.effect, response))
    (hlocated : task'.Located env s.ledger.indexes)
    (hfresh : s.keepsEffects (.step i draws) = true) : PartitionLock env s' := by
  obtain ⟨index, hpc, hfree, hpartition⟩ :=
    hdecides.partitioned (partitioned_of_effect h) hrequest (hl.located i task hi)
  obtain ⟨hindex, hstores, hid⟩ :=
    stores_underLock hl.bound (hl.located i task hi) hrequest hpc h
  obtain ⟨hunused, hothers⟩ := keepsEffects_fresh hfresh hi hpc
  refine hl.set hi htasks hidx (Or.inr (Or.inr ⟨index, hpartition, hfree⟩)) hlocated ?_ ?_
  · intro effect r hc
    rw [hcarries] at hc
    cases hc
    refine ⟨scope, call, hrequest'.trans hrequest, hindex ▸ hpartition, hstores, fun hnone => ?_⟩
    rw [hid hnone]
    exact hunused
  · intro j t e r e' r' hne hj hc hc' hsame
    rw [hcarries] at hc
    cases hc
    cases hof : s.ledger.indexes.effectOf (effectKeyOf change.effect) with
    | none => exact hothers j t e' r' hj hc' (hsame.symm.trans (hid hof))
    | some old =>
      obtain ⟨scope', call', -, hp, hstores', hnone'⟩ := hl.carrying j t hj e' r' hc'
      rw [hof] at hstores
      obtain ⟨id, hstored, hkey⟩ := hl.bound.effectOf_eq_some.mp hof
      have hold : old.id = id := hk.effects id old hstored
      cases hof' : s.ledger.indexes.effectOf (effectKeyOf e') with
      | none =>
        -- the other effect is new, and this one is stored
        have hgone := hnone' hof'
        rw [← hsame, hstores.frame.1, hold, hstored] at hgone
        cases hgone
      | some old' =>
        -- both are stored: the same effect would be in the same partition
        rw [hof'] at hstores'
        obtain ⟨id', hstored', hkey'⟩ := hl.bound.effectOf_eq_some.mp hof'
        have hold' : old'.id = id' := hk.effects id' old' hstored'
        have hids : id = id' := by
          rw [← hold, ← hold', ← hstores.frame.1, ← hstores'.frame.1, hsame]
        subst hids
        rw [hstored] at hstored'
        cases hstored'
        rw [← hkey', hkey, ← hindex] at hp
        exact partitionFree_at hfree hj hp

/-! ## Storing an effect -/

/-- An effect that is found in a scope is still found there after storing one. -/
theorem effectInScope_put {idx idx' : Indexes} {effect e : EffectRecord} {id : Uuid}
    (hput : idx.Puts effect) (hbyId : idx'.effectsById = idx.effectsById.insert effect.id effect)
    (h : effectInScope idx scope id = .ok e) :
    ∃ e', effectInScope idx' scope id = .ok e' ∧ effectKeyOf e' = effectKeyOf e := by
  obtain ⟨hstored, hscope⟩ := effectInScope_ok.mp h
  by_cases hid : effect.id = id
  · subst hid
    rcases hput with ⟨hnone, -⟩ | ⟨old, hold, hkey⟩
    · rw [hnone] at hstored
      cases hstored
    · rw [hold] at hstored
      cases hstored
      have hsame := hkey
      simp only [effectKeyOf, EffectKey.mk.injEq] at hsame
      refine ⟨effect, effectInScope_ok.mpr
        ⟨?_, hsame.1 ▸ hscope.1, hsame.2.1 ▸ hscope.2⟩, hkey.symm⟩
      rw [hbyId, Map.get_insert, if_pos rfl]
  · refine ⟨e, effectInScope_ok.mpr ⟨?_, hscope⟩, rfl⟩
    rw [hbyId, Map.get_insert, if_neg hid]
    exact hstored

include hl hi in
/-- A step that returns from task `i` and changes the indexes in a way that the other tasks do
not notice. -/
theorem PartitionLock.return {result : Except LedgerError Response} {persisted : Option RecordKind}
    (htasks : s'.tasks = s.tasks.set i (task.finish result persisted))
    (hbound : s'.ledger.indexes.Bound)
    (hscope : ∀ scope id e, effectInScope s.ledger.indexes scope id = .ok e →
      ∃ e', effectInScope s'.ledger.indexes scope id = .ok e' ∧ effectKeyOf e' = effectKeyOf e)
    (hothers : ∀ j t e r, i ≠ j → s.tasks[j]? = some t →
      t.pc.carries = some (e, r) →
      s'.ledger.indexes.effectOf (effectKeyOf e) = s.ledger.indexes.effectOf (effectKeyOf e) ∧
        s'.ledger.indexes.effectsById[e.id]? = s.ledger.indexes.effectsById[e.id]?) :
    PartitionLock env s' := by
  refine ⟨hbound, fun j t hj => ?_, fun j t hj => ?_, fun j k t u hjk hj hk => ?_⟩
  · rw [htasks, getElem?_set_of_some hi] at hj
    split at hj
    · cases hj
      exact Task.located_finish ..
    · exact (hl.located j t hj).mono hscope
  · rw [htasks, getElem?_set_of_some hi] at hj
    split at hj
    · cases hj
      intro e r h
      cases h
    · next hij =>
      intro e r h
      obtain ⟨scope, call, hrequest, hp, hstores, hnone⟩ := hl.carrying j t hj e r h
      obtain ⟨hof, hid⟩ := hothers j t e r hij hj h
      rw [hof, hid]
      exact ⟨scope, call, hrequest, hp, hstores, hnone⟩
  · rw [htasks, getElem?_set_of_some hi] at hj hk
    split at hj
    · cases hj
      exact .of_idle rfl rfl
    · split at hk
      · cases hk
        exact (Task.Apart.of_idle rfl rfl).symm
      · exact hl.apart j k t u hjk hj hk

theorem carries_of_appended {effect : EffectRecord} {position : WalPosition}
    (hpc : task.pc = .appended kind response position) (he : kind.effect = some effect) :
    task.pc.carries = some (effect, response) := by
  rw [hpc, Pc.carries, he]
  rfl

include hl hk hi in
/-- What a task is about to store, and what that leaves of the effects. -/
theorem PartitionLock.stores {effect : EffectRecord} {position : WalPosition}
    (hpc : task.pc = .appended kind response position) (he : kind.effect = some effect)
    (hidx : s'.ledger.indexes = (s.ledger.indexes.apply kind).1) :
    ∃ scope call, task.request = .call scope call ∧
      Stores env scope call (s.ledger.indexes.effectOf (effectKeyOf effect)) effect response ∧
      ∀ key, s'.ledger.indexes.effectOf key
        = if effectKeyOf effect = key then some effect else s.ledger.indexes.effectOf key := by
  obtain ⟨scope, call, hrequest, -, hstores, hnone⟩ :=
    hl.carrying i task hi effect response (carries_of_appended hpc he)
  obtain ⟨hbyId, hids⟩ := Indexes.effects_apply_effect he
  rw [← hidx] at hbyId hids
  refine ⟨scope, call, hrequest, hstores, hl.bound.effectOf_put ?_ hbyId hids⟩
  exact puts_of_stores hl.bound hk hstores hnone

include hl hk hi in
/-- A task stores its record, and returns. -/
theorem PartitionLock.commit {position : WalPosition}
    (hpc : task.pc = .appended kind response position)
    (htasks : s'.tasks = s.tasks.set i (task.finish result persisted))
    (hidx : s'.ledger.indexes = (s.ledger.indexes.apply kind).1)
    (hretention : kind.isRetention = false) : PartitionLock env s' := by
  cases he : kind.effect with
  | none =>
    obtain ⟨hbyId, hids⟩ := Indexes.effects_apply_other he hretention
    rw [← hidx] at hbyId hids
    refine hl.return hi htasks ?_ ?_ ?_
    · exact ⟨by rw [hbyId, hids]; exact hl.bound.lookup, by rw [hbyId, hids]; exact hl.bound.stored⟩
    · intro scope id e h
      refine ⟨e, ?_, rfl⟩
      rwa [effectInScope, hbyId]
    · intro j t e r _ _ _
      rw [Indexes.effectOf, hids, hbyId]
      exact ⟨rfl, rfl⟩
  | some effect =>
    have hcarries := carries_of_appended hpc he
    obtain ⟨scope, call, -, hp, hstores, hnone⟩ := hl.carrying i task hi effect response hcarries
    have hput := puts_of_stores hl.bound hk hstores hnone
    obtain ⟨hbyId, hids⟩ := Indexes.effects_apply_effect he
    rw [← hidx] at hbyId hids
    refine hl.return hi htasks (hl.bound.put hput hbyId hids) ?_ ?_
    · exact fun _ _ _ h => effectInScope_put hput hbyId h
    · intro j t e r hij hj hc
      have hapart := hl.apart i j task t hij hi hj
      obtain ⟨-, -, -, hp', -⟩ := hl.carrying j t hj e r hc
      have hkey : effectKeyOf effect ≠ effectKeyOf e := by
        intro hkey
        exact hapart.partition _ hp (hkey ▸ hp')
      rw [hl.bound.effectOf_put hput hbyId hids, if_neg hkey, hbyId, Map.get_insert,
        if_neg (hapart.ids effect response e r hcarries hc)]
      exact ⟨rfl, rfl⟩

/-- **Every step keeps the partition locks exclusive and the effects in flight up to date.** -/
theorem PartitionLock.step (hl : PartitionLock env s) (hk : s.ledger.indexes.Keyed)
    (hcond : s.keepsEffects action = true) (h : s.step env action = some s') :
    PartitionLock env s' := by
  cases step_moves h with
  | spawn request =>
    refine ⟨hl.bound, fun j t hj => ?_, fun j t hj => ?_, fun j k t u hjk hj hk => ?_⟩
    · rcases getElem?_append_singleton hj with hj | rfl
      · exact hl.located j t hj
      · exact Task.located_start rfl
    · rcases getElem?_append_singleton hj with hj | rfl
      · exact hl.carrying j t hj
      · intro e r hc
        cases hc
    · rcases getElem?_append_singleton hj with hj | rfl
      · rcases getElem?_append_singleton hk with hk | rfl
        · exact hl.apart j k t u hjk hj hk
        · exact (Task.Apart.of_idle rfl rfl).symm
      · exact .of_idle rfl rfl
  | quiet haction locks hi hrequest hpc hbefore hpartition hwaits =>
    exact hl.set_plain hi rfl rfl (hpartition.imp_right Or.inl) (hwaits.located hpc.pending)
      hpc.carries
  | answer hi => exact hl.set_plain hi rfl rfl (Or.inl rfl) (Task.located_finish ..) rfl
  | persist hi hrequest hrequest' hpc hu hbefore hdecides =>
    refine hl.set_plain hi rfl rfl hdecides.keeps
      (Task.Located.of_record (by rw [hpc]; rfl) ?_) ?_
    · intro scope call h _
      rw [hrequest', hrequest] at h
      cases h
      exact partitioned_of_persist hu
    · rw [hpc, Pc.carries, (built_of_persist hu).2.1]
      rfl
  | persistRunless hi hrequest hrequest' hpc hrun hu hbefore hdecides =>
    refine hl.decide hk hi rfl rfl hrequest' hrequest hdecides hu (by rw [hpc]; rfl)
      (Task.Located.of_record (by rw [hpc]; rfl) fun _ _ _ h => ?_) hcond
    cases h
  | waitEffectRun locks hi hrequest hrequest' hpc hu hbefore hdecides =>
    refine hl.decide hk hi rfl rfl hrequest' hrequest hdecides hu (by rw [hpc]; rfl) ?_ hcond
    constructor <;> intros <;> simp_all [Pc.pending]
  | persistEffect hi hrequest hrequest' hold hpc hevent hpartition =>
    refine hl.set_same hi rfl rfl hrequest' hpartition (by rw [hpc, hold]; rfl)
      (Task.Located.of_record (by rw [hpc]; rfl) fun _ _ _ h => ?_)
    cases h
  | append hi hpc hfree hlen =>
    refine hl.set_same hi rfl rfl rfl rfl (by rw [hpc]; rfl) (Task.Located.of_record rfl ?_)
    intro scope call hrequest
    exact (hl.located _ _ hi).record scope call _ hrequest (by rw [hpc]; rfl)
  | commit hi hpc =>
    rename_i i task draws kind response position
    obtain ⟨result, hresult⟩ := finish_commit s task kind response position
    refine hl.commit hk hi hpc (congrArg (s.tasks.set i) hresult) (indexes_commit ..) ?_
    exact keepsEffects_commits hcond (commits_of_appended draws hi hpc)
  | saveState hi hrequest | list hi hrequest | remove hi hrequest =>
    exact hl.set_plain hi rfl rfl (Or.inr (Or.inl rfl)) (Task.located_snapshot hrequest) rfl
  | saveManifest hi hrequest =>
    refine hl.set_plain hi rfl rfl (Or.inr (Or.inl rfl)) (Task.located_snapshot hrequest) ?_
    exact Pc.carries_afterSave _
  | reopen ho => exact absurd hcond keepsEffects_ne_reopen

end Sys

end Calod.Ledger
