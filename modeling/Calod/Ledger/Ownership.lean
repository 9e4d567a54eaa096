import Calod.Ledger.Leases
import Calod.Ledger.Sequential

/-!
# What belongs to whom

Runs and effects belong to the scope of the call that created them, and every id is one that
some call drew. `Owned` says how the records hang together: an effect and its run have one
owner, and only runs that exist have events and checkpoints.

* `Writes` — what a call persists and answers, with the draws it used
* `Owned.apply` — every record that a call persists keeps the indexes owned
* `ids_of_decide` — an answer shows only ids that were drawn
-/

namespace Calod.Ledger

open Calod.Core Calod.Serde Lib

variable {run : RunRecord} {effect : EffectRecord} {call : Call} {r : Uuid}

/-! ## Owners -/

def RunRecord.owner (run : RunRecord) : Scope where
  tenantId := run.tenantId
  projectId := run.projectId

def EffectRecord.owner (effect : EffectRecord) : Scope where
  tenantId := effect.tenantId
  projectId := effect.projectId

/-- The scope whose calls use the key. -/
def EffectKey.owner (key : EffectKey) : Scope where
  tenantId := key.tenantId
  projectId := key.projectId

theorem owner_effectKeyOf (effect : EffectRecord) : (effectKeyOf effect).owner = effect.owner := rfl

theorem owner_acquireKey (scope : Scope) (key : String) (req : AcquireEffectRequest) :
    (acquireKey scope key req).owner = scope := rfl

section

variable {idx : Indexes} {scope : Scope}

theorem runInScope_iff {runId : Uuid} :
    runInScope idx scope runId = .ok run ↔ idx.runs[runId]? = some run ∧ run.owner = scope := by
  rw [runInScope_ok]
  cases scope
  simp only [RunRecord.owner, Scope.mk.injEq]

theorem effectInScope_iff {effectId : Uuid} :
    effectInScope idx scope effectId = .ok effect ↔
      idx.effectsById[effectId]? = some effect ∧ effect.owner = scope := by
  rw [effectInScope_ok]
  cases scope
  simp only [EffectRecord.owner, Scope.mk.injEq]

end

/-- The stored checkpoints of a run. -/
def Indexes.checkpointsOf (idx : Indexes) (runId : Uuid) : List CheckpointRecord :=
  idx.checkpoints[runId]?.getD []

/-- The ids that a call draws. -/
def Draws.ids (draws : Draws) : List Uuid := [draws.id, draws.eventId]

/-! ## What a call writes -/

/-- What a call persists, retention apart, and what it answers. -/
inductive Writes (env : Env) (idx : Indexes) (scope : Scope) (draws : Draws) :
    RecordKind → Response → Prop where
  | runCreated {run : RunRecord} (hid : run.id = draws.id) (howner : run.owner = scope)
      (hparent : ∀ p, run.parentRunId = some p → ∃ parent, idx.runs[p]? = some parent) :
      Writes env idx scope draws (.runCreated run) (.run run.view)
  | runUpdated {runId : Uuid} {run : RunRecord} (hrun : runInScope idx scope runId = .ok run)
      (status : RunStatus) :
      Writes env idx scope draws (.runUpdated (run.withStatus status draws.now))
        (.run (run.withStatus status draws.now).view)
  | effectApplied {call : Call} {change : EffectChange} {event : Option EventRecord}
      {response : Response} (howner : change.effect.owner = scope)
      (hstores : Stores env scope call (idx.effectOf (effectKeyOf change.effect)) change.effect
        response)
      (hnew : idx.effectOf (effectKeyOf change.effect) = none → change.effect.id = draws.id)
      (hevent : buildEffectEvent env.crates idx scope change draws.now draws.eventId = .ok event) :
      Writes env idx scope draws (.effectApplied change.effect event) response
  | eventAppended {runId : Uuid} {run : RunRecord} (hrun : runInScope idx scope runId = .ok run)
      (eventType : String) (occurredAtMs : Int) (payload : Value) :
      Writes env idx scope draws
        (.eventAppended (buildEvent env.crates scope run eventType occurredAtMs payload draws.now
          draws.eventId))
        (.event (buildEvent env.crates scope run eventType occurredAtMs payload draws.now
          draws.eventId).view)
  | checkpointCreated {run : RunRecord} {checkpoint : CheckpointRecord}
      (hrun : runInScope idx scope checkpoint.runId = .ok run) (hid : checkpoint.id = draws.id) :
      Writes env idx scope draws (.checkpointCreated checkpoint) (.checkpoint checkpoint.view)

section

variable {env : Env} {idx : Indexes} {scope : Scope} {draws : Draws} {kind : RecordKind}
  {response : Response}

/-- What `acquire` and `transition` store. -/
theorem writes_effect {lock : FirstLock} {change : EffectChange} {event : Option EventRecord}
    (hb : idx.Bound) (hcheck : call.check env idx scope = .ok lock)
    (h : call.underLock env idx scope draws = .ok (.effect change response))
    (hevent : buildEffectEvent env.crates idx scope change draws.now draws.eventId = .ok event) :
    Writes env idx scope draws (.effectApplied change.effect event) response := by
  cases call with
  | acquire key req =>
    obtain ⟨plan, hplan, he⟩ := map_eq_ok.mp h
    cases plan with
    | decide decision => cases he
    | apply change' decision token =>
      cases he
      obtain ⟨hkey, hstores, hid⟩ := stores_acquire hb hplan
      rw [← hkey] at hstores hid
      refine .effectApplied ?_ hstores hid hevent
      rw [← owner_effectKeyOf, hkey, owner_acquireKey]
  | transition id req caps =>
    obtain ⟨effect, heffect, -⟩ := bind_eq_ok.mp hcheck
    obtain ⟨hstored, hscope⟩ := effectInScope_ok.mp heffect
    simp only [Call.underLock, hstored] at h
    obtain ⟨change', hplan, he⟩ := map_eq_ok.mp h
    cases he
    have hstores : Stores env scope (.transition id req caps) (some effect) change.effect
        (.effect change.effect.view) := .transition hscope hplan rfl
    have hkey := hstores.frame.2
    have hof : idx.effectOf (effectKeyOf change.effect) = some effect :=
      hb.effectOf_eq_some.mpr ⟨id, hstored, hkey.symm⟩
    refine .effectApplied ?_ (hof ▸ hstores) ?_ hevent
    · rw [← owner_effectKeyOf, hkey, owner_effectKeyOf]
      exact (effectInScope_iff.mp heffect).2
    · intro hnone
      cases hof.symm.trans hnone
  | applyRetention policy =>
    simp only [Call.underLock] at h
    split at h <;> cases h
  | _ =>
    obtain ⟨_, -, he⟩ := map_eq_ok.mp h
    cases he

theorem writes_persist (hk : idx.Keyed) (hret : call.isRetention = false)
    (h : call.underLock env idx scope draws = .ok (.persist kind response)) :
    Writes env idx scope draws kind response := by
  cases persists_of_underLock h with
  | createRun req hrun => exact .runCreated (hrun ▸ rfl) (hrun ▸ rfl) (hrun ▸ nofun)
  | forkRun req sequence hparent hrun =>
    refine .runCreated (hrun ▸ rfl) (hrun ▸ rfl) fun p hp => ?_
    have hparent := (runInScope_iff.mp hparent).1
    rw [hrun] at hp
    cases hp
    rw [hk.runs _ _ hparent]
    exact ⟨_, hparent⟩
  | updateRun req hrun => exact .runUpdated hrun _
  | appendEvent req hrun hevent => exact hevent ▸ .eventAppended hrun ..
  | createCheckpoint req expected hrun hrunId hid => exact .checkpointCreated (hrunId ▸ hrun) hid
  | applyRetention => cases hret

/-- **Every record that a call decides on comes from what it read and what it drew.** -/
theorem writes_of_decide (hb : idx.Bound) (hk : idx.Keyed) (hret : call.isRetention = false)
    (h : call.decide env idx scope draws = .ok (some kind, response)) :
    Writes env idx scope draws kind response := by
  unfold Call.decide at h
  obtain ⟨lock, hcheck, h⟩ := bind_eq_ok.mp h
  obtain ⟨next, hnext, h⟩ := bind_eq_ok.mp h
  cases next with
  | answer r => cases pure_eq_ok.mp h
  | persist k r =>
    cases pure_eq_ok.mp h
    exact writes_persist hk hret hnext
  | effect change r =>
    obtain ⟨event, hevent, h⟩ := bind_eq_ok.mp h
    cases pure_eq_ok.mp h
    exact writes_effect hb hcheck hnext hevent

section

variable (h : Writes env idx scope draws kind response)

include h

/-- The event of a record has the drawn id, and its run is one of the scope. -/
theorem Writes.event_spec {event : EventRecord} (hk : idx.Keyed) (he : kind.event = some event) :
    event.id = draws.eventId ∧ ∃ run, runInScope idx scope event.runId = .ok run := by
  have hat : ∀ {runId run}, runInScope idx scope runId = .ok run →
      ∃ run', runInScope idx scope run.id = .ok run' := by
    intro runId run hrun
    rw [hk.runs runId run (runInScope_ok.mp hrun).1]
    exact ⟨run, hrun⟩
  cases h with
  | runCreated => cases he
  | runUpdated => cases he
  | checkpointCreated => cases he
  | eventAppended hrun =>
    cases he
    exact ⟨rfl, hat hrun⟩
  | effectApplied howner hstores hnew hevent =>
    obtain rfl : _ = some event := he
    unfold buildEffectEvent at hevent
    split at hevent
    · cases hevent
    · obtain ⟨run, hrun, hevent⟩ := bind_eq_ok.mp hevent
      cases pure_eq_ok.mp hevent
      exact ⟨rfl, hat hrun⟩

/-- An effect is stored under the drawn id, or it keeps the id it has. -/
theorem Writes.effect_id (hb : idx.Bound) (he : kind.effect = some effect) :
    effect.id = draws.id ∨
      ∃ (e : Uuid) (old : EffectRecord), idx.effectsById[e]? = some old ∧ effect.id = old.id := by
  cases h with
  | runCreated | runUpdated | checkpointCreated | eventAppended => cases he
  | effectApplied howner hstores hnew hevent =>
    obtain rfl := Option.some.inj he
    cases hof : idx.effectOf (effectKeyOf _) with
    | none => exact Or.inl (hnew hof)
    | some old =>
      rw [hof] at hstores
      obtain ⟨e, hold, -⟩ := hb.effectOf_eq_some.mp hof
      exact Or.inr ⟨e, old, hold, hstores.frame.1⟩

/-- The run of an effect that is stored exists, in the scope of the call. -/
theorem Writes.effect_run (he : kind.effect = some effect) (hr : effect.runId = some r) :
    ∃ run, runInScope idx scope r = .ok run := by
  cases h with
  | runCreated | runUpdated | checkpointCreated | eventAppended => cases he
  | effectApplied howner hstores hnew hevent =>
    cases he
    unfold buildEffectEvent at hevent
    rw [hr] at hevent
    obtain ⟨run, hrun, -⟩ := bind_eq_ok.mp hevent
    exact ⟨run, hrun⟩

end

end

/-! ## Ids -/

def Run.ids (run : Run) : List Uuid := run.id :: run.parentRunId.toList

def Effect.ids (effect : Effect) : List Uuid := effect.id :: effect.runId.toList

def Event.ids (event : Event) : List Uuid := [event.id, event.runId]

def Checkpoint.ids (checkpoint : Checkpoint) : List Uuid := [checkpoint.id, checkpoint.runId]

/-- The ids of all runs, effects, events and checkpoints that an answer has or refers to. -/
def Response.ids : Response → List Uuid
  | .decision d => d.effect.ids
  | .effect e => e.ids
  | .effects page => page.data.flatMap Effect.ids
  | .run r => r.ids
  | .runs page => page.data.flatMap Run.ids
  | .event e => e.ids
  | .verified _ => []
  | .events page => page.data.flatMap Event.ids
  | .checkpoint c => c.ids
  | .checkpoints page => page.data.flatMap Checkpoint.ids
  | .report _ => []
  | .exported e => e.run.ids ++ e.effects.flatMap Effect.ids ++ e.events.flatMap Event.ids
      ++ e.checkpoints.flatMap Checkpoint.ids

/-- What is stored is what is shown. -/
theorem Stores.ids {env : Env} {scope : Scope} {old : Option EffectRecord} {next : EffectRecord}
    {response : Response} (h : Stores env scope call old next response) :
    response.ids = next.view.ids := by
  cases h <;> rfl

/-! ## Owned indexes -/

/-- All ids are in `used`, effects belong where their run does, and timelines have a run. -/
structure Indexes.Owned (crates : Crates) (used : List Uuid) (idx : Indexes) : Prop where
  wellFormed : idx.WellFormed crates
  bound : idx.Bound
  runs : ∀ (r : Uuid) (run : RunRecord), idx.runs[r]? = some run → run.view.ids ⊆ used
  effects : ∀ (e : Uuid) (effect : EffectRecord), idx.effectsById[e]? = some effect →
    effect.view.ids ⊆ used
  effectRuns : ∀ (e r : Uuid) (effect : EffectRecord), idx.effectsById[e]? = some effect →
    effect.runId = some r → ∃ run, idx.runs[r]? = some run ∧ run.owner = effect.owner
  timelines : ∀ (r : Uuid), ∀ event ∈ idx.timeline r,
    event.view.ids ⊆ used ∧ ∃ run, idx.runs[r]? = some run
  checkpoints : ∀ (r : Uuid), ∀ c ∈ idx.checkpointsOf r,
    c.view.ids ⊆ used ∧ ∃ run, idx.runs[r]? = some run

namespace Indexes

variable {env : Env} {idx : Indexes} {scope : Scope} {draws : Draws} {kind : RecordKind}
  {response : Response} {used : List Uuid} {crates : Crates}

theorem owned_empty : Owned crates [] empty where
  wellFormed := wellFormed_empty
  bound := bound_empty
  runs r run h := by simp [empty] at h
  effects e effect h := by simp [empty] at h
  effectRuns e r effect h := by simp [empty] at h
  timelines r event h := by simp [empty, timeline] at h
  checkpoints r c h := by simp [empty, checkpointsOf] at h

section

variable (ho : Owned crates used idx)

include ho

theorem Owned.mono {used' : List Uuid} (h : used ⊆ used') : Owned crates used' idx where
  wellFormed := ho.wellFormed
  bound := ho.bound
  runs r run hr := List.Subset.trans (ho.runs r run hr) h
  effects e effect he := List.Subset.trans (ho.effects e effect he) h
  effectRuns := ho.effectRuns
  timelines r event he :=
    ⟨List.Subset.trans (ho.timelines r event he).1 h, (ho.timelines r event he).2⟩
  checkpoints r c hc := ⟨List.Subset.trans (ho.checkpoints r c hc).1 h, (ho.checkpoints r c hc).2⟩

theorem Owned.run_used (h : idx.runs[r]? = some run) : r ∈ used := by
  have := ho.runs r run h List.mem_cons_self
  rwa [show run.view.id = r from ho.wellFormed.keyed.runs r run h] at this

theorem Owned.effect_used {e : Uuid} (h : idx.effectsById[e]? = some effect) : e ∈ used := by
  have := ho.effects e effect h List.mem_cons_self
  rwa [show effect.view.id = e from ho.wellFormed.keyed.effects e effect h] at this

theorem Owned.runs_none (h : r ∉ used) : idx.runs[r]? = none :=
  Option.eq_none_iff_forall_not_mem.mpr fun _ hr => h (ho.run_used hr)

theorem Owned.effects_none {e : Uuid} (h : e ∉ used) : idx.effectsById[e]? = none :=
  Option.eq_none_iff_forall_not_mem.mpr fun _ he => h (ho.effect_used he)

end

theorem mem_putCheckpoint_getD {checkpoint c : CheckpointRecord}
    (h : c ∈ (idx.putCheckpoint checkpoint).checkpoints[r]?.getD []) :
    (c = checkpoint ∧ checkpoint.runId = r) ∨ c ∈ idx.checkpointsOf r := by
  cases hl : (idx.putCheckpoint checkpoint).checkpoints[r]? with
  | none =>
    rw [hl] at h
    cases h
  | some l =>
    rw [hl] at h
    rcases mem_putCheckpoint hl h with hnew | ⟨l', hl', hc⟩
    · exact Or.inl hnew
    · exact Or.inr (by rw [checkpointsOf, hl']; exact hc)

/-- The ids of a new run: its own, and that of its parent. -/
theorem Owned.created_ids (ho : Owned crates used idx) (hid : run.id = draws.id)
    (hparent : ∀ p, run.parentRunId = some p → ∃ parent, idx.runs[p]? = some parent) :
    run.view.ids ⊆ draws.ids ++ used := by
  refine List.cons_subset.mpr ⟨?_, fun p hp => ?_⟩
  · rw [show run.view.id = draws.id from hid]
    exact List.mem_append_left _ List.mem_cons_self
  · obtain ⟨parent, hp⟩ := hparent p (Option.mem_toList.mp hp)
    exact List.mem_append_right _ (ho.run_used hp)

/-- A run after a record: as before, up to its status and head, or it is the new one. -/
theorem Owned.run_after (ho : Owned crates used idx)
    (hw : Writes env idx scope draws kind response) (r : Uuid) :
    (∃ old run, idx.runs[r]? = some old ∧ (idx.apply kind).1.runs[r]? = some run ∧
        run.owner = old.owner ∧ run.view.ids = old.view.ids) ∨
      (idx.runs[r]? = none ∧ (idx.apply kind).1.runs[r]? = none) ∨
      (r = draws.id ∧ ∃ run, (idx.apply kind).1.runs[r]? = some run ∧ kind = .runCreated run) := by
  rcases apply_at idx kind r with ⟨h, -⟩ | ⟨run, hkind, hid, h, -⟩ | ⟨event, -, -, -, -, h, -⟩ |
      ⟨_, _, _, rfl, -⟩
  · rw [h]
    cases idx.runs[r]? with
    | none => exact Or.inr (Or.inl ⟨rfl, rfl⟩)
    | some run => exact Or.inl ⟨run, run, rfl, rfl, rfl, rfl⟩
  · rcases hkind with rfl | rfl
    · cases hw with
      | runCreated hdrawn => exact Or.inr (Or.inr ⟨hid.symm.trans hdrawn, run, h, rfl⟩)
    · cases hw with
      | runUpdated hrun status =>
        obtain ⟨hold, -⟩ := runInScope_iff.mp hrun
        obtain rfl : _ = r := (ho.wellFormed.keyed.runs _ _ hold).symm.trans hid
        exact Or.inl ⟨_, _, hold, h, rfl, rfl⟩
  · rw [h]
    cases idx.runs[r]? with
    | none => exact Or.inr (Or.inl ⟨rfl, rfl⟩)
    | some run => exact Or.inl ⟨run, _, rfl, rfl, rfl, rfl⟩
  · cases hw

section

variable (ho : Owned env.crates used idx) (hw : Writes env idx scope draws kind response)
  (hfresh : draws.id ∉ used)

include ho hw hfresh

theorem Owned.run_kept (h : idx.runs[r]? = some run) :
    ∃ run', (idx.apply kind).1.runs[r]? = some run' ∧ run'.owner = run.owner := by
  rcases ho.run_after hw r with ⟨old, run', hold, hr, howner, -⟩ | ⟨hnone, -⟩ | ⟨rfl, -⟩
  · cases hold.symm.trans h
    exact ⟨run', hr, howner⟩
  · cases hnone.symm.trans h
  · exact absurd (ho.run_used h) hfresh

theorem Owned.bound_apply : (idx.apply kind).1.Bound := by
  rcases effects_apply idx kind with ⟨hbyId, hids⟩ | ⟨effect, event, rfl, hbyId, hids⟩ |
      ⟨_, _, _, rfl, -⟩
  · exact ⟨by rw [hbyId, hids]; exact ho.bound.lookup, by rw [hbyId, hids]; exact ho.bound.stored⟩
  · cases hw with
    | effectApplied howner hstores hnew hevent =>
      refine ho.bound.put (puts_of_stores ho.bound ho.wellFormed.keyed hstores fun hnone => ?_)
        hbyId hids
      rw [hnew hnone]
      exact ho.effects_none hfresh
  · cases hw

omit hfresh in
/-- The ids of an effect that is stored: its own, and that of its run. -/
theorem Owned.effect_ids (he : kind.effect = some effect) :
    effect.view.ids ⊆ draws.ids ++ used := by
  refine List.cons_subset.mpr ⟨?_, fun r hr => ?_⟩
  · change effect.id ∈ _
    rcases hw.effect_id ho.bound he with hid | ⟨e, old, hold, hid⟩ <;> rw [hid]
    · exact List.mem_append_left _ List.mem_cons_self
    · exact List.mem_append_right _ (ho.effects e old hold List.mem_cons_self)
  · obtain ⟨run, hrun⟩ := hw.effect_run he (Option.mem_toList.mp hr)
    exact List.mem_append_right _ (ho.run_used (runInScope_ok.mp hrun).1)

omit hfresh in
theorem Owned.event_ids {event : EventRecord} (he : kind.event = some event) :
    event.view.ids ⊆ draws.ids ++ used := by
  obtain ⟨hid, run, hrun⟩ := hw.event_spec ho.wellFormed.keyed he
  have hmem := ho.run_used (runInScope_ok.mp hrun).1
  simp [Event.ids, EventRecord.view, Draws.ids, hid, hmem]

/-- **Every record that a call persists keeps the indexes owned.** -/
theorem Owned.apply (hb : Built env idx scope kind) :
    Owned env.crates (draws.ids ++ used) (idx.apply kind).1 where
  wellFormed := ho.wellFormed.apply hb
  bound := ho.bound_apply hw hfresh
  runs r run h := by
    rcases ho.run_after hw r with ⟨old, run', hold, hr, -, hids⟩ | ⟨-, hnone⟩ | ⟨-, run', hr, rfl⟩
    · cases hr.symm.trans h
      rw [hids]
      exact List.subset_append_of_subset_right _ (ho.runs r old hold)
    · cases hnone.symm.trans h
    · cases hr.symm.trans h
      cases hw with
      | runCreated hid howner hparent => exact ho.created_ids hid hparent
  effects e effect h := by
    rcases effects_apply idx kind with ⟨hbyId, -⟩ | ⟨stored, event, rfl, hbyId, -⟩ |
        ⟨_, _, _, rfl, -⟩
    · exact List.subset_append_of_subset_right _ (ho.effects e effect (hbyId ▸ h))
    · rw [hbyId, Map.get_insert] at h
      split at h
      · cases h
        exact ho.effect_ids hw rfl
      · exact List.subset_append_of_subset_right _ (ho.effects e effect h)
    · cases hw
  effectRuns e r effect h hr := by
    have hold : idx.effectsById[e]? = some effect →
        ∃ run, (idx.apply kind).1.runs[r]? = some run ∧ run.owner = effect.owner := by
      intro he
      obtain ⟨run, hrun, howner⟩ := ho.effectRuns e r effect he hr
      obtain ⟨run', hrun', howner'⟩ := ho.run_kept hw hfresh hrun
      exact ⟨run', hrun', howner'.trans howner⟩
    rcases effects_apply idx kind with ⟨hbyId, -⟩ | ⟨stored, event, rfl, hbyId, -⟩ |
        ⟨_, _, _, rfl, -⟩
    · exact hold (hbyId ▸ h)
    · rw [hbyId, Map.get_insert] at h
      split at h
      · cases h
        obtain ⟨run, hrun⟩ := hw.effect_run rfl hr
        obtain ⟨hget, howner⟩ := runInScope_iff.mp hrun
        obtain ⟨run', hrun', howner'⟩ := ho.run_kept hw hfresh hget
        refine ⟨run', hrun', howner'.trans (howner.trans ?_)⟩
        cases hw with
        | effectApplied hscope => exact hscope.symm
      · exact hold h
    · cases hw
  timelines r event h := by
    have hold : event ∈ idx.timeline r →
        event.view.ids ⊆ draws.ids ++ used ∧ ∃ run, (idx.apply kind).1.runs[r]? = some run := by
      intro he
      obtain ⟨hids, run, hrun⟩ := ho.timelines r event he
      obtain ⟨run', hrun', -⟩ := ho.run_kept hw hfresh hrun
      exact ⟨List.subset_append_of_subset_right _ hids, run', hrun'⟩
    rcases apply_at idx kind r with ⟨-, ht⟩ | ⟨_, -, -, -, ht⟩ | ⟨new, hnew, hid, -, -, -, ht⟩ |
        ⟨_, _, _, rfl, -⟩
    · exact hold (ht ▸ h)
    · exact hold (ht ▸ h)
    · rw [ht] at h
      rcases List.mem_append.mp h with h | h
      · exact hold h
      · obtain rfl := List.mem_singleton.mp h
        obtain ⟨-, run, hrun⟩ := hw.event_spec ho.wellFormed.keyed hnew
        obtain ⟨run', hrun', -⟩ := ho.run_kept hw hfresh (runInScope_ok.mp hrun).1
        exact ⟨ho.event_ids hw hnew, run', hid ▸ hrun'⟩
    · cases hw
  checkpoints r c h := by
    have hold : c ∈ idx.checkpointsOf r →
        c.view.ids ⊆ draws.ids ++ used ∧ ∃ run, (idx.apply kind).1.runs[r]? = some run := by
      intro hc
      obtain ⟨hids, run, hrun⟩ := ho.checkpoints r c hc
      obtain ⟨run', hrun', -⟩ := ho.run_kept hw hfresh hrun
      exact ⟨List.subset_append_of_subset_right _ hids, run', hrun'⟩
    rcases checkpoints_apply idx kind with he | ⟨new, rfl, he⟩ | ⟨_, _, _, rfl, -⟩
    · rw [checkpointsOf, he] at h
      exact hold h
    · rw [checkpointsOf, he] at h
      rcases mem_putCheckpoint_getD h with ⟨rfl, hr⟩ | hc
      · cases hw with
        | checkpointCreated hrun hid =>
          obtain ⟨hget, -⟩ := runInScope_iff.mp hrun
          refine ⟨?_, _, hr ▸ hget⟩
          simp [Checkpoint.ids, CheckpointRecord.view, Draws.ids, hid, ho.run_used hget]
      · exact hold hc
    · cases hw

end

/-! ## Answers -/

theorem flatMap_ids_subset {α β : Type} {items : List α} {view : α → β} {ids : β → List Uuid}
    {l : List β} (hl : ∀ b ∈ l, ∃ a ∈ items, view a = b)
    (h : ∀ a ∈ items, ids (view a) ⊆ used) : l.flatMap ids ⊆ used := by
  intro id hid
  obtain ⟨b, hb, hid⟩ := List.mem_flatMap.mp hid
  obtain ⟨a, ha, rfl⟩ := hl b hb
  exact h a ha hid

theorem mem_listFrom {α β : Type} {items : List α} {key : α → Int × Uuid} {view : α → β}
    {after : Option (Int × Uuid)} {limit : Nat} {b : β}
    (h : b ∈ (listFrom items key view after limit).data) : ∃ a ∈ items, view a = b := by
  unfold listFrom paginate at h
  obtain ⟨a, ha, rfl⟩ := List.mem_map.mp h
  refine ⟨a, ?_, rfl⟩
  have ha := List.mem_of_mem_take ha
  cases after with
  | none => exact (List.mem_insertionSort _).mp ha
  | some cursor => exact (List.mem_insertionSort _).mp (List.mem_filter.mp ha).1

/-- What is read shows only used ids. -/
theorem Owned.ids_of_read (ho : Owned env.crates used idx)
    (h : call.underLock env idx scope draws = .ok (.answer response)) : response.ids ⊆ used := by
  have hevents : ∀ r, ∀ event ∈ idx.timeline r, event.view.ids ⊆ used := fun r event he =>
    (ho.timelines r event he).1
  have hcheckpoints : ∀ r, ∀ c ∈ idx.checkpointsOf r, c.view.ids ⊆ used := fun r c hc =>
    (ho.checkpoints r c hc).1
  have heffects : ∀ effect ∈ idx.effectsById.values, effect.view.ids ⊆ used := by
    intro effect he
    obtain ⟨e, he⟩ := Map.mem_values.mp he
    exact ho.effects e effect he
  have hruns : ∀ run ∈ idx.runs.values, run.view.ids ⊆ used := by
    intro run hr
    obtain ⟨r, hr⟩ := Map.mem_values.mp hr
    exact ho.runs r run hr
  cases call with
  | acquire key req =>
    obtain ⟨plan, hplan, he⟩ := map_eq_ok.mp h
    cases plan with
    | apply change decision token => cases he
    | decide decision =>
      cases he
      obtain ⟨_, -, ⟨-, -, _, hnew, -⟩ | ⟨effect, hof, hex⟩⟩ := acquirePlan_ok hplan
      · cases hnew
      · obtain ⟨e, he, -⟩ := ho.bound.effectOf_eq_some.mp hof
        have hview := (acquireExisting_decide hex.symm).1
        change decision.effect.ids ⊆ used
        rw [hview]
        exact ho.effects e effect he
  | transition id req caps =>
    simp only [Call.underLock] at h
    split at h
    · cases h
    · obtain ⟨_, -, he⟩ := map_eq_ok.mp h
      cases he
  | getEffect id =>
    obtain ⟨effect, hread, he⟩ := map_eq_ok.mp h
    cases he
    obtain ⟨effect, hget, he⟩ := bind_eq_ok.mp hread
    cases pure_eq_ok.mp he
    exact ho.effects id effect (effectInScope_ok.mp hget).1
  | listEffects filter cursor limit =>
    obtain ⟨page, hread, he⟩ := map_eq_ok.mp h
    cases he
    obtain ⟨_, -, hread⟩ := bind_eq_ok.mp hread
    obtain ⟨_, -, hread⟩ := bind_eq_ok.mp hread
    cases pure_eq_ok.mp hread
    exact flatMap_ids_subset (fun b hb => mem_listFrom hb) fun a ha =>
      heffects a (List.mem_filter.mp ha).1
  | getRun id =>
    obtain ⟨run, hread, he⟩ := map_eq_ok.mp h
    cases he
    obtain ⟨run, hget, he⟩ := bind_eq_ok.mp hread
    cases pure_eq_ok.mp he
    exact ho.runs id run (runInScope_ok.mp hget).1
  | listRuns filter cursor limit =>
    obtain ⟨page, hread, he⟩ := map_eq_ok.mp h
    cases he
    obtain ⟨_, -, hread⟩ := bind_eq_ok.mp hread
    obtain ⟨_, -, hread⟩ := bind_eq_ok.mp hread
    cases pure_eq_ok.mp hread
    exact flatMap_ids_subset (fun b hb => mem_listFrom hb) fun a ha =>
      hruns a (List.mem_filter.mp ha).1
  | verifyRunEvents id =>
    obtain ⟨ok, -, he⟩ := map_eq_ok.mp h
    cases he
    exact List.nil_subset _
  | listEvents id filter cursor limit =>
    obtain ⟨page, hread, he⟩ := map_eq_ok.mp h
    cases he
    obtain ⟨_, -, hread⟩ := bind_eq_ok.mp hread
    obtain ⟨_, -, hread⟩ := bind_eq_ok.mp hread
    obtain ⟨_, -, hread⟩ := bind_eq_ok.mp hread
    cases pure_eq_ok.mp hread
    refine flatMap_ids_subset (fun b hb => ?_) (hevents id)
    obtain ⟨event, hmem, rfl⟩ := List.mem_map.mp hb
    have hmem := (List.mem_insertionSort _).mp (List.mem_of_mem_take hmem)
    exact ⟨event, (List.mem_filter.mp hmem).1, rfl⟩
  | listCheckpoints id cursor limit =>
    obtain ⟨page, hread, he⟩ := map_eq_ok.mp h
    cases he
    obtain ⟨_, -, hread⟩ := bind_eq_ok.mp hread
    obtain ⟨_, -, hread⟩ := bind_eq_ok.mp hread
    obtain ⟨_, -, hread⟩ := bind_eq_ok.mp hread
    cases pure_eq_ok.mp hread
    exact flatMap_ids_subset (fun b hb => mem_listFrom hb) (hcheckpoints id)
  | applyRetention policy =>
    simp only [Call.underLock] at h
    split at h <;> cases h
    exact List.nil_subset _
  | exportRun id =>
    obtain ⟨e, hread, he⟩ := map_eq_ok.mp h
    cases he
    obtain ⟨run, hget, hread⟩ := bind_eq_ok.mp hread
    cases pure_eq_ok.mp hread
    refine List.append_subset.mpr ⟨List.append_subset.mpr ⟨List.append_subset.mpr
      ⟨ho.runs id run (runInScope_ok.mp hget).1, ?_⟩, ?_⟩, ?_⟩
    · refine flatMap_ids_subset (fun b hb => ?_) heffects
      obtain ⟨effect, hmem, rfl⟩ := List.mem_map.mp ((List.mem_insertionSort _).mp hb)
      exact ⟨effect, (List.mem_filter.mp hmem).1, rfl⟩
    · exact flatMap_ids_subset (fun b hb => List.mem_map.mp hb) (hevents id)
    · exact flatMap_ids_subset
        (fun b hb => List.mem_map.mp ((List.mem_insertionSort _).mp hb)) (hcheckpoints id)
  | _ =>
    obtain ⟨_, -, he⟩ := map_eq_ok.mp h
    cases he

/-- **An answer shows only ids that were drawn**: before the call, or by it. -/
theorem Owned.ids_of_decide (ho : Owned env.crates used idx) (hret : call.isRetention = false)
    {persisted : Option RecordKind}
    (h : call.decide env idx scope draws = .ok (persisted, response)) :
    response.ids ⊆ draws.ids ++ used := by
  cases persisted with
  | none =>
    unfold Call.decide at h
    obtain ⟨_, -, h⟩ := bind_eq_ok.mp h
    obtain ⟨next, hnext, h⟩ := bind_eq_ok.mp h
    cases next with
    | answer r =>
      cases pure_eq_ok.mp h
      exact List.subset_append_of_subset_right _ (ho.ids_of_read hnext)
    | persist k r => cases pure_eq_ok.mp h
    | effect change r =>
      obtain ⟨event, -, h⟩ := bind_eq_ok.mp h
      cases pure_eq_ok.mp h
  | some kind =>
    have hw := writes_of_decide ho.bound ho.wellFormed.keyed hret h
    cases hw with
    | runCreated hid howner hparent => exact ho.created_ids hid hparent
    | runUpdated hrun status =>
      have hids := ho.runs _ _ (runInScope_ok.mp hrun).1
      exact List.subset_append_of_subset_right _ hids
    | effectApplied howner hstores hnew hevent =>
      rw [hstores.ids]
      exact ho.effect_ids (.effectApplied howner hstores hnew hevent) rfl
    | eventAppended hrun =>
      exact ho.event_ids (.eventAppended hrun ..) rfl
    | checkpointCreated hrun hid =>
      simp [Checkpoint.ids, Response.ids, CheckpointRecord.view, Draws.ids, hid,
        ho.run_used (runInScope_ok.mp hrun).1]

end Indexes

end Calod.Ledger
