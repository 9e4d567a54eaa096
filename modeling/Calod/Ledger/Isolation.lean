import Calod.Lib.Unwinding
import Calod.Ledger.Concurrent
import Calod.Ledger.Ownership

/-!
# Tenant isolation

Two ledgers look the same from a scope when they agree on its runs and effects, on its keys, and
on the timelines and checkpoints of its runs (`SameView`). A call decides by that view alone
(`decide_eq`), and what another scope's call stores is outside of it (`SameView.hidden`).

* `isolation` — the answers a scope gets are those it would get alone, and none of them shows
  anything that was created for another scope
-/

namespace Calod.Ledger

open Calod.Core Lib

variable {r : Uuid} {run : RunRecord} {crates : Crates} {used : List Uuid} {env : Env}

/-! ## What a scope can see -/

namespace Indexes

/-- The run, if it belongs to the scope. -/
def ownRun (idx : Indexes) (scope : Scope) (r : Uuid) : Option RunRecord :=
  idx.runs[r]?.filter fun run => run.owner = scope

/-- The effect, if it belongs to the scope. -/
def ownEffect (idx : Indexes) (scope : Scope) (e : Uuid) : Option EffectRecord :=
  idx.effectsById[e]?.filter fun effect => effect.owner = scope

/-- The two agree on everything that belongs to the scope. -/
structure SameView (scope : Scope) (a b : Indexes) : Prop where
  runs : ∀ r, a.ownRun scope r = b.ownRun scope r
  effects : ∀ e, a.ownEffect scope e = b.ownEffect scope e
  effectIds : ∀ key : EffectKey, key.owner = scope → a.effectIds key = b.effectIds key
  timeline : ∀ r run, a.ownRun scope r = some run → a.timeline r = b.timeline r
  checkpoints : ∀ r run, a.ownRun scope r = some run → a.checkpointsOf r = b.checkpointsOf r

variable {scope other : Scope} {a b c idx : Indexes}

theorem ownRun_eq_some : idx.ownRun scope r = some run ↔ runInScope idx scope r = .ok run := by
  rw [runInScope_iff, ownRun, Option.filter_eq_some_iff, decide_eq_true_iff]

theorem ownEffect_eq_some {e : Uuid} {effect : EffectRecord} :
    idx.ownEffect scope e = some effect ↔ effectInScope idx scope e = .ok effect := by
  rw [effectInScope_iff, ownEffect, Option.filter_eq_some_iff, decide_eq_true_iff]

theorem runInScope_cases (idx : Indexes) (scope : Scope) (r : Uuid) :
    (∃ run, runInScope idx scope r = .ok run) ∨
      runInScope idx scope r = .error (.notFound "run" r.toString) := by
  unfold runInScope
  split
  · split
    · exact Or.inl ⟨_, rfl⟩
    · exact Or.inr rfl
  · exact Or.inr rfl

theorem effectInScope_cases (idx : Indexes) (scope : Scope) (e : Uuid) :
    (∃ effect, effectInScope idx scope e = .ok effect) ∨
      effectInScope idx scope e = .error (.notFound "effect" e.toString) := by
  unfold effectInScope
  split
  · split
    · exact Or.inl ⟨_, rfl⟩
    · exact Or.inr rfl
  · exact Or.inr rfl

namespace SameView

theorem refl (scope : Scope) (a : Indexes) : SameView scope a a where
  runs _ := rfl
  effects _ := rfl
  effectIds _ _ := rfl
  timeline _ _ _ := rfl
  checkpoints _ _ _ := rfl

theorem symm (h : SameView scope a b) : SameView scope b a where
  runs r := (h.runs r).symm
  effects e := (h.effects e).symm
  effectIds key hkey := (h.effectIds key hkey).symm
  timeline r run hr := (h.timeline r run ((h.runs r).trans hr)).symm
  checkpoints r run hr := (h.checkpoints r run ((h.runs r).trans hr)).symm

theorem trans (h : SameView scope a b) (h' : SameView scope b c) : SameView scope a c where
  runs r := (h.runs r).trans (h'.runs r)
  effects e := (h.effects e).trans (h'.effects e)
  effectIds key hkey := (h.effectIds key hkey).trans (h'.effectIds key hkey)
  timeline r run hr :=
    (h.timeline r run hr).trans (h'.timeline r run ((h.runs r).symm.trans hr))
  checkpoints r run hr :=
    (h.checkpoints r run hr).trans (h'.checkpoints r run ((h.runs r).symm.trans hr))

/-! ## A call decides by what its scope can see -/

section

variable (h : SameView scope a b)

include h

theorem runInScope_eq (r : Uuid) : runInScope a scope r = runInScope b scope r := by
  rcases runInScope_cases a scope r with ⟨run, hr⟩ | ha
  · rw [hr, ownRun_eq_some.mp ((h.runs r).symm.trans (ownRun_eq_some.mpr hr))]
  rcases runInScope_cases b scope r with ⟨run, hr⟩ | hb
  · rw [hr, ownRun_eq_some.mp ((h.runs r).trans (ownRun_eq_some.mpr hr))]
  · rw [ha, hb]

theorem effectInScope_eq (e : Uuid) : effectInScope a scope e = effectInScope b scope e := by
  rcases effectInScope_cases a scope e with ⟨run, hr⟩ | ha
  · rw [hr, ownEffect_eq_some.mp ((h.effects e).symm.trans (ownEffect_eq_some.mpr hr))]
  rcases effectInScope_cases b scope e with ⟨run, hr⟩ | hb
  · rw [hr, ownEffect_eq_some.mp ((h.effects e).trans (ownEffect_eq_some.mpr hr))]
  · rw [ha, hb]

/-- The effect of a key of the scope is one of the scope. -/
theorem effectOf_eq (ha : a.Bound) (hb : b.Bound) {key : EffectKey} (hkey : key.owner = scope) :
    a.effectOf key = b.effectOf key := by
  have hown : ∀ {idx : Indexes} {effect}, idx.Bound →
      (idx.effectOf key = some effect ↔
        ∃ e, idx.ownEffect scope e = some effect ∧ effectKeyOf effect = key) := by
    intro idx effect hbound
    rw [hbound.effectOf_eq_some]
    refine exists_congr fun e => and_congr_left fun he => ?_
    rw [ownEffect_eq_some, effectInScope_iff, ← owner_effectKeyOf, he]
    exact (and_iff_left hkey).symm
  ext effect
  rw [hown ha, hown hb]
  exact exists_congr fun e => by rw [h.effects e]

theorem listEffects_eq (crates : Crates) (filter : EffectFilter) (cursor : Option String)
    (limit : Option Nat) :
    listEffects crates a scope filter cursor limit
      = listEffects crates b scope filter cursor limit := by
  have howner : ∀ effect, filter.accepts scope effect = true →
      decide (effect.owner = scope) = true := by
    intro effect he
    simp only [EffectFilter.accepts, Bool.and_eq_true, beq_iff_eq] at he
    rw [decide_eq_true_iff]
    cases scope
    simp only [EffectRecord.owner, he]
  unfold listEffects
  rw [Map.filter_values_congr (fun _ v _ => howner v) (fun _ v _ => howner v) h.effects]

theorem listRuns_eq (crates : Crates) (filter : RunFilter) (cursor : Option String)
    (limit : Option Nat) :
    listRuns crates a scope filter cursor limit
      = listRuns crates b scope filter cursor limit := by
  have howner : ∀ run, filter.accepts scope run = true → decide (run.owner = scope) = true := by
    intro run hr
    simp only [RunFilter.accepts, Bool.and_eq_true, beq_iff_eq] at hr
    rw [decide_eq_true_iff]
    cases scope
    simp only [RunRecord.owner, hr]
  unfold listRuns
  rw [Map.filter_values_congr (fun _ v _ => howner v) (fun _ v _ => howner v) h.runs]

theorem exportRun_eq (ha : a.Owned crates used) (hb : b.Owned crates used) (r : Uuid) :
    exportRun a scope r = exportRun b scope r := by
  unfold exportRun
  rw [← h.runInScope_eq r]
  rcases runInScope_cases a scope r with ⟨run, hrun⟩ | herr
  · have hown := ownRun_eq_some.mpr hrun
    -- an effect of this run belongs where the run does
    have howner : ∀ {idx : Indexes}, idx.Owned crates used → idx.ownRun scope r = some run →
        ∀ (e : Uuid) effect, idx.effectsById[e]? = some effect →
          (effect.runId == some r) = true → decide (effect.owner = scope) = true := by
      intro idx ho hr e effect he hrunId
      obtain ⟨run', hget, hsame⟩ := ho.effectRuns e r effect he (beq_iff_eq.mp hrunId)
      obtain ⟨hget', hscope⟩ := runInScope_iff.mp (ownRun_eq_some.mp hr)
      cases hget.symm.trans hget'
      rw [decide_eq_true_iff, ← hsame, hscope]
    have heffects := Map.filter_values_congr (howner ha hown)
      (howner hb ((h.runs r).symm.trans hown)) h.effects
    have hcheckpoints : a.checkpoints[r]?.getD [] = b.checkpoints[r]?.getD [] :=
      h.checkpoints r run hown
    rw [heffects, hcheckpoints, h.timeline r run hown]
  · rw [herr]
    rfl

theorem listEvents_eq (r : Uuid) (filter : EventFilter) (cursor : Option String)
    (limit : Option Nat) :
    listEvents a scope r filter cursor limit = listEvents b scope r filter cursor limit := by
  unfold listEvents
  rw [← h.runInScope_eq r]
  rcases runInScope_cases a scope r with ⟨run, hrun⟩ | herr
  · rw [h.timeline r run (ownRun_eq_some.mpr hrun)]
  · rw [herr]
    rfl

theorem listCheckpoints_eq (crates : Crates) (r : Uuid) (cursor : Option String)
    (limit : Option Nat) :
    listCheckpoints crates a scope r cursor limit
      = listCheckpoints crates b scope r cursor limit := by
  unfold listCheckpoints
  rw [← h.runInScope_eq r]
  rcases runInScope_cases a scope r with ⟨run, hrun⟩ | herr
  · have hcheckpoints : a.checkpoints[r]?.getD [] = b.checkpoints[r]?.getD [] :=
      h.checkpoints r run (ownRun_eq_some.mpr hrun)
    rw [hcheckpoints]
  · rw [herr]
    rfl

theorem verifyRunEvents_eq (crates : Crates) (r : Uuid) :
    verifyRunEvents crates a scope r = verifyRunEvents crates b scope r := by
  unfold verifyRunEvents
  rw [← h.runInScope_eq r]
  rcases runInScope_cases a scope r with ⟨run, hrun⟩ | herr
  · rw [h.timeline r run (ownRun_eq_some.mpr hrun)]
  · rw [herr]
    rfl

theorem forkRun_eq (r : Uuid) (req : ForkRunRequest) (draws : Draws) :
    forkRun a scope r req draws = forkRun b scope r req draws := by
  unfold forkRun
  rw [← h.runInScope_eq r]
  rcases runInScope_cases a scope r with ⟨run, hrun⟩ | herr
  · have hcheckpoints : a.checkpoints[r]?.getD [] = b.checkpoints[r]?.getD [] :=
      h.checkpoints r run (ownRun_eq_some.mpr hrun)
    have hsequence : ∀ parent, forkSequence a parent r req = forkSequence b parent r req := by
      intro parent
      unfold forkSequence
      rw [hcheckpoints]
    simp only [hsequence]
  · rw [herr]
    rfl

theorem acquirePlan_eq (ha : a.Bound) (hb : b.Bound) (key : String) (req : AcquireEffectRequest)
    (draws : Draws) :
    acquirePlan env a scope key req draws = acquirePlan env b scope key req draws := by
  have hcheck : checkRun a scope req.runId = checkRun b scope req.runId := by
    unfold checkRun
    split
    · rfl
    · rw [h.runInScope_eq]
  unfold acquirePlan
  rw [h.effectOf_eq ha hb (owner_acquireKey scope key req), hcheck]

theorem check_eq (call : Call) : call.check env a scope = call.check env b scope := by
  cases call with
  | transition id req caps => simp only [Call.check, h.effectInScope_eq]
  | _ => rfl

theorem underLock_eq (ha : a.Owned env.crates used) (hb : b.Owned env.crates used) {call : Call}
    (hret : call.isRetention = false) {lock : FirstLock}
    (hcheck : call.check env a scope = .ok lock) (draws : Draws) :
    call.underLock env a scope draws = call.underLock env b scope draws := by
  cases call with
  | acquire key req => simp only [Call.underLock, h.acquirePlan_eq ha.bound hb.bound]
  | transition id req caps =>
    obtain ⟨effect, heffect, -⟩ := bind_eq_ok.mp hcheck
    have hb := (h.effectInScope_eq id).symm.trans heffect
    simp only [Call.underLock, (effectInScope_ok.mp heffect).1, (effectInScope_ok.mp hb).1]
  | getEffect id => simp only [Call.underLock, getEffect, h.effectInScope_eq]
  | listEffects filter cursor limit => simp only [Call.underLock, h.listEffects_eq]
  | createRun req => rfl
  | getRun id => simp only [Call.underLock, getRun, h.runInScope_eq]
  | updateRun id req expected => simp only [Call.underLock, updateRun, h.runInScope_eq]
  | forkRun id req => simp only [Call.underLock, h.forkRun_eq]
  | listRuns filter cursor limit => simp only [Call.underLock, h.listRuns_eq]
  | appendEvent id req => simp only [Call.underLock, appendEvent, h.runInScope_eq]
  | verifyRunEvents id => simp only [Call.underLock, h.verifyRunEvents_eq]
  | listEvents id filter cursor limit => simp only [Call.underLock, h.listEvents_eq]
  | createCheckpoint id req expected =>
    simp only [Call.underLock, createCheckpoint, h.runInScope_eq]
  | listCheckpoints id cursor limit => simp only [Call.underLock, h.listCheckpoints_eq]
  | applyRetention policy => cases hret
  | exportRun id => simp only [Call.underLock, h.exportRun_eq ha hb]

/-- **A call decides by what its scope can see.** -/
theorem decide_eq (ha : a.Owned env.crates used) (hb : b.Owned env.crates used) {call : Call}
    (hret : call.isRetention = false) (draws : Draws) :
    call.decide env a scope draws = call.decide env b scope draws := by
  unfold Call.decide
  rw [← h.check_eq call]
  cases hcheck : call.check env a scope with
  | error error => rfl
  | ok lock =>
    have hevent : ∀ change, buildEffectEvent env.crates a scope change draws.now draws.eventId
        = buildEffectEvent env.crates b scope change draws.now draws.eventId := by
      intro change
      simp only [buildEffectEvent, h.runInScope_eq]
    rw [h.underLock_eq ha hb hret hcheck draws]
    simp only [hevent]

end

/-! ## What a record changes in the view -/

/-- A run of the scope is stored on both sides. -/
theorem putRun (h : SameView scope a b) (htimeline : a.timeline run.id = b.timeline run.id)
    (hcheckpoints : a.checkpointsOf run.id = b.checkpointsOf run.id) :
    SameView scope { a with runs := a.runs.insert run.id run }
      { b with runs := b.runs.insert run.id run } := by
  have hown : ∀ (idx : Indexes) r,
      ownRun { idx with runs := idx.runs.insert run.id run } scope r
        = if run.id = r then (some run).filter (fun run => run.owner = scope)
          else idx.ownRun scope r := by
    intro idx r
    unfold ownRun
    rw [Map.get_insert]
    split <;> rfl
  refine ⟨fun r => ?_, h.effects, h.effectIds, fun r run' hr => ?_, fun r run' hr => ?_⟩
  · rw [hown, hown, h.runs]
  · rw [hown] at hr
    split at hr
    · next hid => exact hid ▸ htimeline
    · exact h.timeline r run' hr
  · rw [hown] at hr
    split at hr
    · next hid => exact hid ▸ hcheckpoints
    · exact h.checkpoints r run' hr

/-- A run of another scope is stored, in place of none or of one of another scope. -/
theorem putRun_hidden (howner : run.owner ≠ scope) (hold : a.ownRun scope run.id = none) :
    SameView scope { a with runs := a.runs.insert run.id run } a := by
  refine ⟨fun r => ?_, fun _ => rfl, fun _ _ => rfl, fun _ _ _ => rfl, fun _ _ _ => rfl⟩
  unfold ownRun
  rw [Map.get_insert]
  split
  · next hid =>
    rw [Option.filter_some_neg (by simpa using howner), ← hid]
    exact hold.symm
  · rfl

theorem putEffect (h : SameView scope a b) (effect : EffectRecord) :
    SameView scope (a.putEffect effect) (b.putEffect effect) := by
  refine ⟨h.runs, fun e => ?_, fun key hkey => ?_, h.timeline, h.checkpoints⟩
  · unfold ownEffect Indexes.putEffect
    rw [Map.get_insert, Map.get_insert]
    split
    · rfl
    · exact h.effects e
  · unfold Indexes.putEffect
    simp only [Function.update_apply, h.effectIds key hkey]

theorem putEffect_hidden {effect : EffectRecord} (howner : effect.owner ≠ scope)
    (hold : a.ownEffect scope effect.id = none) : SameView scope (a.putEffect effect) a := by
  refine ⟨fun _ => rfl, fun e => ?_, fun key hkey => ?_, fun _ _ _ => rfl, fun _ _ _ => rfl⟩
  · unfold ownEffect Indexes.putEffect
    rw [Map.get_insert]
    split
    · next hid =>
      rw [Option.filter_some_neg (by simpa using howner), ← hid]
      exact hold.symm
    · rfl
  · unfold Indexes.putEffect
    refine Function.update_of_ne ?_ _ _
    rintro rfl
    exact howner hkey

theorem touch (a : Indexes) (r : Uuid) : SameView scope (a.touch r) a where
  runs _ := rfl
  effects _ := rfl
  effectIds _ _ := rfl
  timeline r' _ _ := timeline_touch r r'
  checkpoints _ _ _ := rfl

theorem ownRun_pushEvent (a : Indexes) (event : EventRecord) (r : Uuid) :
    (a.pushEvent event).ownRun scope r
      = if event.runId = r then (a.ownRun scope r).map fun run => run.moveHead event
        else a.ownRun scope r := by
  unfold ownRun
  rw [runs_pushEvent]
  split
  · rw [Option.filter_map]
    rfl
  · rfl

theorem pushEvent (h : SameView scope a b) (event : EventRecord) :
    SameView scope (a.pushEvent event) (b.pushEvent event) := by
  have hold : ∀ r run, (a.pushEvent event).ownRun scope r = some run →
      ∃ old, a.ownRun scope r = some old := by
    intro r run hr
    rw [ownRun_pushEvent] at hr
    split at hr
    · obtain ⟨old, hold, -⟩ := Option.map_eq_some_iff.mp hr
      exact ⟨old, hold⟩
    · exact ⟨run, hr⟩
  refine ⟨fun r => ?_, h.effects, h.effectIds, fun r run hr => ?_, fun r run hr => ?_⟩
  · rw [ownRun_pushEvent, ownRun_pushEvent, h.runs]
  · obtain ⟨old, hold⟩ := hold r run hr
    rw [timeline_pushEvent, timeline_pushEvent, h.timeline r old hold]
  · obtain ⟨old, hold⟩ := hold r run hr
    exact h.checkpoints r old hold

theorem applyEvent (h : SameView scope a b) {event : EventRecord}
    (hrun : a.ownRun scope event.runId = some run) :
    SameView scope (a.applyEvent event).1 (b.applyEvent event).1 := by
  have htouch := (touch a event.runId).trans (h.trans (touch b event.runId).symm)
  unfold Indexes.applyEvent
  rw [h.timeline _ run hrun]
  simp only []
  split
  · exact htouch
  · split
    · exact htouch
    · split
      · exact htouch
      · exact h.pushEvent event

theorem applyEvent_hidden {event : EventRecord} (hrun : a.ownRun scope event.runId = none) :
    SameView scope (a.applyEvent event).1 a := by
  have hpush : SameView scope (a.pushEvent event) a := by
    have hown : ∀ r, (a.pushEvent event).ownRun scope r = a.ownRun scope r := by
      intro r
      rw [ownRun_pushEvent]
      split
      · next hid => rw [← hid, hrun]; rfl
      · rfl
    refine ⟨hown, fun _ => rfl, fun _ _ => rfl, fun r run hr => ?_, fun _ _ _ => rfl⟩
    rw [timeline_pushEvent, if_neg]
    rintro rfl
    rw [hown, hrun] at hr
    cases hr
  rcases applyEvent_cases a event with ⟨-, h⟩ | ⟨-, -, h⟩ | ⟨_, h⟩ <;> rw [h]
  · exact touch a _
  · exact hpush
  · exact touch a _

theorem checkpointsOf_putCheckpoint (a : Indexes) (checkpoint : CheckpointRecord) (r : Uuid) :
    (a.putCheckpoint checkpoint).checkpointsOf r
      = if checkpoint.runId = r then
          if (a.checkpointsOf r).any fun c => c.id = checkpoint.id then a.checkpointsOf r
          else a.checkpointsOf r ++ [checkpoint]
        else a.checkpointsOf r := by
  unfold checkpointsOf Indexes.putCheckpoint
  simp only []
  rw [Map.get_insert]
  split
  · next hid => rw [hid]; rfl
  · rfl

theorem putCheckpoint (h : SameView scope a b) (checkpoint : CheckpointRecord) :
    SameView scope (a.putCheckpoint checkpoint) (b.putCheckpoint checkpoint) where
  runs := h.runs
  effects := h.effects
  effectIds := h.effectIds
  timeline := h.timeline
  checkpoints r run hr := by
    rw [checkpointsOf_putCheckpoint, checkpointsOf_putCheckpoint, h.checkpoints r run hr]

theorem putCheckpoint_hidden {checkpoint : CheckpointRecord}
    (hrun : a.ownRun scope checkpoint.runId = none) :
    SameView scope (a.putCheckpoint checkpoint) a where
  runs _ := rfl
  effects _ := rfl
  effectIds _ _ := rfl
  timeline _ _ _ := rfl
  checkpoints r run hr := by
    rw [checkpointsOf_putCheckpoint, if_neg]
    rintro rfl
    cases hrun.symm.trans hr

end SameView

/-! ## One call -/

theorem Owned.timeline_nil (ho : idx.Owned crates used) (h : idx.runs[r]? = none) :
    idx.timeline r = [] := by
  refine List.eq_nil_iff_forall_not_mem.mpr fun event he => ?_
  obtain ⟨-, run, hrun⟩ := ho.timelines r event he
  cases h.symm.trans hrun

theorem Owned.checkpointsOf_nil (ho : idx.Owned crates used) (h : idx.runs[r]? = none) :
    idx.checkpointsOf r = [] := by
  refine List.eq_nil_iff_forall_not_mem.mpr fun c hc => ?_
  obtain ⟨-, run, hrun⟩ := ho.checkpoints r c hc
  cases h.symm.trans hrun

section

variable {env : Env} {used : List Uuid} {draws : Draws} {kind : RecordKind} {response : Response}

/-- **A record of the scope keeps the views the same.** -/
theorem SameView.own (h : SameView scope a b) (ha : a.Owned env.crates used)
    (hb : b.Owned env.crates used) (hw : Writes env a scope draws kind response)
    (hfresh : draws.id ∉ used) : SameView scope (a.apply kind).1 (b.apply kind).1 := by
  have hevent : ∀ event, kind.event = some event →
      ∃ run, a.ownRun scope event.runId = some run := by
    intro event he
    obtain ⟨-, run, hrun⟩ := hw.event_spec ha.wellFormed.keyed he
    exact ⟨run, ownRun_eq_some.mpr hrun⟩
  cases hw with
  | runCreated hid =>
    rw [← hid] at hfresh
    refine h.putRun ?_ ?_
    · rw [ha.timeline_nil (ha.runs_none hfresh), hb.timeline_nil (hb.runs_none hfresh)]
    · rw [ha.checkpointsOf_nil (ha.runs_none hfresh), hb.checkpointsOf_nil (hb.runs_none hfresh)]
  | @runUpdated runId run hrun status =>
    have hown := ownRun_eq_some.mpr hrun
    have hid : run.id = runId := ha.wellFormed.keyed.runs runId run (runInScope_ok.mp hrun).1
    rw [← hid] at hown
    exact h.putRun (h.timeline _ run hown) (h.checkpoints _ run hown)
  | @effectApplied _ change event =>
    cases event with
    | none => exact h.putEffect change.effect
    | some event =>
      obtain ⟨run, hrun⟩ := hevent event rfl
      exact (h.putEffect change.effect).applyEvent hrun
  | eventAppended =>
    obtain ⟨run, hrun⟩ := hevent _ rfl
    exact h.applyEvent hrun
  | checkpointCreated => exact h.putCheckpoint _

theorem ownRun_eq_none (hne : other ≠ scope) (h : runInScope idx other r = .ok run) :
    idx.ownRun scope r = none := by
  obtain ⟨hget, howner⟩ := runInScope_iff.mp h
  rw [ownRun, hget]
  exact Option.filter_some_neg (by simpa [howner] using hne)

/-- **A record of another scope is outside of the view.** -/
theorem SameView.hidden (ha : a.Owned env.crates used) (hne : other ≠ scope)
    (hw : Writes env a other draws kind response) (hfresh : draws.id ∉ used) :
    SameView scope (a.apply kind).1 a := by
  have hevent : ∀ event, kind.event = some event → a.ownRun scope event.runId = none := by
    intro event he
    obtain ⟨-, run, hrun⟩ := hw.event_spec ha.wellFormed.keyed he
    exact ownRun_eq_none hne hrun
  cases hw with
  | runCreated hid howner =>
    refine SameView.putRun_hidden (howner ▸ hne) ?_
    rw [ownRun, hid, ha.runs_none hfresh]
    rfl
  | @runUpdated runId run hrun status =>
    have hid : run.id = runId := ha.wellFormed.keyed.runs runId run (runInScope_ok.mp hrun).1
    refine SameView.putRun_hidden ?_ (hid ▸ ownRun_eq_none hne hrun)
    exact fun he => hne ((runInScope_iff.mp hrun).2.symm.trans he)
  | @effectApplied _ change event _ howner hstores hnew =>
    have hput : SameView scope (a.putEffect change.effect) a := by
      refine SameView.putEffect_hidden (howner ▸ hne) ?_
      cases hof : a.effectOf (effectKeyOf change.effect) with
      | none =>
        rw [ownEffect, hnew hof, ha.effects_none hfresh]
        rfl
      | some old =>
        rw [hof] at hstores
        obtain ⟨e, hold, hkey⟩ := ha.bound.effectOf_eq_some.mp hof
        have howner' : old.owner = other := by
          rw [← owner_effectKeyOf, hkey, owner_effectKeyOf, howner]
        rw [hstores.frame.1, ha.wellFormed.keyed.effects e old hold, ownEffect, hold]
        exact Option.filter_some_neg (by simpa [howner'] using hne)
    cases event with
    | none => exact hput
    | some event =>
      exact (SameView.applyEvent_hidden (a := a.putEffect change.effect)
        (hevent event rfl)).trans hput
  | eventAppended => exact SameView.applyEvent_hidden (hevent _ rfl)
  | checkpointCreated hrun => exact SameView.putCheckpoint_hidden (ownRun_eq_none hne hrun)

end

end Indexes

/-- The record that a decision leads to, when the disk does not fail. -/
def recordOf (env : Env) :
    Except LedgerError (Option RecordKind × Response) → Option RecordKind
  | .ok (some kind, _) => if maxPayload < env.encodedLen kind then none else some kind
  | _ => none

/-- The answer that a decision leads to, when the disk does not fail. -/
def answerOf (env : Env) :
    Except LedgerError (Option RecordKind × Response) → Except LedgerError Response
  | .error error => .error error
  | .ok (none, response) => .ok response
  | .ok (some kind, response) =>
    if maxPayload < env.encodedLen kind then
      .error (.persistence (.walWriteFailed "payload exceeds the 4 GiB record limit"))
    else .ok response

section

variable {env : Env} {decided : Except LedgerError (Option RecordKind × Response)}

theorem recordOf_eq_some {kind : RecordKind} (h : recordOf env decided = some kind) :
    ∃ response, decided = .ok (some kind, response) := by
  unfold recordOf at h
  split at h
  · next k response =>
    split at h
    · cases h
    · cases h
      exact ⟨response, rfl⟩
  · cases h

theorem answerOf_eq_ok {response : Response} (h : answerOf env decided = .ok response) :
    ∃ persisted, decided = .ok (persisted, response) := by
  unfold answerOf at h
  split at h
  · cases h
  · cases h
    exact ⟨none, rfl⟩
  · next kind r =>
    split at h
    · cases h
    · cases h
      exact ⟨some kind, rfl⟩

/-- A call, by its decision. -/
theorem call_of_decide {ledger : Ledger} {scope : Scope} {draws : Draws} {c : Call}
    (hw : ledger.indexes.WellFormed env.crates) :
    (ledger.call env scope draws none c).2
        = answerOf env (c.decide env ledger.indexes scope draws) ∧
      (ledger.call env scope draws none c).1.indexes
        = ((recordOf env (c.decide env ledger.indexes scope draws)).map fun kind =>
            (ledger.indexes.apply kind).1).getD ledger.indexes := by
  unfold Ledger.call
  cases hd : c.decide env ledger.indexes scope draws with
  | error error => exact ⟨rfl, rfl⟩
  | ok decided =>
    obtain ⟨kind?, response⟩ := decided
    cases kind? with
    | none => exact ⟨rfl, rfl⟩
    | some kind =>
      obtain ⟨applied, happly⟩ : ∃ applied, ledger.indexes.apply kind = (applied, .ok ()) :=
        ⟨_, Prod.ext rfl (hw.fits (built_of_decide hd)).apply_ok⟩
      simp only [Ledger.persist, answerOf, recordOf]
      by_cases hlen : maxPayload < env.encodedLen kind
      · simp only [if_pos hlen]
        exact ⟨trivial, rfl⟩
      · simp only [if_neg hlen, happly]
        exact ⟨trivial, by rw [Option.map_some, Option.getD_some, happly]⟩

end

/-! ## Runs of calls -/

namespace Input

/-- The ids that the call draws. -/
def ids (input : Input) : List Uuid := input.draws.ids

/-- The disk does not fail, and nothing is pruned. -/
def plain (input : Input) : Bool := input.fault.isNone && !input.call.isRetention

def decide (env : Env) (ledger : Ledger) (input : Input) :
    Except LedgerError (Option RecordKind × Response) :=
  input.call.decide env ledger.indexes input.scope input.draws

theorem plain_iff {input : Input} :
    input.plain = true ↔ input.fault = none ∧ input.call.isRetention = false := by
  simp [plain]

section

variable {env : Env} {input : Input} {ledger : Ledger} {used : List Uuid}
  (hp : input.plain = true)

include hp

theorem answer_of_decide (hw : ledger.indexes.WellFormed env.crates) :
    input.answer env ledger = answerOf env (input.decide env ledger) := by
  unfold answer
  rw [(plain_iff.mp hp).1]
  exact (call_of_decide hw).1

theorem after_of_decide (hw : ledger.indexes.WellFormed env.crates) :
    (input.after env ledger).indexes
      = ((recordOf env (input.decide env ledger)).map fun kind =>
          (ledger.indexes.apply kind).1).getD ledger.indexes := by
  unfold after
  rw [(plain_iff.mp hp).1]
  exact (call_of_decide hw).2

/-- The record of a plain call. -/
theorem writes_of_record (ho : ledger.indexes.Owned env.crates used) {kind : RecordKind}
    (h : recordOf env (input.decide env ledger) = some kind) :
    Built env ledger.indexes input.scope kind ∧
      ∃ response, Writes env ledger.indexes input.scope input.draws kind response := by
  obtain ⟨response, hd⟩ := recordOf_eq_some h
  exact ⟨built_of_decide hd, response,
    writes_of_decide ho.bound ho.wellFormed.keyed (plain_iff.mp hp).2 hd⟩

/-- **A call keeps the indexes owned.** -/
theorem owned_after (ho : ledger.indexes.Owned env.crates used) (hfresh : input.draws.id ∉ used) :
    (input.after env ledger).indexes.Owned env.crates (input.ids ++ used) := by
  rw [after_of_decide hp ho.wellFormed]
  cases hr : recordOf env (input.decide env ledger) with
  | none => exact ho.mono (List.subset_append_right _ _)
  | some kind =>
    obtain ⟨hb, response, hw⟩ := writes_of_record hp ho hr
    exact ho.apply hw hfresh hb

/-- An answer shows only what was drawn. -/
theorem ids_of_answer (ho : ledger.indexes.Owned env.crates used) {response : Response}
    (h : input.answer env ledger = .ok response) : response.ids ⊆ input.ids ++ used := by
  rw [answer_of_decide hp ho.wellFormed] at h
  obtain ⟨persisted, hd⟩ := answerOf_eq_ok h
  exact ho.ids_of_decide (plain_iff.mp hp).2 hd

end

end Input

/-- The ledger of a run, and that of the calls of one scope alone, before the calls to come. -/
structure Related (env : Env) (scope : Scope) (rest : List Input) (s t : Ledger) : Prop where
  plain : ∀ input ∈ rest, input.plain = true
  nodup : (rest.flatMap Input.ids).Nodup
  view : s.indexes.SameView scope t.indexes
  owned : ∃ used, s.indexes.Owned env.crates used ∧ t.indexes.Owned env.crates used ∧
    List.Disjoint (rest.flatMap Input.ids) used

section

variable {env : Env} {scope : Scope} {input : Input} {rest : List Input} {s t : Ledger}
  {used : List Uuid}

theorem fresh_head (hdisjoint : List.Disjoint ((input :: rest).flatMap Input.ids) used) :
    input.draws.id ∉ used := fun hmem =>
  hdisjoint (List.mem_flatMap.mpr ⟨input, List.mem_cons_self, List.mem_cons_self⟩) hmem

theorem nodup_rest (hnodup : ((input :: rest).flatMap Input.ids).Nodup) :
    (rest.flatMap Input.ids).Nodup := by
  rw [List.flatMap_cons] at hnodup
  exact (List.nodup_append.mp hnodup).2.1

/-- The ids of the calls to come are still unused after one of them. -/
theorem disjoint_rest (hnodup : ((input :: rest).flatMap Input.ids).Nodup)
    (hdisjoint : List.Disjoint ((input :: rest).flatMap Input.ids) used) :
    List.Disjoint (rest.flatMap Input.ids) (input.ids ++ used) := by
  rw [List.flatMap_cons] at hnodup hdisjoint
  obtain ⟨-, -, hne⟩ := List.nodup_append'.mp hnodup
  exact List.disjoint_append_right.mpr
    ⟨hne.symm, (List.disjoint_append_left.mp hdisjoint).2⟩

/-- **Calls of the scope unwind on both sides, calls of other scopes on one side alone.** -/
theorem related_unwinding (env : Env) (scope : Scope) :
    Unwinding (fun ledger input => (Input.after env ledger input, Input.answer env ledger input))
      (fun input => input.scope = scope) (Related env scope) where
  output {input rest s t} h hscope := by
    obtain rfl := of_decide_eq_true hscope
    obtain ⟨used, hs, ht, -⟩ := h.owned
    have hp := h.plain input List.mem_cons_self
    have hd : input.decide env s = input.decide env t :=
      h.view.decide_eq hs ht (Input.plain_iff.mp hp).2 input.draws
    simp only [Input.answer_of_decide hp hs.wellFormed, Input.answer_of_decide hp ht.wellFormed, hd]
  both {input rest s t} h hscope := by
    obtain rfl := of_decide_eq_true hscope
    obtain ⟨used, hs, ht, hdisjoint⟩ := h.owned
    have hp := h.plain input List.mem_cons_self
    have hfresh := fresh_head hdisjoint
    have hd : input.decide env s = input.decide env t :=
      h.view.decide_eq hs ht (Input.plain_iff.mp hp).2 input.draws
    refine ⟨fun i hi => h.plain i (List.mem_cons_of_mem _ hi), nodup_rest h.nodup, ?_,
      input.ids ++ used, Input.owned_after hp hs hfresh, Input.owned_after hp ht hfresh,
      disjoint_rest h.nodup hdisjoint⟩
    simp only [Input.after_of_decide hp hs.wellFormed, Input.after_of_decide hp ht.wellFormed,
      ← hd]
    cases hr : recordOf env (input.decide env s) with
    | none => exact h.view
    | some kind =>
      obtain ⟨-, response, hw⟩ := Input.writes_of_record hp hs hr
      exact h.view.own hs ht hw hfresh
  hidden {input rest s t} h hscope := by
    have hne := of_decide_eq_false hscope
    obtain ⟨used, hs, ht, hdisjoint⟩ := h.owned
    have hp := h.plain input List.mem_cons_self
    have hfresh := fresh_head hdisjoint
    refine ⟨fun i hi => h.plain i (List.mem_cons_of_mem _ hi), nodup_rest h.nodup, ?_,
      input.ids ++ used, Input.owned_after hp hs hfresh, ht.mono (List.subset_append_right _ _),
      disjoint_rest h.nodup hdisjoint⟩
    simp only [Input.after_of_decide hp hs.wellFormed]
    cases hr : recordOf env (input.decide env s) with
    | none => exact h.view
    | some kind =>
      obtain ⟨-, response, hw⟩ := Input.writes_of_record hp hs hr
      exact (Indexes.SameView.hidden hs hne hw hfresh).trans h.view

/-- The answers of a run. -/
theorem outputs_eq_trace (env : Env) (inputs : List Input) : ∀ ledger,
    outputs (fun ledger input => (Input.after env ledger input, Input.answer env ledger input))
        ledger inputs
      = (trace env ledger inputs).map fun e => (e.input, e.answer) := by
  induction inputs with
  | nil => intro ledger; rfl
  | cons input rest ih =>
    intro ledger
    rw [outputs, trace, List.map_cons, ih]

/-- Every answer of a run shows only ids that its calls drew. -/
theorem ids_of_trace {inputs : List Input} : ∀ {ledger} {used},
    (∀ input ∈ inputs, input.plain = true) → (inputs.flatMap Input.ids).Nodup →
    ledger.indexes.Owned env.crates used → List.Disjoint (inputs.flatMap Input.ids) used →
    ∀ e ∈ trace env ledger inputs, ∀ response, e.answer = .ok response →
      response.ids ⊆ inputs.flatMap Input.ids ++ used := by
  induction inputs with
  | nil =>
    intro ledger used _ _ _ _ e he
    cases he
  | cons input rest ih =>
    intro ledger used hplain hnodup ho hdisjoint e he response hresponse
    have hp := hplain input List.mem_cons_self
    rw [List.flatMap_cons]
    rcases List.mem_cons.mp he with rfl | he
    · refine List.Subset.trans (Input.ids_of_answer hp ho hresponse) ?_
      exact List.append_subset.mpr ⟨by simp, by simp⟩
    · have hrest := ih (fun i hi => hplain i (List.mem_cons_of_mem _ hi)) (nodup_rest hnodup)
        (Input.owned_after hp ho (fresh_head hdisjoint)) (disjoint_rest hnodup hdisjoint)
        e he response hresponse
      intro id hid
      have := hrest hid
      simp only [List.mem_append] at this ⊢
      tauto

end

/--
**Tenants are isolated.** In every run of calls that draw fresh ids, with no disk failure and no
retention, the calls of a scope get the answers they would get if no other scope had made any
call. And no answer shows a run, effect, event or checkpoint that another scope's call created.
-/
theorem isolation (env : Env) (scope : Scope) (inputs : List Input)
    (hplain : inputs.all Input.plain = true) (hfresh : (inputs.flatMap Input.ids).Nodup) :
    ((trace env fresh inputs).filter fun e => e.input.scope = scope).map Entry.answer
        = (trace env fresh (inputs.filter fun input => input.scope = scope)).map Entry.answer ∧
      ∀ e ∈ trace env fresh inputs, e.input.scope = scope → ∀ response, e.answer = .ok response →
        ∀ input ∈ inputs, input.scope ≠ scope → List.Disjoint response.ids input.ids := by
  have hplain : ∀ input ∈ inputs, input.plain = true := List.all_eq_true.mp hplain
  have hrelated : Related env scope inputs fresh fresh :=
    ⟨hplain, hfresh, .refl scope _, [], Indexes.owned_empty, Indexes.owned_empty,
      List.disjoint_nil_right _⟩
  have hpurge := (related_unwinding env scope).purge inputs hrelated
  rw [outputs_eq_trace, outputs_eq_trace, List.filter_map] at hpurge
  have hanswers := congrArg (List.map Prod.snd) hpurge
  rw [List.map_map, List.map_map] at hanswers
  refine ⟨hanswers, ?_⟩
  -- the same answer is given in the run of this scope alone, whose ids are its own
  intro e he hscope response hresponse input hinput hne id hid hdrawn
  have hmem : (e.input, e.answer) ∈ (trace env fresh (inputs.filter fun input =>
      input.scope = scope)).map fun e => (e.input, e.answer) := by
    rw [← hpurge]
    exact List.mem_map_of_mem (List.mem_filter.mpr ⟨he, by simpa using hscope⟩)
  obtain ⟨e', he', hsame⟩ := List.mem_map.mp hmem
  obtain ⟨-, hanswer⟩ := Prod.mk.inj hsame
  have hsub : (inputs.filter fun input => input.scope = scope).Sublist inputs :=
    List.filter_sublist
  have hown := ids_of_trace (fun i hi => hplain i (hsub.subset hi))
    ((List.Sublist.flatMap hsub Input.ids).nodup hfresh) Indexes.owned_empty
    (List.disjoint_nil_right _) e' he' response (hanswer.trans hresponse) hid
  rw [List.append_nil] at hown
  obtain ⟨owner, howner, hid'⟩ := List.mem_flatMap.mp hown
  obtain ⟨howner, hscope'⟩ := List.mem_filter.mp howner
  have hpair := (List.nodup_flatMap.mp hfresh).2
  have : Std.Symm (Function.onFun List.Disjoint Input.ids) := ⟨fun _ _ h => h.symm⟩
  have hdiff : owner ≠ input := by
    rintro rfl
    exact hne (of_decide_eq_true hscope')
  exact hpair.forall howner hinput hdiff hid' hdrawn

/-- Two tenants use the same key; the first then lists its effects, and sees its own. -/
theorem isolation_same_key :
    let other : Scope := { tenantId := "other", projectId := "project" }
    let inputs : List Input :=
      [⟨Sample.scope, Sample.draws 1, none, Sample.acquire "order-0001" none⟩,
        ⟨other, Sample.draws 2, none, Sample.acquire "order-0001" none⟩,
        ⟨Sample.scope, Sample.draws 3, none, .listEffects ⟨none, none, none, none⟩ none none⟩]
    (trace Sample.env fresh inputs).map (fun e => e.answer.toOption.map Response.ids)
        = [some [1], some [2], some [1]] ∧
      ((trace Sample.env fresh inputs).filter
          fun e => e.input.scope = Sample.scope).map Entry.answer
        = (trace Sample.env fresh (inputs.filter fun input =>
            input.scope = Sample.scope)).map Entry.answer :=
  ⟨by decide +kernel, (isolation Sample.env Sample.scope _ (by decide) (by decide)).1⟩

end Calod.Ledger
