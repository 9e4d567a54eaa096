import Calod.Lib.HashChain
import Calod.Lib.Map
import Calod.Ledger.Model

/-!
# The in-memory indexes

`Indexes` of `calod-ledger/src/ledger.rs`: what one WAL record does to them (`apply`), and how
a snapshot is collected from them and loaded back.

The source's `apply` mutates in place and can fail half way, so it returns the indexes also
when it fails. The table of run locks is not here: it belongs to the processes
(`Calod/Ledger/Concurrent.lean`), no record or snapshot carries it.

* `applyEvent_cases` — an event is covered already, extends its timeline, or is refused
* `apply_at`, `effects_apply` — what a record can do to a run, its timeline and the effects
-/

namespace Calod.Ledger

open Calod.Core Lib

/-- Lookup key of the effect id index. -/
structure EffectKey where
  tenantId : String
  projectId : String
  scope : String
  idempotencyKey : String
  deriving DecidableEq, Repr

def effectKeyOf (effect : EffectRecord) : EffectKey where
  tenantId := effect.tenantId
  projectId := effect.projectId
  scope := effect.scope
  idempotencyKey := effect.idempotencyKey

/-- `effectIds` is only ever looked up, never listed, so it is a function. -/
structure Indexes where
  effectsById : Map Uuid EffectRecord
  effectIds : EffectKey → Option Uuid
  runs : Map Uuid RunRecord
  events : Map Uuid (List EventRecord)
  checkpoints : Map Uuid (List CheckpointRecord)

/-- The timeline of a run as a hash chain. -/
def eventLinks : Links EventRecord String where
  sequence := EventRecord.sequence
  previous := EventRecord.previousHash
  hash := EventRecord.hash
  genesis := genesisHash

/-- The run after `event` was pushed to its timeline. -/
def RunRecord.moveHead (run : RunRecord) (event : EventRecord) : RunRecord :=
  { run with lastEventSequence := event.sequence, headHash := event.hash }

namespace Indexes

/-- `Indexes::default`. -/
def empty : Indexes where
  effectsById := ∅
  effectIds := fun _ => none
  runs := ∅
  events := ∅
  checkpoints := ∅

/-- The stored events of a run. -/
def timeline (idx : Indexes) (runId : Uuid) : List EventRecord := idx.events[runId]?.getD []

/-! ## Applying a record -/

/-- `entry(run_id).or_default()`: an absent timeline becomes an empty one. -/
def touch (idx : Indexes) (runId : Uuid) : Indexes :=
  { idx with events := idx.events.insert runId (idx.timeline runId) }

/-- Push an event and move the head of its run, if the run exists. -/
def pushEvent (idx : Indexes) (event : EventRecord) : Indexes :=
  { idx with
    runs := match idx.runs[event.runId]? with
      | some run => idx.runs.insert event.runId (run.moveHead event)
      | none => idx.runs
    events := idx.events.insert event.runId (idx.timeline event.runId ++ [event]) }

def applyEvent (idx : Indexes) (event : EventRecord) : Indexes × Except PersistenceError Unit :=
  let events := idx.timeline event.runId
  if event.sequence ≤ events.length then
    -- already covered (snapshot + replay overlap)
    (idx.touch event.runId, .ok ())
  else if event.sequence ≠ events.length + 1 then
    (idx.touch event.runId, .error (.corruption ("run " ++ event.runId.toString
      ++ " event sequence gap: have " ++ toString events.length ++ ", got "
      ++ toString event.sequence)))
  else if event.previousHash ≠ eventLinks.lastHash events then
    (idx.touch event.runId, .error (.corruption ("run " ++ event.runId.toString ++ " event "
      ++ toString event.sequence ++ " breaks the hash chain")))
  else
    (idx.pushEvent event, .ok ())

/-- An effect record replaces the stored one wholesale. -/
def putEffect (idx : Indexes) (effect : EffectRecord) : Indexes :=
  { idx with
    effectIds := Function.update idx.effectIds (effectKeyOf effect) (some effect.id)
    effectsById := idx.effectsById.insert effect.id effect }

/-- A checkpoint is pushed unless its id is there already. -/
def putCheckpoint (idx : Indexes) (checkpoint : CheckpointRecord) : Indexes :=
  let stored := idx.checkpoints[checkpoint.runId]?.getD []
  { idx with
    checkpoints := idx.checkpoints.insert checkpoint.runId
      (if stored.any fun c => c.id = checkpoint.id then stored else stored ++ [checkpoint]) }

def removeRuns (idx : Indexes) (runIds : List Uuid) : Indexes :=
  { idx with
    runs := idx.runs.eraseAll runIds
    events := idx.events.eraseAll runIds
    checkpoints := idx.checkpoints.eraseAll runIds }

def removeEffect (idx : Indexes) (effectId : Uuid) : Indexes :=
  match idx.effectsById[effectId]? with
  | some effect =>
    { idx with
      effectsById := idx.effectsById.erase effectId
      effectIds := Function.update idx.effectIds (effectKeyOf effect) none }
  | none => idx

/--
`Indexes::apply`: one persisted mutation. On an error the indexes are as the failing call
left them: an effect record is stored before its event is checked.
-/
def apply (idx : Indexes) : RecordKind → Indexes × Except PersistenceError Unit
  | .runCreated run | .runUpdated run => ({ idx with runs := idx.runs.insert run.id run }, .ok ())
  | .effectApplied effect none => (idx.putEffect effect, .ok ())
  | .effectApplied effect (some event) => (idx.putEffect effect).applyEvent event
  | .eventAppended event => idx.applyEvent event
  | .checkpointCreated checkpoint => (idx.putCheckpoint checkpoint, .ok ())
  | .retentionApplied _ runIds effectIds =>
    (effectIds.foldl removeEffect (idx.removeRuns runIds), .ok ())

end Indexes

/-! ## Snapshot contents -/

/-- The indexes as a snapshot stores them. -/
structure PersistedState where
  schemaVersion : Nat
  runs : List RunRecord
  effects : List EffectRecord
  events : List EventRecord
  checkpoints : List CheckpointRecord

namespace Indexes

/-- `collect_state`. The source lists its hash maps in an arbitrary order of the keys. -/
def collectState (idx : Indexes) : PersistedState where
  schemaVersion := Calod.Ledger.schemaVersion
  runs := idx.runs.values
  effects := idx.effectsById.values
  events := idx.events.values.flatten
  checkpoints := idx.checkpoints.values.flatten

/-- `load_state` into default indexes. -/
def loadState (state : PersistedState) : Indexes where
  effectsById := Map.byKey EffectRecord.id ∅ state.effects
  effectIds := state.effects.foldl
    (fun ids effect => Function.update ids (effectKeyOf effect) (some effect.id)) fun _ => none
  runs := Map.byKey RunRecord.id ∅ state.runs
  events := (Map.groupBy EventRecord.runId ∅ state.events).map fun _ events =>
    events.insertionSort fun a b => a.sequence ≤ b.sequence
  checkpoints := Map.groupBy CheckpointRecord.runId ∅ state.checkpoints

end Indexes

namespace Indexes

variable {idx : Indexes} {event : EventRecord} {kind : RecordKind} {r : Uuid}

/-! ## Timelines -/

theorem timeline_insert (idx : Indexes) (runId : Uuid) (l : List EventRecord) (r : Uuid) :
    timeline { idx with events := idx.events.insert runId l } r
      = if runId = r then l else idx.timeline r := by
  unfold timeline
  rw [Map.get_insert]
  split <;> rfl

@[simp] theorem timeline_touch (runId r : Uuid) :
    (idx.touch runId).timeline r = idx.timeline r := by
  rw [touch, timeline_insert]
  split
  · next h => rw [h]
  · rfl

theorem timeline_pushEvent (r : Uuid) :
    (idx.pushEvent event).timeline r
      = if event.runId = r then idx.timeline r ++ [event] else idx.timeline r := by
  unfold timeline pushEvent
  rw [Map.get_insert]
  split
  · next h => rw [← h]; rfl
  · rfl

/-- **An event is covered already, extends its timeline, or is refused.** -/
theorem applyEvent_cases (idx : Indexes) (event : EventRecord) :
    (event.sequence ≤ (idx.timeline event.runId).length ∧
        idx.applyEvent event = (idx.touch event.runId, .ok ())) ∨
      (event.sequence = (idx.timeline event.runId).length + 1 ∧
        event.previousHash = eventLinks.lastHash (idx.timeline event.runId) ∧
        idx.applyEvent event = (idx.pushEvent event, .ok ())) ∨
      ∃ error, idx.applyEvent event = (idx.touch event.runId, .error error) := by
  unfold applyEvent
  simp only []
  split
  · next h => exact Or.inl ⟨h, rfl⟩
  · split
    · exact Or.inr (Or.inr ⟨_, rfl⟩)
    · split
      · exact Or.inr (Or.inr ⟨_, rfl⟩)
      · next _ h₁ h₂ =>
        exact Or.inr (Or.inl ⟨Classical.not_not.mp h₁, Classical.not_not.mp h₂, rfl⟩)

/-- An event built on a head of the stored timeline is never refused. -/
theorem applyEvent_of_follows
    (h : eventLinks.Follows (idx.timeline event.runId) event) :
    (event.sequence ≤ (idx.timeline event.runId).length ∧ idx.applyEvent event = (idx, .ok ())) ∨
      (event.sequence = (idx.timeline event.runId).length + 1 ∧
        event.previousHash = eventLinks.lastHash (idx.timeline event.runId) ∧
        idx.applyEvent event = (idx.pushEvent event, .ok ())) := by
  rcases h.cases with hc | ⟨hseq, hprev⟩
  · left
    refine ⟨hc, ?_⟩
    -- the sequence is positive, so the timeline has an entry and touching it changes nothing
    have htouch : idx.touch event.runId = idx := by
      obtain ⟨n, _, ⟨k, _, hn, _⟩, hs, _⟩ := h
      change event.sequence ≤ _ at hc
      change event.sequence = _ at hs
      unfold touch
      rw [Map.insert_same]
      unfold timeline at hc ⊢
      cases he : idx.events[event.runId]? with
      | some l => rfl
      | none =>
        rw [he, Option.getD_none, List.length_nil] at hc
        omega
    unfold applyEvent
    simp only [if_pos (show event.sequence ≤ _ from hc)]
    rw [htouch]
  · right
    change event.sequence = _ at hseq
    change event.previousHash = _ at hprev
    refine ⟨hseq, hprev, ?_⟩
    unfold applyEvent
    simp only []
    rw [if_neg (by omega), if_neg (by omega), if_neg (by simp [hprev])]

theorem runs_pushEvent (r : Uuid) :
    (idx.pushEvent event).runs[r]?
      = if event.runId = r then idx.runs[r]?.map fun run => run.moveHead event
        else idx.runs[r]? := by
  unfold pushEvent
  cases h : idx.runs[event.runId]? with
  | some run =>
    simp only []
    rw [Map.get_insert]
    split
    · next hr => rw [← hr, h]; rfl
    · rfl
  | none =>
    simp only []
    split
    · next hr => rw [← hr, h]; rfl
    · rfl

/-- Head and timeline of a run before and after an event of any run. -/
theorem applyEvent_at (idx : Indexes) (event : EventRecord) (r : Uuid) :
    ((idx.applyEvent event).1.runs[r]? = idx.runs[r]? ∧
        (idx.applyEvent event).1.timeline r = idx.timeline r) ∨
      (event.runId = r ∧ event.sequence = (idx.timeline r).length + 1 ∧
        event.previousHash = eventLinks.lastHash (idx.timeline r) ∧
        (idx.applyEvent event).1.runs[r]? = (idx.runs[r]?.map fun run => run.moveHead event) ∧
        (idx.applyEvent event).1.timeline r = idx.timeline r ++ [event]) := by
  rcases applyEvent_cases idx event with ⟨-, h⟩ | ⟨hseq, hprev, h⟩ | ⟨e, h⟩
  · left; rw [h]; exact ⟨rfl, timeline_touch _ _⟩
  · rw [h]
    by_cases hr : event.runId = r
    · right
      subst hr
      exact ⟨rfl, hseq, hprev, by simp [runs_pushEvent], by simp [timeline_pushEvent]⟩
    · left
      simp [runs_pushEvent, timeline_pushEvent, hr]
  · left; rw [h]; exact ⟨rfl, timeline_touch _ _⟩

@[simp] theorem removeEffect_frame (idx : Indexes) (effectId : Uuid) :
    (idx.removeEffect effectId).runs = idx.runs ∧ (idx.removeEffect effectId).events = idx.events ∧
      (idx.removeEffect effectId).checkpoints = idx.checkpoints := by
  unfold removeEffect
  split <;> exact ⟨rfl, rfl, rfl⟩

theorem removeEffects_frame (effectIds : List Uuid) : ∀ idx,
    (effectIds.foldl removeEffect idx).runs = idx.runs ∧
      (effectIds.foldl removeEffect idx).events = idx.events ∧
      (effectIds.foldl removeEffect idx).checkpoints = idx.checkpoints := by
  induction effectIds with
  | nil => intro idx; exact ⟨rfl, rfl, rfl⟩
  | cons id ids ih =>
    intro idx
    obtain ⟨h₁, h₂, h₃⟩ := ih (idx.removeEffect id)
    obtain ⟨g₁, g₂, g₃⟩ := removeEffect_frame idx id
    exact ⟨h₁.trans g₁, h₂.trans g₂, h₃.trans g₃⟩

/--
**What a record does to a run and its timeline**: nothing; it replaces the run; it appends
one event and moves the head; or it removes both.
-/
theorem apply_at (idx : Indexes) (kind : RecordKind) (r : Uuid) :
    ((idx.apply kind).1.runs[r]? = idx.runs[r]? ∧
        (idx.apply kind).1.timeline r = idx.timeline r) ∨
      (∃ run, (kind = .runCreated run ∨ kind = .runUpdated run) ∧ run.id = r ∧
        (idx.apply kind).1.runs[r]? = some run ∧
        (idx.apply kind).1.timeline r = idx.timeline r) ∨
      (∃ event, kind.event = some event ∧ event.runId = r ∧
        event.sequence = (idx.timeline r).length + 1 ∧
        event.previousHash = eventLinks.lastHash (idx.timeline r) ∧
        (idx.apply kind).1.runs[r]? = (idx.runs[r]?.map fun run => run.moveHead event) ∧
        (idx.apply kind).1.timeline r = idx.timeline r ++ [event]) ∨
      (∃ cutoff runIds effectIds, kind = .retentionApplied cutoff runIds effectIds ∧
        r ∈ runIds ∧ (idx.apply kind).1.runs[r]? = none ∧ (idx.apply kind).1.timeline r = []) := by
  have hrun : ∀ run, (idx.runs.insert run.id run)[r]? = idx.runs[r]? ∨
      run.id = r ∧ (idx.runs.insert run.id run)[r]? = some run := by
    intro run
    rw [Map.get_insert]
    split
    · next h => exact Or.inr ⟨h, rfl⟩
    · exact Or.inl rfl
  cases kind with
  | runCreated run =>
    rcases hrun run with h | ⟨hr, h⟩
    · exact Or.inl ⟨h, rfl⟩
    · exact Or.inr (Or.inl ⟨run, Or.inl rfl, hr, h, rfl⟩)
  | runUpdated run =>
    rcases hrun run with h | ⟨hr, h⟩
    · exact Or.inl ⟨h, rfl⟩
    · exact Or.inr (Or.inl ⟨run, Or.inr rfl, hr, h, rfl⟩)
  | checkpointCreated checkpoint => exact Or.inl ⟨rfl, rfl⟩
  | effectApplied effect event =>
    cases event with
    | none => exact Or.inl ⟨rfl, rfl⟩
    | some event =>
      rcases applyEvent_at (idx.putEffect effect) event r with h | h
      · exact Or.inl h
      · exact Or.inr (Or.inr (Or.inl ⟨event, rfl, h⟩))
  | eventAppended event =>
    rcases applyEvent_at idx event r with h | h
    · exact Or.inl h
    · exact Or.inr (Or.inr (Or.inl ⟨event, rfl, h⟩))
  | retentionApplied cutoff runIds effectIds =>
    obtain ⟨hruns, hevents, -⟩ := removeEffects_frame effectIds (idx.removeRuns runIds)
    by_cases hr : r ∈ runIds
    · refine Or.inr (Or.inr (Or.inr ⟨cutoff, runIds, effectIds, rfl, hr, ?_, ?_⟩))
      · simp only [apply]
        rw [hruns, removeRuns, Map.get_eraseAll, if_pos hr]
      · unfold timeline
        simp only [apply]
        rw [hevents, removeRuns, Map.get_eraseAll, if_pos hr, Option.getD_none]
    · left
      unfold timeline
      simp only [apply]
      rw [hruns, hevents, removeRuns, Map.get_eraseAll, Map.get_eraseAll, if_neg hr, if_neg hr]
      exact ⟨rfl, rfl⟩

/-! ## Effects and checkpoints -/

/-- An event leaves effects and checkpoints alone. -/
theorem applyEvent_frame (idx : Indexes) (event : EventRecord) :
    (idx.applyEvent event).1.effectsById = idx.effectsById ∧
      (idx.applyEvent event).1.effectIds = idx.effectIds ∧
      (idx.applyEvent event).1.checkpoints = idx.checkpoints := by
  rcases applyEvent_cases idx event with ⟨-, h⟩ | ⟨-, -, h⟩ | ⟨e, h⟩ <;> rw [h] <;>
    exact ⟨rfl, rfl, rfl⟩

/-- An effect record stores its effect. -/
theorem effects_effectApplied (idx : Indexes) (effect : EffectRecord) (event : Option EventRecord) :
    (idx.apply (.effectApplied effect event)).1.effectsById
        = idx.effectsById.insert effect.id effect ∧
      (idx.apply (.effectApplied effect event)).1.effectIds
        = Function.update idx.effectIds (effectKeyOf effect) (some effect.id) := by
  cases event with
  | none => exact ⟨rfl, rfl⟩
  | some event =>
    obtain ⟨h₁, h₂, -⟩ := applyEvent_frame (idx.putEffect effect) event
    exact ⟨h₁, h₂⟩

theorem effects_apply_effect {effect : EffectRecord} (he : kind.effect = some effect) :
    (idx.apply kind).1.effectsById = idx.effectsById.insert effect.id effect ∧
      (idx.apply kind).1.effectIds
        = Function.update idx.effectIds (effectKeyOf effect) (some effect.id) := by
  cases kind <;> cases he
  exact effects_effectApplied idx effect _

/-- Records without an effect leave the effects alone, retention apart. -/
theorem effects_apply_other (he : kind.effect = none) (hr : kind.isRetention = false) :
    (idx.apply kind).1.effectsById = idx.effectsById ∧
      (idx.apply kind).1.effectIds = idx.effectIds := by
  cases kind with
  | runCreated | runUpdated | checkpointCreated => exact ⟨rfl, rfl⟩
  | eventAppended event =>
    obtain ⟨h₁, h₂, -⟩ := applyEvent_frame idx event
    exact ⟨h₁, h₂⟩
  | effectApplied effect event => cases he
  | retentionApplied cutoff runIds effectIds => cases hr

/-- **What a record does to the effects**: it stores one, or removes some, or nothing. -/
theorem effects_apply (idx : Indexes) (kind : RecordKind) :
    ((idx.apply kind).1.effectsById = idx.effectsById ∧
        (idx.apply kind).1.effectIds = idx.effectIds) ∨
      (∃ effect event, kind = .effectApplied effect event ∧
        (idx.apply kind).1.effectsById = idx.effectsById.insert effect.id effect ∧
        (idx.apply kind).1.effectIds
          = Function.update idx.effectIds (effectKeyOf effect) (some effect.id)) ∨
      (∃ cutoff runIds effectIds, kind = .retentionApplied cutoff runIds effectIds ∧
        (idx.apply kind).1 = effectIds.foldl removeEffect (idx.removeRuns runIds)) := by
  cases kind with
  | effectApplied effect event =>
    exact Or.inr (Or.inl ⟨effect, event, rfl, effects_effectApplied idx effect event⟩)
  | retentionApplied cutoff runIds effectIds =>
    exact Or.inr (Or.inr ⟨cutoff, runIds, effectIds, rfl, rfl⟩)
  | _ => exact Or.inl (effects_apply_other rfl rfl)

/-- Retention removes exactly the listed effects. -/
theorem effectsById_removeEffects (effectIds : List Uuid) (id : Uuid) : ∀ idx,
    (effectIds.foldl removeEffect idx).effectsById[id]?
      = if id ∈ effectIds then none else idx.effectsById[id]? := by
  induction effectIds with
  | nil => intro idx; simp
  | cons e es ih =>
    intro idx
    have hhead : (idx.removeEffect e).effectsById[id]?
        = if e = id then none else idx.effectsById[id]? := by
      unfold removeEffect
      cases he : idx.effectsById[e]? with
      | some effect => simp only []; rw [Map.get_erase]
      | none =>
        simp only []
        split
        · next h => rw [← h, he]
        · rfl
    rw [List.foldl_cons, ih, hhead]
    by_cases hmem : id ∈ es
    · simp [hmem]
    · by_cases hk : e = id
      · simp [hk]
      · simp [hmem, hk, Ne.symm hk]

end Indexes

end Calod.Ledger
