import Calod.Lib.Except
import Calod.Ledger.Ledger

/-!
# What a call can decide

One inversion lemma for all calls: a record that a call wants to persist is one of six kinds,
and each is built from what the call read (`Built`). The invariants of the ledger are proved
from this and from `Indexes.apply_at`, without unfolding any operation again.

* `persists_of_underLock` — which record each call persists
* `built_of_persist`, `built_of_decide` — every record that a call decides on is `Built`
* `Built.event_spec` — its event stands on the head of a stored run
* `Built.run_spec` — its run is new, or has the head of a stored run
-/

namespace Calod.Ledger

open Calod.Core Calod.Serde Lib

variable {kind : RecordKind} {response : Response} {call : Call}

/-- A record, and how it comes from the indexes `idx` that the call read. -/
inductive Built (env : Env) (idx : Indexes) (scope : Scope) : RecordKind → Prop where
  | runCreated (draws : Draws) (externalId agentName : String) (parent : Option Uuid)
      (sequence : Option Int) (metadata : Option Value) :
      Built env idx scope
        (.runCreated (newRun scope draws externalId agentName parent sequence metadata))
  | runUpdated {runId : Uuid} {run : RunRecord} (hrun : runInScope idx scope runId = .ok run)
      (status : RunStatus) (now : Int) :
      Built env idx scope (.runUpdated (run.withStatus status now))
  | effectApplied (change : EffectChange) (now : Int) (eventId : Uuid) {event}
      (hevent : buildEffectEvent env.crates idx scope change now eventId = .ok event) :
      Built env idx scope (.effectApplied change.effect event)
  | eventAppended {runId : Uuid} {run : RunRecord} (hrun : runInScope idx scope runId = .ok run)
      (eventType : String) (occurredAtMs : Int) (payload : Value) (now : Int) (eventId : Uuid) :
      Built env idx scope
        (.eventAppended
          (buildEvent env.crates scope run eventType occurredAtMs payload now eventId))
  | checkpointCreated {runId : Uuid} {run : RunRecord} {checkpoint : CheckpointRecord}
      (hrun : runInScope idx scope runId = .ok run) (hid : checkpoint.runId = runId)
      (htenant : checkpoint.tenantId = scope.tenantId ∧ checkpoint.projectId = scope.projectId) :
      Built env idx scope (.checkpointCreated checkpoint)
  | retentionApplied {policy : RetentionPolicy} {draws : Draws} {kind : RecordKind}
      {report : RetentionReport} (h : applyRetention idx policy draws = (some kind, report)) :
      Built env idx scope kind

variable {env : Env} {idx : Indexes} {scope : Scope}

/-! ## Scoped lookups -/

theorem runInScope_ok {runId : Uuid} {run : RunRecord} :
    runInScope idx scope runId = .ok run ↔
      idx.runs[runId]? = some run ∧ run.tenantId = scope.tenantId ∧
        run.projectId = scope.projectId := by
  unfold runInScope
  cases idx.runs[runId]? with
  | none => simp
  | some found =>
    rw [Option.some.injEq]
    exact ite_eq_ok.trans (and_congr_right fun h => by rw [h])

theorem effectInScope_ok {effectId : Uuid} {effect : EffectRecord} :
    effectInScope idx scope effectId = .ok effect ↔
      idx.effectsById[effectId]? = some effect ∧ effect.tenantId = scope.tenantId ∧
        effect.projectId = scope.projectId := by
  unfold effectInScope
  cases idx.effectsById[effectId]? with
  | none => simp
  | some found =>
    rw [Option.some.injEq]
    exact ite_eq_ok.trans (and_congr_right fun h => by rw [h])

/-! ## Every decision is `Built` -/

section

variable {draws : Draws} {kind : RecordKind} {runId : Uuid}

theorem applyRetention_kind {policy : RetentionPolicy} {draws : Draws} {report : RetentionReport}
    (h : applyRetention idx policy draws = (some kind, report)) :
    kind = .retentionApplied (retentionCutoff policy draws.now)
      (retentionRunIds idx (retentionCutoff policy draws.now))
      (retentionEffectIds idx (retentionCutoff policy draws.now)
        (retentionRunIds idx (retentionCutoff policy draws.now))) := by
  unfold applyRetention at h
  simp only [] at h
  split at h
  · cases h
  · cases h
    rfl

/-- What a call persists right after its decision, and what it answers. -/
inductive Persists (env : Env) (idx : Indexes) (scope : Scope) (draws : Draws) :
    Call → RecordKind → Response → Prop where
  | createRun (req : CreateRunRequest) {run : RunRecord}
      (hrun : run = newRun scope draws req.externalId req.agentName none none req.metadata) :
      Persists env idx scope draws (.createRun req) (.runCreated run) (.run run.view)
  | forkRun {runId : Uuid} {parent run : RunRecord} (req : ForkRunRequest) (sequence : Int)
      (hparent : runInScope idx scope runId = .ok parent)
      (hrun : run = newRun scope draws (parent.externalId ++ ":fork") parent.agentName
        (some parent.id) (some sequence) req.metadata) :
      Persists env idx scope draws (.forkRun runId req) (.runCreated run) (.run run.view)
  | updateRun {runId : Uuid} {run : RunRecord} (req : UpdateRunRequest) {expected : Option Int}
      (hrun : runInScope idx scope runId = .ok run) (hversion : checkVersion run expected = .ok ())
      (hstatus : ¬(run.status.isTerminal ∧ req.status ≠ run.status)) :
      Persists env idx scope draws (.updateRun runId req expected)
        (.runUpdated (run.withStatus req.status draws.now))
        (.run (run.withStatus req.status draws.now).view)
  | appendEvent {runId : Uuid} {run : RunRecord} (req : AppendEventRequest) {event : EventRecord}
      (hrun : runInScope idx scope runId = .ok run)
      (hevent : event = buildEvent env.crates scope run req.eventType req.occurredAtMs req.payload
        draws.now draws.eventId) :
      Persists env idx scope draws (.appendEvent runId req) (.eventAppended event)
        (.event event.view)
  | createCheckpoint {runId : Uuid} {run : RunRecord} {checkpoint : CheckpointRecord}
      (req : CreateCheckpointRequest) (expected : Option Int)
      (hrun : runInScope idx scope runId = .ok run) (hrunId : checkpoint.runId = runId)
      (hid : checkpoint.id = draws.id)
      (htenant : checkpoint.tenantId = scope.tenantId ∧ checkpoint.projectId = scope.projectId)
      (hstate : checkpoint.state = req.state) :
      Persists env idx scope draws (.createCheckpoint runId req expected)
        (.checkpointCreated checkpoint) (.checkpoint checkpoint.view)
  | applyRetention {policy : RetentionPolicy} {kind : RecordKind} {report : RetentionReport}
      (h : applyRetention idx policy draws = (some kind, report)) :
      Persists env idx scope draws (.applyRetention policy) kind (.report report)

theorem ofPair_persist {α : Type} {f : α → Response} {x : Except LedgerError (RecordKind × α)}
    (h : Next.ofPair f x = .ok (.persist kind response)) :
    ∃ a, x = .ok (kind, a) ∧ response = f a := by
  obtain ⟨⟨k, a⟩, hx, he⟩ := map_eq_ok.mp h
  cases he
  exact ⟨a, hx, rfl⟩

/-- **The inversion lemma**, for the calls that persist a record of their own. -/
theorem persists_of_underLock
    (h : call.underLock env idx scope draws = .ok (.persist kind response)) :
    Persists env idx scope draws call kind response := by
  cases call with
  | acquire key req =>
    obtain ⟨plan, -, he⟩ := map_eq_ok.mp h
    cases plan <;> cases he
  | transition id req capabilities =>
    simp only [Call.underLock] at h
    split at h
    · cases h
    · obtain ⟨_, -, he⟩ := map_eq_ok.mp h
      cases he
  | createRun req =>
    obtain ⟨_, hp, rfl⟩ := ofPair_persist h
    obtain ⟨_, -, hp⟩ := bind_eq_ok.mp hp
    obtain ⟨_, -, hp⟩ := bind_eq_ok.mp hp
    cases pure_eq_ok.mp hp
    exact .createRun req rfl
  | forkRun runId req =>
    obtain ⟨_, hp, rfl⟩ := ofPair_persist h
    obtain ⟨_, hparent, hp⟩ := bind_eq_ok.mp hp
    obtain ⟨sequence, -, hp⟩ := bind_eq_ok.mp hp
    cases pure_eq_ok.mp hp
    exact .forkRun req sequence hparent rfl
  | updateRun runId req expected =>
    obtain ⟨_, hp, rfl⟩ := ofPair_persist h
    obtain ⟨_, hrun, hp⟩ := bind_eq_ok.mp hp
    obtain ⟨_, hversion, hp⟩ := bind_eq_ok.mp hp
    split at hp
    · cases hp
    · next hstatus =>
      cases pure_eq_ok.mp hp
      exact .updateRun req hrun hversion hstatus
  | appendEvent runId req =>
    obtain ⟨_, hp, rfl⟩ := ofPair_persist h
    obtain ⟨_, hrun, hp⟩ := bind_eq_ok.mp hp
    cases pure_eq_ok.mp hp
    exact .appendEvent req hrun rfl
  | createCheckpoint runId req expected =>
    obtain ⟨_, hp, rfl⟩ := ofPair_persist h
    obtain ⟨_, hrun, hp⟩ := bind_eq_ok.mp hp
    obtain ⟨_, -, hp⟩ := bind_eq_ok.mp hp
    split at hp
    · cases hp
    · cases pure_eq_ok.mp hp
      exact .createCheckpoint req expected hrun rfl rfl ⟨rfl, rfl⟩ rfl
  | applyRetention policy =>
    simp only [Call.underLock] at h
    split at h
    · next hr =>
      cases h
      exact .applyRetention hr
    · cases h
  | _ =>
    obtain ⟨_, -, he⟩ := map_eq_ok.mp h
    cases he

/--
**Every record that a call decides to persist is built from what it read.** It is no effect:
those go through the lock of their run first. Only `apply_retention` removes anything.
-/
theorem built_of_persist (h : call.underLock env idx scope draws = .ok (.persist kind response)) :
    Built env idx scope kind ∧ kind.effect = none ∧
      (kind.isRetention = true → call.isRetention = true) := by
  cases persists_of_underLock h with
  | createRun req hrun => exact ⟨hrun ▸ .runCreated .., rfl, nofun⟩
  | forkRun req sequence hparent hrun => exact ⟨hrun ▸ .runCreated .., rfl, nofun⟩
  | updateRun req hrun => exact ⟨.runUpdated hrun .., rfl, nofun⟩
  | appendEvent req hrun hevent => exact ⟨hevent ▸ .eventAppended hrun .., rfl, nofun⟩
  | createCheckpoint req expected hrun hrunId hid htenant =>
    exact ⟨.checkpointCreated hrun hrunId htenant, rfl, nofun⟩
  | applyRetention hr => exact ⟨.retentionApplied hr, applyRetention_kind hr ▸ rfl, fun _ => rfl⟩

/-- The record of a call that runs without overlap is built from the indexes it started on. -/
theorem built_of_decide (h : call.decide env idx scope draws = .ok (some kind, response)) :
    Built env idx scope kind := by
  unfold Call.decide at h
  obtain ⟨_, -, h⟩ := bind_eq_ok.mp h
  obtain ⟨next, hnext, h⟩ := bind_eq_ok.mp h
  cases next with
  | answer r => cases pure_eq_ok.mp h
  | persist k r =>
    cases pure_eq_ok.mp h
    exact (built_of_persist hnext).1
  | effect change r =>
    obtain ⟨event, hevent, h⟩ := bind_eq_ok.mp h
    cases pure_eq_ok.mp h
    exact .effectApplied change _ _ hevent

/-- A call leaves the indexes alone, or applies the record it decided on. -/
theorem indexes_call {ledger : Ledger} {fault : Option PersistenceError} :
    (ledger.call env scope draws fault call).1.indexes = ledger.indexes ∨
      ∃ kind response, call.decide env ledger.indexes scope draws = .ok (some kind, response) ∧
        (ledger.call env scope draws fault call).1.indexes = (ledger.indexes.apply kind).1 := by
  unfold Ledger.call
  cases hd : call.decide env ledger.indexes scope draws with
  | error error => exact Or.inl rfl
  | ok decided =>
    obtain ⟨kind?, response⟩ := decided
    cases kind? with
    | none => exact Or.inl rfl
    | some kind =>
      simp only [Ledger.persist]
      by_cases hlen : maxPayload < env.encodedLen kind
      · rw [if_pos hlen]
        exact Or.inl rfl
      · rw [if_neg hlen]
        cases fault with
        | some error => exact Or.inl rfl
        | none =>
          refine Or.inr ⟨kind, response, rfl, ?_⟩
          obtain ⟨applied, result⟩ := ledger.indexes.apply kind
          cases result <;> rfl

end

/-! ## Events and runs of a built record -/

/-- An event built on the head of a stored run, with its hash computed. -/
structure EventOn (crates : Crates) (scope : Scope) (run : RunRecord) (event : EventRecord) :
    Prop where
  runId : event.runId = run.id
  tenantId : event.tenantId = scope.tenantId
  projectId : event.projectId = scope.projectId
  sequence : event.sequence = run.lastEventSequence + 1
  previousHash : event.previousHash = run.headHash
  hash : event.hash = computeEventHash crates event.view

theorem buildEvent_on (crates : Crates) (scope : Scope) (run : RunRecord) (eventType : String)
    (occurredAtMs : Int) (payload : Value) (now : Int) (eventId : Uuid) :
    EventOn crates scope run
      (buildEvent crates scope run eventType occurredAtMs payload now eventId) :=
  ⟨rfl, rfl, rfl, rfl, rfl, rfl⟩

variable {change : EffectChange} {event : EventRecord}

theorem buildEffectEvent_on {crates : Crates} {now : Int} {eventId : Uuid}
    (h : buildEffectEvent crates idx scope change now eventId = .ok (some event)) :
    ∃ runId run, change.effect.runId = some runId ∧ runInScope idx scope runId = .ok run ∧
      EventOn crates scope run event := by
  unfold buildEffectEvent at h
  split at h
  · cases h
  · next runId hrunId =>
    obtain ⟨run, hrun, h⟩ := bind_eq_ok.mp h
    cases pure_eq_ok.mp h
    exact ⟨runId, run, hrunId, hrun, buildEvent_on ..⟩

theorem buildEffectEvent_none {crates : Crates} {now : Int} {eventId : Uuid}
    (h : buildEffectEvent crates idx scope change now eventId = .ok none) :
    change.effect.runId = none := by
  unfold buildEffectEvent at h
  split at h
  · next hrunId => exact hrunId
  · obtain ⟨run, -, h⟩ := bind_eq_ok.mp h
    cases pure_eq_ok.mp h

/-- **The event of a built record stands on the head of a stored run.** -/
theorem Built.event_spec (h : Built env idx scope kind) (he : kind.event = some event) :
    ∃ (runId : Uuid) (run : RunRecord), idx.runs[runId]? = some run ∧
      EventOn env.crates scope run event := by
  cases h with
  | runCreated => cases he
  | runUpdated => cases he
  | checkpointCreated => cases he
  | effectApplied change now eventId hevent =>
    obtain rfl : _ = some event := he
    obtain ⟨runId, run, -, hrun, hon⟩ := buildEffectEvent_on hevent
    exact ⟨runId, run, (runInScope_ok.mp hrun).1, hon⟩
  | eventAppended hrun =>
    cases he
    exact ⟨_, _, (runInScope_ok.mp hrun).1, buildEvent_on ..⟩
  | retentionApplied h =>
    rw [applyRetention_kind h] at he
    cases he

/-- **The run of a built record is new with an empty timeline, or has a stored run's head.** -/
theorem Built.run_spec {run : RunRecord} (h : Built env idx scope kind)
    (hk : kind = .runCreated run ∨ kind = .runUpdated run) :
    (kind = .runCreated run ∧ run.lastEventSequence = 0 ∧ run.headHash = genesisHash) ∨
      ∃ (runId : Uuid) (old : RunRecord), kind = .runUpdated run ∧
        idx.runs[runId]? = some old ∧ run.id = old.id ∧
        run.lastEventSequence = old.lastEventSequence ∧ run.headHash = old.headHash := by
  cases h with
  | runCreated =>
    rcases hk with hk | hk <;> cases hk
    exact Or.inl ⟨rfl, rfl, rfl⟩
  | runUpdated hrun =>
    rcases hk with hk | hk <;> cases hk
    exact Or.inr ⟨_, _, rfl, (runInScope_ok.mp hrun).1, rfl, rfl, rfl⟩
  | checkpointCreated | effectApplied | eventAppended => rcases hk with hk | hk <;> cases hk
  | retentionApplied h =>
    rw [applyRetention_kind h] at hk
    rcases hk with hk | hk <;> cases hk

end Calod.Ledger
