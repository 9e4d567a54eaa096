import Calod.Ledger.Timelines

/-!
# What retention removes

`apply_retention` removes old effects in a final state, and whatever belongs to an old run in a
final state. `update_run` does not look at the effects of a run, so a run can be completed while
one of its effects is still claimed, and that effect goes with it (`retention_drops_claimed`).

* `retention_spares_unresolved` — as long as no unresolved effect belongs to a run that is old
  enough, retention keeps every unresolved effect as it is
-/

namespace Calod.Ledger

open Calod.Core Lib Ledger.Sample

namespace Indexes

/-- No unresolved effect belongs to a run that is pruned at `cutoffMs`. -/
def unresolvedKept (idx : Indexes) (cutoffMs : Int) : Bool :=
  idx.effectsById.values.all fun effect =>
    effect.state.isRetentionTerminal ||
      effect.runId.all fun r => idx.runs[r]?.all fun run => !run.prunable cutoffMs

variable {idx : Indexes} {cutoffMs : Int}

theorem mem_retentionRunIds (hk : idx.Keyed) {r : Uuid} :
    r ∈ retentionRunIds idx cutoffMs ↔
      ∃ run, idx.runs[r]? = some run ∧ run.prunable cutoffMs = true := by
  rw [retentionRunIds, List.mem_insertionSort, List.mem_map]
  constructor
  · rintro ⟨run, hrun, rfl⟩
    obtain ⟨hmem, hp⟩ := List.mem_filter.mp hrun
    obtain ⟨k, hget⟩ := Map.mem_values.mp hmem
    rw [hk.runs k run hget]
    exact ⟨run, hget, hp⟩
  · rintro ⟨run, hget, hp⟩
    exact ⟨run, List.mem_filter.mpr ⟨Map.mem_values.mpr ⟨r, hget⟩, hp⟩, hk.runs r run hget⟩

theorem mem_retentionEffectIds (hk : idx.Keyed) {runIds : List Uuid} {id : Uuid}
    {effect : EffectRecord} (he : idx.effectsById[id]? = some effect) :
    id ∈ retentionEffectIds idx cutoffMs runIds ↔
      (effect.state.isRetentionTerminal = true ∧ effect.updatedAtMs ≤ cutoffMs) ∨
        ∃ r, effect.runId = some r ∧ r ∈ runIds := by
  have hcond : ∀ e : EffectRecord,
      ((e.state.isRetentionTerminal && decide (e.updatedAtMs ≤ cutoffMs))
        || e.runId.any fun r => runIds.contains r) = true ↔
      (e.state.isRetentionTerminal = true ∧ e.updatedAtMs ≤ cutoffMs) ∨
        ∃ r, e.runId = some r ∧ r ∈ runIds := by
    intro e
    cases e.runId <;> simp
  rw [retentionEffectIds, List.mem_insertionSort, List.mem_map]
  constructor
  · rintro ⟨e, hmem, rfl⟩
    obtain ⟨hvalue, hp⟩ := List.mem_filter.mp hmem
    obtain ⟨k, hget⟩ := Map.mem_values.mp hvalue
    rw [hk.effects k e hget, hget] at he
    cases he
    exact (hcond _).mp hp
  · intro h
    exact ⟨effect, List.mem_filter.mpr ⟨Map.mem_values.mpr ⟨id, he⟩, (hcond effect).mpr h⟩,
      hk.effects id effect he⟩

/-- An unresolved effect that the condition speaks of is not listed. -/
theorem unresolved_not_listed (hk : idx.Keyed) (hkept : idx.unresolvedKept cutoffMs = true)
    {id : Uuid} {effect : EffectRecord} (he : idx.effectsById[id]? = some effect)
    (hstate : effect.state.isRetentionTerminal = false) :
    id ∉ retentionEffectIds idx cutoffMs (retentionRunIds idx cutoffMs) := by
  rw [mem_retentionEffectIds hk he]
  rintro (⟨hterminal, -⟩ | ⟨r, hrun, hlisted⟩)
  · rw [hstate] at hterminal
    cases hterminal
  · obtain ⟨run, hget, hp⟩ := (mem_retentionRunIds hk).mp hlisted
    have := List.all_eq_true.mp hkept effect (Map.mem_values.mpr ⟨id, he⟩)
    simp [hstate, hrun, hget, hp] at this

end Indexes

/-- The record of `apply_retention` is the one it decided on. -/
theorem decide_applyRetention {env : Env} {idx : Indexes} {scope : Scope} {draws : Draws}
    {policy : RetentionPolicy} {kind : RecordKind} {response : Response}
    (h : (Call.applyRetention policy).decide env idx scope draws = .ok (some kind, response)) :
    ∃ report, applyRetention idx policy draws = (some kind, report) := by
  unfold Call.decide at h
  obtain ⟨_, -, h⟩ := bind_eq_ok.mp h
  obtain ⟨next, hnext, h⟩ := bind_eq_ok.mp h
  simp only [Call.underLock] at hnext
  split at hnext
  · next hr =>
    cases hnext
    cases pure_eq_ok.mp h
    exact ⟨_, hr⟩
  · cases hnext
    cases pure_eq_ok.mp h

/--
**Retention keeps unresolved effects**, in every state that any interleaving of calls, snapshots,
crashes and reopens reaches, as long as none of them belongs to a run that is pruned.
-/
theorem retention_spares_unresolved (env : Env) {s : Sys}
    (h : Reach (Sys.step env) (fun _ _ => True) Sys.init s) (scope : Scope) (draws : Draws)
    (fault : Option PersistenceError) (policy : RetentionPolicy)
    (hkept : s.ledger.indexes.unresolvedKept (retentionCutoff policy draws.now) = true)
    {id : Uuid} {effect : EffectRecord} (he : s.ledger.indexes.effectsById[id]? = some effect)
    (hstate : effect.state.isRetentionTerminal = false) :
    (s.ledger.call env scope draws fault (.applyRetention policy)).1.indexes.effectsById[id]?
      = some effect := by
  have hk := (Sys.Sound.of_reach h).keyed
  have hnot := Indexes.unresolved_not_listed hk hkept he hstate
  rcases indexes_call with hsame | ⟨kind, response, hd, happly⟩
  · rw [hsame]
    exact he
  · obtain ⟨report, hr⟩ := decide_applyRetention hd
    rw [happly, applyRetention_kind hr]
    change (List.foldl Indexes.removeEffect _ _).effectsById[id]? = _
    rw [Indexes.effectsById_removeEffects, if_neg hnot]
    exact he

/-- Retention removes a completed run, and leaves a claimed effect that has no run. -/
theorem retention_spares_unresolved_claimed :
    ∃ s effect, Reach (Sys.step Sample.env) (fun _ _ => True) Sys.init s ∧
      s.ledger.indexes.effectsById[(2 : Uuid)]? = some effect ∧ effect.state = .claimed ∧
      ((s.ledger.call Sample.env Sample.scope (Sample.draws 9) none
          retention).1.indexes.runs[(1 : Uuid)]?.isNone = true) ∧
      (s.ledger.call Sample.env Sample.scope (Sample.draws 9) none
        retention).1.indexes.effectsById[(2 : Uuid)]? = some effect := by
  have hrun : ((Lib.run (Sys.step Sample.env) (fun _ _ => true) Sys.init
      (spawn Sample.createRun :: steps 0 1 3
        ++ spawn (acquire "order-0001" none) :: steps 1 2 4
        ++ spawn (Sample.updateRun 1 .completed) :: steps 2 3 4)).map fun s =>
          (s.ledger.indexes.effectsById[(2 : Uuid)]?.map EffectRecord.state,
            s.ledger.indexes.unresolvedKept
              (retentionCutoff { maxAgeMs := 0 } (Sample.draws 9).now),
            (s.ledger.call Sample.env Sample.scope (Sample.draws 9) none
              retention).1.indexes.runs[(1 : Uuid)]?.isNone))
      = some (some .claimed, true, true) := by
    decide +kernel
  obtain ⟨s, hreach, he⟩ := exists_reach_of_run hrun
  replace hreach : Reach (Sys.step Sample.env) (fun _ _ => True) Sys.init s :=
    hreach.mono fun _ _ _ => trivial
  obtain ⟨hstate, he⟩ := Prod.mk.inj he
  obtain ⟨hkept, hnone⟩ := Prod.mk.inj he
  obtain ⟨effect, hget, hs⟩ := Option.map_eq_some_iff.mp hstate
  exact ⟨s, effect, hreach, hget, hs, hnone, retention_spares_unresolved Sample.env hreach
    Sample.scope (Sample.draws 9) none _ hkept hget (by rw [hs]; rfl)⟩

/-- The fencing token of an `execute` decision. -/
def grantedFence : Except LedgerError Response → Option Int
  | .ok (.decision decision) =>
    if decision.decision = .execute then some decision.effect.fencingToken else none
  | _ => none

/--
**Retention drops a claimed effect with its run.** The run is completed while its effect is
claimed. Retention removes both, and the next `acquire` of the key is told to execute, with the
fencing token 1 that the first holder already has.
-/
theorem retention_drops_claimed :
    ∃ s effect, Reach (Sys.step Sample.env) (fun _ _ => True) Sys.init s ∧
      s.ledger.indexes.effectsById[(2 : Uuid)]? = some effect ∧ effect.state = .claimed ∧
      (s.ledger.call Sample.env Sample.scope (Sample.draws 9) none
        retention).1.indexes.effectsById[(2 : Uuid)]?.isNone = true ∧
      grantedFence ((s.ledger.call Sample.env Sample.scope (Sample.draws 9) none
        retention).1.call Sample.env Sample.scope (Sample.draws 10) none
          (acquire "order-0001" none)).2 = some 1 := by
  have hrun : ((Lib.run (Sys.step Sample.env) (fun _ _ => true) Sys.init
      (spawn Sample.createRun :: steps 0 1 3
        ++ spawn (acquire "order-0001" (some 1)) :: steps 1 2 5
        ++ spawn (Sample.updateRun 1 .completed) :: steps 2 3 4)).map fun s =>
          (s.ledger.indexes.effectsById[(2 : Uuid)]?.map EffectRecord.state,
            (s.ledger.call Sample.env Sample.scope (Sample.draws 9) none
              retention).1.indexes.effectsById[(2 : Uuid)]?.isNone,
            grantedFence ((s.ledger.call Sample.env Sample.scope (Sample.draws 9) none
              retention).1.call Sample.env Sample.scope (Sample.draws 10) none
                (acquire "order-0001" none)).2))
      = some (some .claimed, true, some 1) := by
    decide +kernel
  obtain ⟨s, hreach, he⟩ := exists_reach_of_run hrun
  obtain ⟨hstate, he⟩ := Prod.mk.inj he
  obtain ⟨hnone, hfence⟩ := Prod.mk.inj he
  obtain ⟨effect, hget, hs⟩ := Option.map_eq_some_iff.mp hstate
  exact ⟨s, effect, hreach.mono fun _ _ _ => trivial, hget, hs, hnone, hfence⟩

end Calod.Ledger
