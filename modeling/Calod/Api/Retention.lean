import Calod.Api.Routes
import Calod.Ledger.Retention

/-!
# The retention route

`apply_retention` of `calod-api/src/routes.rs`. The age comes in days, as any `u64`; it becomes
milliseconds by a multiplication that wraps and a cast to `i64`, and `Ledger::apply_retention`
takes a negative age for zero. So the age of a request can be smaller than that of a request for
fewer days (`larger_age_prunes_more`).

* `call_applyRetention` — what a call removes
* `retention_monotone_iff` — **a request removes nothing that another one keeps just if** its age,
  as the ledger takes it, is not smaller
-/

namespace Calod.Ledger

open Calod.Core Lib

/-- The runs that are in one state of the indexes and not in another. -/
def Indexes.removedRuns (before after : Indexes) : Set Uuid :=
  {r | before.runs[r]?.isSome = true ∧ after.runs[r]? = none}

def Indexes.removedEffects (before after : Indexes) : Set Uuid :=
  {id | before.effectsById[id]?.isSome = true ∧ after.effectsById[id]? = none}

/-- The runs and effects of two lists are gone, and nothing else. -/
structure Indexes.Pruned (before after : Indexes) (runIds effectIds : List Uuid) : Prop where
  runs : ∀ r, after.runs[r]? = if r ∈ runIds then none else before.runs[r]?
  effects : ∀ id, after.effectsById[id]? = if id ∈ effectIds then none else before.effectsById[id]?

section

variable {env : Env} {idx : Indexes} {scope : Scope} {draws : Draws} {policy : RetentionPolicy}

theorem decide_applyRetention_eq : (Call.applyRetention policy).decide env idx scope draws
    = .ok ((applyRetention idx policy draws).1, .report (applyRetention idx policy draws).2) := by
  unfold Call.decide
  simp only [Call.check, Call.underLock, bind, Except.bind]
  rcases applyRetention idx policy draws with ⟨kind?, report⟩
  cases kind? <;> rfl

/-- Nothing is persisted only if nothing is listed. -/
theorem applyRetention_none (h : (applyRetention idx policy draws).1 = none) :
    retentionRunIds idx (retentionCutoff policy draws.now) = [] ∧
      retentionEffectIds idx (retentionCutoff policy draws.now)
        (retentionRunIds idx (retentionCutoff policy draws.now)) = [] := by
  unfold applyRetention at h
  dsimp only at h
  split at h
  · next hempty => simpa using hempty
  · cases h

/-- `apply_retention` changes nothing if its record is too long or not written, and else removes
what it listed. -/
theorem call_applyRetention (ledger : Ledger) (fault : Option PersistenceError) :
    (∃ kind, (applyRetention ledger.indexes policy draws).1 = some kind ∧
        (maxPayload < env.encodedLen kind ∨ fault ≠ none)) ∧
        (ledger.call env scope draws fault (.applyRetention policy)).1.indexes = ledger.indexes ∨
      ledger.indexes.Pruned (ledger.call env scope draws fault (.applyRetention policy)).1.indexes
        (retentionRunIds ledger.indexes (retentionCutoff policy draws.now))
        (retentionEffectIds ledger.indexes (retentionCutoff policy draws.now)
          (retentionRunIds ledger.indexes (retentionCutoff policy draws.now))) := by
  unfold Ledger.call
  rw [decide_applyRetention_eq]
  cases hkind : (applyRetention ledger.indexes policy draws).1 with
  | none =>
    obtain ⟨hruns, heffects⟩ := applyRetention_none hkind
    rw [heffects, hruns]
    exact .inr ⟨fun r => by simp, fun id => by simp⟩
  | some kind =>
    simp only [Ledger.persist]
    by_cases hlen : maxPayload < env.encodedLen kind
    · rw [if_pos hlen]
      exact .inl ⟨⟨kind, rfl, .inl hlen⟩, rfl⟩
    · rw [if_neg hlen, applyRetention_kind (Prod.ext hkind rfl)]
      cases fault with
      | some error => exact .inl ⟨⟨_, rfl, .inr (Option.some_ne_none error)⟩, rfl⟩
      | none =>
        right
        refine ⟨fun r => ?_, fun id => ?_⟩
        · show (List.foldl Indexes.removeEffect _ _).runs[r]? = _
          rw [(Indexes.removeEffects_frame _ _).1, Indexes.removeRuns, Map.get_eraseAll]
        · exact Indexes.effectsById_removeEffects _ id _

end

/-! ## A later cutoff lists more -/

theorem RunRecord.prunable_mono {run : RunRecord} {cutoff cutoff' : Int} (hle : cutoff ≤ cutoff')
    (h : run.prunable cutoff = true) : run.prunable cutoff' = true := by
  rw [prunable, Bool.and_eq_true, decide_eq_true_eq] at h ⊢
  exact ⟨h.1, h.2.trans hle⟩

namespace Indexes

variable {idx : Indexes} {cutoff cutoff' : Int}

theorem retentionRunIds_mono (hk : idx.Keyed) (hle : cutoff ≤ cutoff') {r : Uuid}
    (h : r ∈ retentionRunIds idx cutoff) : r ∈ retentionRunIds idx cutoff' := by
  obtain ⟨run, hrun, hp⟩ := (mem_retentionRunIds hk).mp h
  exact (mem_retentionRunIds hk).mpr ⟨run, hrun, RunRecord.prunable_mono hle hp⟩

theorem retentionEffectIds_mono (hk : idx.Keyed) (hle : cutoff ≤ cutoff') {id : Uuid}
    {effect : EffectRecord} (he : idx.effectsById[id]? = some effect)
    (h : id ∈ retentionEffectIds idx cutoff (retentionRunIds idx cutoff)) :
    id ∈ retentionEffectIds idx cutoff' (retentionRunIds idx cutoff') := by
  refine (mem_retentionEffectIds hk he).mpr ?_
  rcases (mem_retentionEffectIds hk he).mp h with ⟨hterminal, hold⟩ | ⟨r, hrun, hlisted⟩
  · exact .inl ⟨hterminal, hold.trans hle⟩
  · exact .inr ⟨r, hrun, retentionRunIds_mono hk hle hlisted⟩

/-- What was removed was listed. -/
theorem Pruned.mem_of_removed {after : Indexes} {runIds effectIds : List Uuid}
    (h : idx.Pruned after runIds effectIds) :
    (∀ r ∈ idx.removedRuns after, r ∈ runIds) ∧
      ∀ id ∈ idx.removedEffects after, id ∈ effectIds := by
  refine ⟨fun r hr => ?_, fun id hid => ?_⟩
  · by_contra hnot
    obtain ⟨hsome, hnone⟩ := hr
    rw [h.runs, if_neg hnot] at hnone
    simp [hnone] at hsome
  · by_contra hnot
    obtain ⟨hsome, hnone⟩ := hid
    rw [h.effects, if_neg hnot] at hnone
    simp [hnone] at hsome

/-- Two prunings of the same indexes, the second with a cutoff that is not later. -/
theorem Pruned.removed_subset {after after' : Indexes} (hk : idx.Keyed) (hle : cutoff ≤ cutoff')
    (h : idx.Pruned after (retentionRunIds idx cutoff)
      (retentionEffectIds idx cutoff (retentionRunIds idx cutoff)))
    (h' : idx.Pruned after' (retentionRunIds idx cutoff')
      (retentionEffectIds idx cutoff' (retentionRunIds idx cutoff'))) :
    idx.removedRuns after ⊆ idx.removedRuns after' ∧
      idx.removedEffects after ⊆ idx.removedEffects after' := by
  refine ⟨fun r hr => ⟨hr.1, ?_⟩, fun id hid => ⟨hid.1, ?_⟩⟩
  · rw [h'.runs, if_pos (retentionRunIds_mono hk hle (h.mem_of_removed.1 r hr))]
  · obtain ⟨effect, he⟩ := Option.isSome_iff_exists.mp hid.1
    rw [h'.effects, if_pos (retentionEffectIds_mono hk hle he (h.mem_of_removed.2 id hid))]

theorem removed_self : idx.removedRuns idx = ∅ ∧ idx.removedEffects idx = ∅ := by
  refine ⟨Set.eq_empty_iff_forall_notMem.mpr ?_, Set.eq_empty_iff_forall_notMem.mpr ?_⟩
  · rintro r ⟨hsome, hnone⟩
    rw [hnone] at hsome
    cases hsome
  · rintro id ⟨hsome, hnone⟩
    rw [hnone] at hsome
    cases hsome

end Indexes

end Calod.Ledger

namespace Calod.Api

open Calod.Core Calod.Ledger Lib

/-! ## The route -/

structure RetentionBody where
  maxAgeDays : Option UInt64
  /-- `true` by default. -/
  compact : Bool := true

/-- `(days * 86_400_000) as i64`. -/
def maxAgeMs (days : UInt64) : Int := (days * 86400000).toInt64.toInt

/-- The policy of a request; without an age, the one the ledger was opened with. -/
def RetentionBody.policy (req : RetentionBody) (configured : Option RetentionPolicy) :
    Except HttpResponse RetentionPolicy :=
  match req.maxAgeDays with
  | some days => .ok { maxAgeMs := maxAgeMs days }
  | none =>
    match configured with
    | some policy => .ok policy
    | none =>
      .error (.validation "max_age_days" "no retention policy configured; supply max_age_days")

/-- `apply_retention`, on the ledger and its snapshot directory. -/
def applyRetention (env : Env) (auth : AuthContext) (configured : Option RetentionPolicy)
    (draws : Draws) (fault : Option PersistenceError) (req : RetentionBody)
    (state : Ledger × SnapshotDir) : (Ledger × SnapshotDir) × Except HttpResponse Response :=
  if !auth.capabilities.canAdmin then (state, .error .insufficientScope)
  else
    match req.policy configured with
    | .error response => (state, .error response)
    | .ok policy =>
      match state.1.call env auth.scope draws fault (.applyRetention policy) with
      | (ledger, .error error) => ((ledger, state.2), .error (.fromLedger error))
      | (ledger, .ok (.report report)) =>
        if req.compact && (0 < report.runsRemoved || 0 < report.effectsRemoved) then
          (ledger.snapshot env draws.now state.2, .ok (.report report))
        else ((ledger, state.2), .ok (.report report))
      | (ledger, .ok response) => ((ledger, state.2), .ok response)

/-! ## What a request removes -/

section

variable {env : Env} {auth : AuthContext} {configured : Option RetentionPolicy} {draws : Draws}
  {fault : Option PersistenceError} {req : RetentionBody} {policy : RetentionPolicy}
  {ledger : Ledger} {disk : SnapshotDir}

/-- An administrator's request does to the indexes what the ledger does. -/
theorem indexes_applyRetention (hadmin : auth.capabilities.canAdmin = true)
    (hpolicy : req.policy configured = .ok policy) :
    (applyRetention env auth configured draws fault req (ledger, disk)).1.1.indexes
      = (ledger.call env auth.scope draws fault (.applyRetention policy)).1.indexes := by
  unfold applyRetention
  simp only [hadmin, Bool.not_true, Bool.false_eq_true, if_false, hpolicy]
  rcases ledger.call env auth.scope draws fault (.applyRetention policy) with ⟨after, result⟩
  cases result with
  | error error => rfl
  | ok response =>
    cases response with
    | report report =>
      dsimp only
      split
      · unfold Ledger.snapshot
        cases after.lastWalPosition <;> rfl
      · rfl
    | _ => rfl

/-- Without the scope, a request changes nothing. -/
theorem applyRetention_forbidden (hadmin : ¬auth.capabilities.canAdmin = true) :
    (applyRetention env auth configured draws fault req (ledger, disk)).1.1 = ledger := by
  rw [applyRetention, if_pos (by simpa using hadmin)]

end

/-! ## Ages -/

/-- The age of a request, as the ledger takes it. -/
def effectiveAge (days : UInt64) : Int := max (maxAgeMs days) 0

theorem retentionCutoff_antitone {days days' : UInt64} (h : effectiveAge days ≤ effectiveAge days')
    (now : Int) : retentionCutoff { maxAgeMs := maxAgeMs days' } now
      ≤ retentionCutoff { maxAgeMs := maxAgeMs days } now := by
  unfold effectiveAge at h
  unfold retentionCutoff saturatingSubI64
  dsimp only
  omega

theorem policy_of_days (days : UInt64) (compact : Bool) (configured : Option RetentionPolicy) :
    RetentionBody.policy { maxAgeDays := some days, compact } configured
      = .ok { maxAgeMs := maxAgeMs days } := rfl

/-- The indexes after a request for an age in days. -/
def prunedIndexes (env : Env) (auth : AuthContext) (configured : Option RetentionPolicy)
    (draws : Draws) (fault : Option PersistenceError) (compact : Bool)
    (state : Ledger × SnapshotDir) (days : UInt64) : Indexes :=
  (applyRetention env auth configured draws fault { maxAgeDays := some days, compact }
    state).1.1.indexes

/-- The record of what a request removes is within the limit of the log. -/
def RecordFits (env : Env) (idx : Indexes) (draws : Draws) (days : UInt64) : Prop :=
  ∀ kind, (Ledger.applyRetention idx { maxAgeMs := maxAgeMs days } draws).1 = some kind →
    env.encodedLen kind ≤ maxPayload

/--
In every state that any interleaving of calls, snapshots, crashes and reopens reaches, and at any
time, what a request for `days'` removes a request for `days` removes too, unless its record is too
long for the log.
-/
def Monotone (auth : AuthContext) (days days' : UInt64) : Prop :=
  ∀ (env : Env) (s : Sys), Reach (Sys.step env) (fun _ _ => True) Sys.init s →
    ∀ (configured : Option RetentionPolicy) (draws : Draws) (fault' : Option PersistenceError)
      (compact compact' : Bool) (disk : SnapshotDir), RecordFits env s.ledger.indexes draws days →
      s.ledger.indexes.removedRuns
          (prunedIndexes env auth configured draws fault' compact' (s.ledger, disk) days')
        ⊆ s.ledger.indexes.removedRuns
          (prunedIndexes env auth configured draws none compact (s.ledger, disk) days) ∧
      s.ledger.indexes.removedEffects
          (prunedIndexes env auth configured draws fault' compact' (s.ledger, disk) days')
        ⊆ s.ledger.indexes.removedEffects
          (prunedIndexes env auth configured draws none compact (s.ledger, disk) days)

theorem monotone_of_age {auth : AuthContext} {days days' : UInt64}
    (hage : auth.capabilities.canAdmin = true → effectiveAge days ≤ effectiveAge days') :
    Monotone auth days days' := by
  intro env s h configured draws fault' compact compact' disk hfits
  have hnothing : ∀ after, after = s.ledger.indexes →
      s.ledger.indexes.removedRuns after = ∅ ∧ s.ledger.indexes.removedEffects after = ∅ :=
    fun _ he => he ▸ Indexes.removed_self
  unfold prunedIndexes
  by_cases hadmin : auth.capabilities.canAdmin = true
  · rw [indexes_applyRetention hadmin (policy_of_days days compact configured),
      indexes_applyRetention hadmin (policy_of_days days' compact' configured)]
    rcases call_applyRetention s.ledger none with ⟨⟨kind, hkind, hlong | hfault⟩, -⟩ | hpruned
    · exact absurd (hfits kind hkind) (Nat.not_le.mpr hlong)
    · exact absurd rfl hfault
    rcases call_applyRetention s.ledger fault' with ⟨-, hsame⟩ | hpruned'
    · -- the second request fails and removes nothing
      rw [(hnothing _ hsame).1, (hnothing _ hsame).2]
      exact ⟨Set.empty_subset _, Set.empty_subset _⟩
    · exact hpruned'.removed_subset (Sys.Sound.of_reach h).keyed
        (retentionCutoff_antitone (hage hadmin) draws.now) hpruned
  · rw [applyRetention_forbidden hadmin, (hnothing _ rfl).1, (hnothing _ rfl).2]
    exact ⟨Set.empty_subset _, Set.empty_subset _⟩

/-! ## Requests that are not in order -/

namespace Sample

/-- The `n`th draw, at the given time. -/
def drawsAt (n : Nat) (now : Int) : Draws := { Ledger.Sample.draws n with now }

/-- A run that is created and completed at the time 0. -/
def completedRun : List Sys.Action :=
  Ledger.Sample.spawn Ledger.Sample.createRun :: List.replicate 3 (.step 0 (drawsAt 1 0))
    ++ Ledger.Sample.spawn (Ledger.Sample.updateRun 1 .completed)
      :: List.replicate 4 (.step 1 (drawsAt 2 0))

theorem exists_completed :
    ∃ s, Reach (Sys.step Ledger.Sample.env) (fun _ _ => True) Sys.init s ∧
      ∃ run, s.ledger.indexes.runs[(1 : Uuid)]? = some run ∧ run.status.isTerminal = true ∧
        run.updatedAtMs = 0 := by
  have hrun : ((Lib.run (Sys.step Ledger.Sample.env) (fun _ _ => true) Sys.init
      completedRun).map fun s => s.ledger.indexes.runs[(1 : Uuid)]?.map fun run =>
        (run.status.isTerminal, run.updatedAtMs)) = some (some (true, 0)) := by
    decide +kernel
  obtain ⟨s, hreach, he⟩ := exists_reach_of_run hrun
  obtain ⟨run, hrun, he⟩ := Option.map_eq_some_iff.mp he
  obtain ⟨hterminal, hupdated⟩ := Prod.mk.inj he
  exact ⟨s, hreach.mono fun _ _ _ => trivial, run, hrun, hterminal, hupdated⟩

end Sample

/-- **A request with a smaller age removes more**: a run that is just as old as its age. -/
theorem exists_removed_kept {auth : AuthContext} (hadmin : auth.capabilities.canAdmin = true)
    {days days' : UInt64} (hage : effectiveAge days' < effectiveAge days) :
    ∃ s, Reach (Sys.step Ledger.Sample.env) (fun _ _ => True) Sys.init s ∧
      ∃ draws, RecordFits Ledger.Sample.env s.ledger.indexes draws days ∧
        (1 : Uuid) ∈ s.ledger.indexes.removedRuns (prunedIndexes Ledger.Sample.env auth none draws
          none true (s.ledger, SnapshotDir.empty) days') ∧
        (1 : Uuid) ∉ s.ledger.indexes.removedRuns (prunedIndexes Ledger.Sample.env auth none draws
          none true (s.ledger, SnapshotDir.empty) days) := by
  obtain ⟨s, hreach, run, hrun, hterminal, hupdated⟩ := Sample.exists_completed
  have hk := (Sys.Sound.of_reach hreach).keyed
  let draws := Sample.drawsAt 3 (effectiveAge days')
  have hfits : ∀ kind, Ledger.Sample.env.encodedLen kind ≤ maxPayload := by
    intro kind
    show 512 ≤ maxPayload
    decide
  -- the run is listed for the ages up to that of the second request
  have hlisted : ∀ d, (1 : Uuid) ∈ retentionRunIds s.ledger.indexes
      (retentionCutoff { maxAgeMs := maxAgeMs d } draws.now) ↔
        effectiveAge d ≤ effectiveAge days' := by
    intro d
    have hcutoff : 0 ≤ retentionCutoff { maxAgeMs := maxAgeMs d } draws.now ↔
        effectiveAge d ≤ effectiveAge days' := by
      show 0 ≤ saturatingSubI64 (effectiveAge days') (effectiveAge d) ↔ _
      unfold saturatingSubI64
      omega
    have hprunable : ∀ cutoff, run.prunable cutoff = true ↔ 0 ≤ cutoff := by
      intro cutoff
      rw [RunRecord.prunable, hterminal, hupdated, Bool.true_and, decide_eq_true_eq]
    rw [Indexes.mem_retentionRunIds hk, ← hcutoff, ← hprunable, hrun]
    simp only [Option.some.injEq, exists_eq_left']
  have hpruned : ∀ d, (prunedIndexes Ledger.Sample.env auth none draws none true
      (s.ledger, SnapshotDir.empty) d).runs[(1 : Uuid)]?
        = if effectiveAge d ≤ effectiveAge days' then none else some run := by
    intro d
    unfold prunedIndexes
    rw [indexes_applyRetention hadmin (policy_of_days d true none)]
    rcases call_applyRetention s.ledger none with ⟨⟨kind, -, hlong | hfault⟩, -⟩ | hpruned
    · exact absurd (hfits kind) (Nat.not_le.mpr hlong)
    · exact absurd rfl hfault
    · rw [hpruned.runs, hrun]
      exact if_congr (hlisted d) rfl rfl
  refine ⟨s, hreach, draws, fun kind _ => hfits kind, ⟨?_, ?_⟩, ?_⟩
  · rw [hrun]
    rfl
  · rw [hpruned, if_pos le_rfl]
  · rintro ⟨-, hnone⟩
    rw [hpruned, if_neg (not_le.mpr hage)] at hnone
    cases hnone

/-- **A request removes nothing that another one keeps just if** its age, as the ledger takes it, is
not smaller, or the caller has not the scope. -/
theorem retention_monotone_iff (auth : AuthContext) (days days' : UInt64) :
    Monotone auth days days' ↔
      (auth.capabilities.canAdmin = true → effectiveAge days ≤ effectiveAge days') := by
  constructor
  · intro h hadmin
    by_contra hage
    obtain ⟨s, hreach, draws, hfits, hgone, hkept⟩ := exists_removed_kept hadmin (not_le.mp hage)
    exact hkept ((h _ s hreach none draws none true true SnapshotDir.empty hfits).1 hgone)
  · exact monotone_of_age

/--
**A larger age removes more.** 106751991168 days are more than `i64::MAX` milliseconds, so the age
is negative and counts as zero: a run that is completed at this moment is removed, which an age of
one day keeps.
-/
theorem larger_age_prunes_more :
    (1 : UInt64) ≤ 106751991168 ∧ ∃ s, Reach (Sys.step Ledger.Sample.env) (fun _ _ => True)
        Sys.init s ∧ ∃ auth draws,
      (1 : Uuid) ∈ s.ledger.indexes.removedRuns (prunedIndexes Ledger.Sample.env auth none draws
        none true (s.ledger, SnapshotDir.empty) 106751991168) ∧
      (1 : Uuid) ∉ s.ledger.indexes.removedRuns (prunedIndexes Ledger.Sample.env auth none draws
        none true (s.ledger, SnapshotDir.empty) 1) := by
  let admin : AuthContext :=
    { scope := Ledger.Sample.scope, capabilities := { canReconcile := false, canAdmin := true } }
  obtain ⟨s, hreach, draws, -, hgone, hkept⟩ := exists_removed_kept
    (show admin.capabilities.canAdmin = true from rfl)
    (show effectiveAge 106751991168 < effectiveAge 1 by decide)
  exact ⟨by decide, s, hreach, admin, draws, hgone, hkept⟩

end Calod.Api
