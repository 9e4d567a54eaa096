import Calod.Ledger.Executors
import Calod.Ledger.Identities

/-!
# Final outcomes

An effect that is `committed`, `failed_terminal`, `reconciled_committed` or `reconciled_failed`
stays as it is, and `acquire` answers from it.

* `Stores.not_final` — no call stores a next state of it
* `effectOf_step` — what a step does to the effect of a key
* `acquire_step_final` — a step of an `acquire` on its key changes nothing, and returns
  `finalAnswer`
* `final_outcomes_stay` — through any run of overlapping calls and snapshots, from any state that
  is reached without retention
-/

namespace Calod.Ledger

open Calod.Core Calod.Storage Lib Ledger.Sample

variable {scope : Scope} {req : AcquireEffectRequest} {task : Task}

/-! ## The answer from a final outcome -/

/-- The stored outcome, without a lease. -/
def replayOf (effect : EffectRecord) : EffectDecision where
  decision := .replay
  effect := effect.view
  leaseToken := none
  pollAfterMs := none

/-- The answer to an `acquire` on a key whose effect is final: a malformed request is refused, then
another input or tool, and the rest is replayed. -/
def finalAnswer (env : Env) (effect : EffectRecord) (scope : Scope) (key : String)
    (req : AcquireEffectRequest) : Except LedgerError Response :=
  match (Call.acquire key req).check env .empty scope with
  | .error error => .error error
  | .ok _ =>
    if effect.inputDigest = inputDigest env.crates req.input ∧ effect.toolName = req.toolName then
      .ok (.decision (replayOf effect))
    else
      .error (.idempotencyConflict req.scope key effect.inputDigest
        (inputDigest env.crates req.input))

variable {next : EffectRecord} {response : Response} {i : Nat}

section

variable {env : Env} {idx : Indexes} {scope : Scope} {effect : EffectRecord} {key : String}
  {req : AcquireEffectRequest} {draws : Draws}

/-- No call stores a next state of a final effect. -/
theorem Stores.not_final {call : Call} (h : Stores env scope call (some effect) next response) :
    effect.state.isRetentionTerminal = false := by
  cases h with
  | reacquired hkey hphase hnext =>
    rcases hphase with hphase | ⟨hphase, -⟩ <;> cases hs : effect.state <;>
      simp_all [phaseOf, EffectStatus.isRetentionTerminal]
  | expired hkey hphase hnext =>
    cases hs : effect.state <;> simp_all [phaseOf, EffectStatus.isRetentionTerminal]
  | @transition id req caps now _ _ change hscope hplan hnext =>
    obtain ⟨-, hlegal, -⟩ := transitionPlan_ok hplan
    cases hs : effect.state <;> cases ht : req.transition <;> rw [hs, ht] at hlegal <;>
      first | rfl | cases hlegal

theorem acquireExisting_final (crates : Crates) (leaseMs : Int)
    (hfinal : effect.state.isRetentionTerminal = true) :
    acquireExisting crates effect req leaseMs draws = .decide (replayOf effect) := by
  unfold acquireExisting
  cases hs : effect.state <;> rw [hs] at hfinal <;> first | rfl | cases hfinal

/-- The check of an `acquire` is about the request alone. -/
theorem check_acquire (idx idx' : Indexes) :
    (Call.acquire key req).check env idx scope = (Call.acquire key req).check env idx' scope :=
  rfl

theorem finalAnswer_of_check
    (h : ((Call.acquire key req).check env .empty scope).isOk = true) :
    finalAnswer env effect scope key req
      = if effect.inputDigest = inputDigest env.crates req.input ∧ effect.toolName = req.toolName
          then .ok (.decision (replayOf effect))
          else .error (.idempotencyConflict req.scope key effect.inputDigest
            (inputDigest env.crates req.input)) := by
  unfold finalAnswer
  cases hc : (Call.acquire key req).check env .empty scope with
  | error error =>
    rw [hc] at h
    cases h
  | ok lock => rfl

/-- What `acquire` decides under its lock, once its check has passed. -/
theorem underLock_final {lock : FirstLock}
    (hcheck : (Call.acquire key req).check env idx scope = .ok lock)
    (hof : idx.effectOf (acquireKey scope key req) = some effect)
    (hfinal : effect.state.isRetentionTerminal = true) :
    (Call.acquire key req).underLock env idx scope draws
      = (finalAnswer env effect scope key req).map Next.answer := by
  obtain ⟨_, -, hrest⟩ := bind_eq_ok.mp hcheck
  obtain ⟨leaseMs, hlease, -⟩ := bind_eq_ok.mp hrest
  rw [finalAnswer_of_check (by rw [check_acquire .empty idx, hcheck]; rfl)]
  simp only [Call.underLock, acquirePlan, hlease, hof, bind, Except.bind]
  by_cases hsame : effect.inputDigest = inputDigest env.crates req.input ∧
      effect.toolName = req.toolName
  · rw [if_pos hsame, if_neg (by simp [hsame])]
    simp only [acquireExisting_final env.crates leaseMs hfinal]
    rfl
  · rw [if_neg hsame, if_pos (not_and_or.mp hsame)]
    rfl

/-- An `acquire` that no other call overlaps changes nothing, and returns that answer. -/
theorem call_final {ledger : Ledger} (fault : Option PersistenceError)
    (hof : ledger.indexes.effectOf (acquireKey scope key req) = some effect)
    (hfinal : effect.state.isRetentionTerminal = true) :
    ledger.call env scope draws fault (.acquire key req)
      = (ledger, finalAnswer env effect scope key req) := by
  unfold Ledger.call Call.decide
  cases hcheck : (Call.acquire key req).check env ledger.indexes scope with
  | error error =>
    have hanswer : finalAnswer env effect scope key req = .error error := by
      unfold finalAnswer
      rw [check_acquire .empty ledger.indexes, hcheck]
    rw [hanswer]
    rfl
  | ok lock =>
    rw [underLock_final hcheck hof hfinal]
    cases finalAnswer env effect scope key req <;> rfl

end

/-- What an `acquire` stores is under the key it asked for. -/
theorem Stores.acquire_key {env : Env} {key : String} {old : Option EffectRecord}
    (h : Stores env scope (.acquire key req) old next response) :
    effectKeyOf next = acquireKey scope key req := by
  cases h with
  | acquired hnext => exact hnext ▸ rfl
  | reacquired hkey hphase hnext => exact hnext ▸ hkey
  | expired hkey hphase hnext => exact hnext ▸ hkey

/-! ## Overlapping calls -/

namespace Sys

variable {env : Env} {s s' : Sys} {action : Action} {effect : EffectRecord} {key : EffectKey}

/-- The effect that an action stores, and the call that stores it. -/
def stored (s : Sys) (action : Action) : Option (Call × EffectRecord) :=
  match s.commits action with
  | none => none
  | some (i, kind) =>
    match s.tasks[i]?.map Task.request, kind.effect with
    | some (.call _ call), some next => some (call, next)
    | _, _ => none

theorem commits_of_not_appended (draws : Draws) (hi : s.tasks[i]? = some task)
    (hpc : task.pc.isAppended = false) : s.commits (.step i draws) = none := by
  rw [commits, hi]
  cases h : task.pc with
  | appended kind response position =>
    rw [h] at hpc
    cases hpc
  | _ => simp only [Option.map_some, h]

/-- **What a step does to the effect of a key**: nothing, and then nothing is stored under it, or
a call stores its next state. -/
theorem stored_step (hl : PartitionLock env s) (hk : s.ledger.indexes.Keyed)
    (hcond : s.keepsEffects action = true) (h : s.step env action = some s') (key : EffectKey) :
    (s'.ledger.indexes.effectOf key = s.ledger.indexes.effectOf key ∧
      ∀ call next, s.stored action = some (call, next) → effectKeyOf next ≠ key) ∨
      ∃ scope call next response, s.stored action = some (call, next) ∧ effectKeyOf next = key ∧
        Stores env scope call (s.ledger.indexes.effectOf key) next response ∧
        s'.ledger.indexes.effectOf key = some next := by
  -- a step that applies no record
  have hother : s.commits action = none → s'.ledger.indexes = s.ledger.indexes →
      s'.ledger.indexes.effectOf key = s.ledger.indexes.effectOf key ∧
        ∀ call next, s.stored action = some (call, next) → effectKeyOf next ≠ key := by
    intro hnone hidx
    refine ⟨by rw [hidx], fun call next hs => ?_⟩
    rw [stored, hnone] at hs
    cases hs
  cases step_moves h with
  | reopen ho => exact absurd hcond keepsEffects_ne_reopen
  | spawn request => exact Or.inl (hother rfl rfl)
  | quiet haction locks hi hrequest hpc hbefore =>
    refine Or.inl (hother ?_ rfl)
    cases action with
    | step j draws =>
      obtain rfl := Option.some.inj haction
      exact commits_of_not_appended draws hi (Pc.isAppended_of_holdsCommit hbefore)
    | _ => rfl
  | answer hi _ _ hbefore | persist hi _ _ _ _ hbefore | persistRunless hi _ _ _ _ _ hbefore
  | waitEffectRun _ hi _ _ _ _ hbefore =>
    have hpc := Pc.isAppended_of_holdsCommit hbefore
    exact Or.inl (hother (commits_of_not_appended _ hi hpc) rfl)
  | persistEffect hi _ _ hpc | append hi hpc | saveState hi _ hpc | saveManifest hi _ hpc
  | list hi _ hpc | remove hi _ hpc =>
    exact Or.inl (hother (commits_of_not_appended _ hi (by rw [hpc]; rfl)) rfl)
  | commit hi hpc =>
    rename_i i task draws kind response position
    have hidx := indexes_commit s task kind response position
    have hcommits := commits_of_appended draws hi hpc
    have hret := keepsEffects_commits hcond hcommits
    cases he : kind.effect with
    | none =>
      obtain ⟨hbyId, hids⟩ := Indexes.effects_apply_other he hret
      refine Or.inl ⟨?_, fun call next hs => ?_⟩
      · show (s.commit task kind response position).1.ledger.indexes.effectOf key = _
        rw [hidx, Indexes.effectOf, hbyId, hids]
        rfl
      · simp [stored, hcommits, he] at hs
    | some next =>
      obtain ⟨scope, call, hrequest, hstores, hof⟩ := hl.stores hk hi hpc he hidx
      have hstored : s.stored (.step i draws) = some (call, next) := by
        simp only [stored, hcommits, hi, Option.map_some, hrequest, he]
      have hof := hof key
      by_cases hkey : effectKeyOf next = key
      · rw [if_pos hkey] at hof
        exact Or.inr ⟨scope, call, next, response, hstored, hkey, hkey ▸ hstores, hof⟩
      · rw [if_neg hkey] at hof
        refine Or.inl ⟨hof, fun call' next' hs => ?_⟩
        rw [hstored] at hs
        cases hs
        exact hkey

/-- The same, without what is stored. -/
theorem effectOf_step (hl : PartitionLock env s) (hk : s.ledger.indexes.Keyed)
    (hcond : s.keepsEffects action = true) (h : s.step env action = some s') (key : EffectKey) :
    s'.ledger.indexes.effectOf key = s.ledger.indexes.effectOf key ∨
      ∃ scope call next response,
        Stores env scope call (s.ledger.indexes.effectOf key) next response ∧
        s'.ledger.indexes.effectOf key = some next := by
  rcases stored_step hl hk hcond h key with ⟨hsame, -⟩ | ⟨scope, call, next, r, -, -, hs, hof⟩
  · exact Or.inl hsame
  · exact Or.inr ⟨scope, call, next, r, hs, hof⟩

/-- **No step changes a final effect.** -/
theorem effectOf_final_step (hl : PartitionLock env s) (hk : s.ledger.indexes.Keyed)
    (hcond : s.keepsEffects action = true) (h : s.step env action = some s')
    (hof : s.ledger.indexes.effectOf key = some effect)
    (hfinal : effect.state.isRetentionTerminal = true) :
    s'.ledger.indexes.effectOf key = some effect := by
  rcases effectOf_step hl hk hcond h key with hsame | ⟨scope, call, next, response, hstores, -⟩
  · rw [hsame, hof]
  · rw [hof] at hstores
    rw [hstores.not_final] at hfinal
    cases hfinal

/-- An `acquire` that waits for its partition has passed its check. -/
def AcquiresChecked (env : Env) (s : Sys) : Prop :=
  ∀ (i : Nat) (task : Task) scope key req index, s.tasks[i]? = some task →
    task.request = .call scope (.acquire key req) → task.pc = .waitPartition index →
    ∃ lock, (Call.acquire key req).check env .empty scope = .ok lock

theorem AcquiresChecked.step (hc : AcquiresChecked env s) (h : s.step env action = some s') :
    AcquiresChecked env s' := by
  -- a step that moves one task to somewhere else
  have hset : ∀ {i} {task task'}, s.tasks[i]? = some task →
      s'.tasks = s.tasks.set i task' → (∀ index, task'.pc ≠ .waitPartition index) →
      AcquiresChecked env s' := by
    intro i task task' hi htasks hpc j t scope key req index hj hrequest hwait
    rw [htasks, getElem?_set_of_some hi] at hj
    split at hj
    · cases hj
      exact absurd hwait (hpc index)
    · exact hc j t scope key req index hj hrequest hwait
  cases step_moves h with
  | spawn request =>
    intro j t scope key req index hj hrequest hwait
    rcases getElem?_append_singleton hj with hj | rfl
    · exact hc j t scope key req index hj hrequest hwait
    · cases hwait
  | quiet haction locks hi hrequest hpc hbefore hpartition hwaits =>
    intro j t scope key req index hj hreq hwait
    change (s.tasks.set _ _)[j]? = some t at hj
    rw [getElem?_set_of_some hi] at hj
    split at hj
    · cases hj
      simp only [Waits, hreq, hwait] at hwaits
      exact ⟨_, hwaits⟩
    · exact hc j t scope key req index hj hreq hwait
  | answer hi | append hi | saveState hi | list hi | remove hi =>
    exact hset hi rfl (fun _ h => by cases h)
  | persist hi hrequest hrequest' hpc => exact hset hi rfl (fun _ h => by cases hpc.symm.trans h)
  | persistRunless hi _ _ hpc | waitEffectRun _ hi _ _ hpc | persistEffect hi _ _ _ hpc =>
    exact hset hi rfl (fun _ h => by cases hpc.symm.trans h)
  | commit hi hpc =>
    rename_i i task draws kind response position
    obtain ⟨result, hresult⟩ := finish_commit s task kind response position
    exact hset hi (congrArg (s.tasks.set i) hresult) (fun _ h => by cases h)
  | saveManifest hi =>
    rename_i watermark _ _ _ _
    exact hset hi rfl (fun _ h => by cases watermark <;> cases h)
  | reopen ho =>
    intro j t scope key req index hj
    cases hj

theorem AcquiresChecked.of_reach {P : Sys → Action → Prop} (h : Reach (Sys.step env) P init s) :
    AcquiresChecked env s := by
  refine h.invariant ?_ fun _ _ _ hc _ hs => hc.step hs
  intro j t scope key req index hj
  simp [init] at hj

/-- An `acquire` on the key of a final effect is not about to store anything. -/
theorem PartitionLock.acquire_idle (hl : PartitionLock env s) {k : String}
    (hi : s.tasks[i]? = some task) (hrequest : task.request = .call scope (.acquire k req))
    (hof : s.ledger.indexes.effectOf (acquireKey scope k req) = some effect)
    (hfinal : effect.state.isRetentionTerminal = true) :
    task.pc.pending = none ∧ task.pc.carries = none ∧ ∀ lock, task.pc ≠ .waitRun lock := by
  have hcarries : task.pc.carries = none := by
    cases hc : task.pc.carries with
    | none => rfl
    | some p =>
      obtain ⟨scope', call, hrequest', -, hstores, -⟩ := hl.carrying i task hi p.1 p.2 hc
      cases hrequest.symm.trans hrequest'
      rw [hstores.acquire_key, hof] at hstores
      rw [hstores.not_final] at hfinal
      cases hfinal
  have hlocated := hl.located i task hi
  refine ⟨?_, hcarries, fun lock hpc => ?_⟩
  · cases hp : task.pc.pending with
    | none => rfl
    | some kind =>
      have hnone : kind.effect = none := by
        cases hpc : task.pc <;> rw [hpc] at hp hcarries <;> cases hp <;>
          exact Option.map_eq_none_iff.mp hcarries
      cases hlocated.record scope _ kind hrequest hp hnone
  · cases hlocated.run scope _ lock hrequest hpc

/-- **A step of an `acquire` on the key of a final effect** leaves the ledger alone, and if the
call returns with it, it returns `finalAnswer`. -/
theorem acquire_step_final (hl : PartitionLock env s) (hc : AcquiresChecked env s) {k : String}
    (h : s.step env action = some s') (haction : action.task = some i)
    (hi : s.tasks[i]? = some task) (hrequest : task.request = .call scope (.acquire k req))
    (hof : s.ledger.indexes.effectOf (acquireKey scope k req) = some effect)
    (hfinal : effect.state.isRetentionTerminal = true) :
    s'.ledger = s.ledger ∧ ∀ task' result persisted, s'.tasks[i]? = some task' →
      task'.pc = .done result persisted →
        result = finalAnswer env effect scope k req ∧ persisted = none := by
  obtain ⟨hpending, hcarries, hwaitRun⟩ := hl.acquire_idle hi hrequest hof hfinal
  -- a step that returns the answer, and one that goes on waiting
  have hreturn : ∀ result, result = finalAnswer env effect scope k req →
      s' = { s with tasks := s.tasks.set i (task.finish result none) } →
      s'.ledger = s.ledger ∧ ∀ task' result persisted, s'.tasks[i]? = some task' →
        task'.pc = .done result persisted →
          result = finalAnswer env effect scope k req ∧ persisted = none := by
    rintro result hresult rfl
    refine ⟨rfl, fun task' r p ht hpc => ?_⟩
    change (s.tasks.set i _)[i]? = some task' at ht
    rw [getElem?_set_of_some hi, if_pos rfl] at ht
    cases ht
    cases hpc
    exact ⟨hresult, rfl⟩
  cases action with
  | spawn request => cases haction
  | reopen keep => cases haction
  | walFail j error =>
    obtain rfl : j = i := Option.some.inj haction
    simp only [step, hi] at h
    split at h
    · next hpc =>
      rw [hpc] at hpending
      cases hpending
    · cases h
  | step j draws =>
    obtain rfl : j = i := Option.some.inj haction
    simp only [step, hi] at h
    obtain ⟨p, hp, rfl⟩ := Option.map_eq_some_iff.mp h
    unfold advance at hp
    rw [hrequest] at hp
    cases hpc : task.pc <;> rw [hpc] at hp <;> simp only [] at hp
    case start =>
      cases hcheck : (Call.acquire k req).check env s.ledger.indexes scope with
      | error error =>
        rw [hcheck] at hp
        cases hp
        refine hreturn (.error error) ?_ rfl
        rw [finalAnswer, check_acquire .empty s.ledger.indexes, hcheck]
      | ok lock =>
        obtain ⟨index, rfl⟩ := check_partitioned rfl hcheck
        rw [hcheck] at hp
        cases hp
        refine ⟨rfl, fun task' r p ht hdone => ?_⟩
        change (s.tasks.set j _)[j]? = some task' at ht
        rw [getElem?_set_of_some hi, if_pos rfl] at ht
        cases ht
        cases hdone
    case waitPartition index =>
      split at hp
      · cases hp
        obtain ⟨lock, hcheck⟩ := hc j task scope k req index hi hrequest hpc
        have hdecide : ∀ t, s.decide env t scope (.acquire k req) draws
            = (s, t.finish (finalAnswer env effect scope k req) none) := by
          intro t
          unfold decide
          rw [underLock_final (check_acquire .empty _ ▸ hcheck) hof hfinal]
          cases finalAnswer env effect scope k req <;> rfl
        refine hreturn _ rfl ?_
        simp only [hdecide, Task.finish, hrequest]
      · cases hp
    case waitRun lock => exact absurd hpc (hwaitRun lock)
    case waitEffectRun lock change now response =>
      rw [hpc] at hcarries
      cases hcarries
    case waitCommit kind response =>
      rw [hpc] at hpending
      cases hpending
    case appended kind response position =>
      rw [hpc] at hpending
      cases hpending
    all_goals cases hp

end Sys

/--
**Final outcomes stay, and are replayed.** From any state that calls, snapshots, crashes and
restarts reach without retention, with an effect that is `committed`, `failed_terminal`,
`reconciled_committed` or `reconciled_failed`, and through any later run of overlapping calls and
snapshots without retention:

* the stored effect stays as it is, in every field;
* an `acquire` on its key, made alone, leaves the ledger alone and returns `finalAnswer`;
* so does one that other calls overlap: none of its steps touches the ledger, and when it returns
  it returns `finalAnswer` and has persisted nothing.
-/
theorem final_outcomes_stay (env : Env) {s s' : Sys}
    (h : Reach (Sys.step env) (fun s a => s.retentionFree a = true) Sys.init s)
    (hlater : Reach (Sys.step env) (fun s a => (s.retentionFree a && !a.isReopen) = true) s s')
    {id : Uuid} {effect : EffectRecord} (he : s.ledger.indexes.effectsById[id]? = some effect)
    (hfinal : effect.state.isRetentionTerminal = true) :
    s'.ledger.indexes.effectsById[id]? = some effect ∧
      ∀ scope key req, acquireKey scope key req = effectKeyOf effect →
        (∀ draws fault, s'.ledger.call env scope draws fault (.acquire key req)
          = (s'.ledger, finalAnswer env effect scope key req)) ∧
        ∀ action s'' i task, s'.step env action = some s'' → action.task = some i →
          s'.tasks[i]? = some task → task.request = .call scope (.acquire key req) →
          s''.ledger = s'.ledger ∧ ∀ task' result persisted, s''.tasks[i]? = some task' →
            task'.pc = .done result persisted →
              result = finalAnswer env effect scope key req ∧ persisted = none := by
  have hfree : ∀ {t}, Reach (Sys.step env)
      (fun s a => (s.retentionFree a && !a.isReopen) = true) s t →
      Reach (Sys.step env) (fun s a => s.retentionFree a = true) Sys.init t := fun ht =>
    h.trans (ht.mono fun _ _ hc => (Bool.and_eq_true_iff.mp hc).1)
  have hof := (Sys.lasting_of_reach h).1.bound.effectOf_eq_some.mpr ⟨id, he, rfl⟩
  have hreach := hfree hlater
  have hl := (Sys.lasting_of_reach hreach).1
  have hof' : s'.ledger.indexes.effectOf (effectKeyOf effect) = some effect := by
    refine hlater.invariant_of_reach
      (I := fun t => t.ledger.indexes.effectOf (effectKeyOf effect) = some effect) hof ?_
    intro t action t' ht hof hcond hstep
    obtain ⟨hretention, hopen⟩ := Bool.and_eq_true_iff.mp hcond
    obtain ⟨hl, hd⟩ := Sys.lasting_of_reach (hfree ht)
    exact Sys.effectOf_final_step hl (Sys.Sound.of_reach (hfree ht)).keyed
      (hd.keepsEffects hretention (by simpa using hopen)) hstep hof hfinal
  refine ⟨?_, fun scope key req hkey => ?_⟩
  · obtain ⟨id', he', -⟩ := hl.bound.effectOf_eq_some.mp hof'
    have hid : effect.id = id := (Sys.Sound.of_reach h).keyed.effects id effect he
    have hid' : effect.id = id' := (Sys.Sound.of_reach hreach).keyed.effects id' effect he'
    rw [← hid, hid']
    exact he'
  · rw [← hkey] at hof'
    refine ⟨fun draws fault => call_final fault hof' hfinal, ?_⟩
    intro action s'' i task hstep haction hi hrequest
    exact Sys.acquire_step_final hl (.of_reach hreach) hstep haction hi hrequest hof' hfinal

namespace Sample

/-- `acquire` of the sample key, with a lease and a tool of the caller's choice. -/
def acquireAgain (toolName : String) (leaseDurationSeconds : Option Nat) : AcquireEffectRequest :=
  { runId := none, scope := "payments", toolName, input := .json [("amount", .ofInt 5)]
    leaseDurationSeconds, downstreamIdempotencySupported := false }

/-- An effect is acquired and committed; the next call is another `acquire`. -/
def committed : List Sys.Action :=
  spawn (acquire "order-0001" none) :: steps 0 1 4
    ++ spawn (transition 1 .commit 1 1) :: steps 1 2 4

/-- Then a snapshot is taken, the ledger crashes and is opened again. -/
def committedAndReopened : List Sys.Action :=
  committed ++ .spawn .snapshot :: steps 2 3 5 ++ [.reopen true]

end Sample

/-- What the stored effect says about an `acquire` of its key. -/
def Sys.stands (s : Sys) (id : Uuid) (req : AcquireEffectRequest) :
    Option (EffectStatus × EffectKey × Bool) :=
  s.ledger.indexes.effectsById[id]?.map fun effect => (effect.state, effectKeyOf effect,
    effect.inputDigest = inputDigest Sample.crates req.input ∧ effect.toolName = req.toolName)

/-- A committed effect, after a restart: the same request is replayed, another tool is a
conflict. -/
theorem final_outcomes_stay_committed :
    ∃ s effect, Reach (Sys.step Sample.env) (fun s a => s.retentionFree a = true) Sys.init s ∧
      s.ledger.indexes.effectsById[(1 : Uuid)]? = some effect ∧ effect.state = .committed ∧
      s.ledger.call Sample.env Sample.scope (Sample.draws 9) none
          (.acquire "order-0001" (acquireAgain "charge" none))
        = (s.ledger, .ok (.decision (replayOf effect))) ∧
      s.ledger.call Sample.env Sample.scope (Sample.draws 9) none
          (.acquire "order-0001" (acquireAgain "refund" none))
        = (s.ledger, .error (.idempotencyConflict "payments" "order-0001" effect.inputDigest
            effect.inputDigest)) := by
  have hrun : ((Lib.run (Sys.step Sample.env) (fun s a => s.retentionFree a) Sys.init
      committedAndReopened).map fun s => s.stands 1 (acquireAgain "charge" none))
      = some (some (.committed, orderKey, true)) := by
    decide +kernel
  obtain ⟨s, hreach, hstands⟩ := exists_reach_of_run hrun
  obtain ⟨effect, hget, he⟩ := Option.map_eq_some_iff.mp hstands
  obtain ⟨hstate, he⟩ := Prod.mk.inj he
  obtain ⟨hkey, hsame⟩ := Prod.mk.inj he
  obtain ⟨hdigest, htool⟩ := of_decide_eq_true hsame
  have hstay := (final_outcomes_stay Sample.env hreach .init hget (by rw [hstate]; rfl)).2
  refine ⟨s, effect, hreach, hget, hstate, ?_, ?_⟩
  · rw [(hstay Sample.scope "order-0001" (acquireAgain "charge" none) hkey.symm).1,
      finalAnswer_of_check (by decide +kernel), if_pos ⟨hdigest, htool⟩]
  · rw [(hstay Sample.scope "order-0001" (acquireAgain "refund" none) hkey.symm).1,
      finalAnswer_of_check (by decide +kernel), if_neg]
    · exact congrArg (fun d => (s.ledger, Except.error
        (LedgerError.idempotencyConflict "payments" "order-0001" effect.inputDigest d)))
        hdigest.symm
    · rintro ⟨-, hrefund⟩
      rw [htool] at hrefund
      exact absurd hrefund (by decide)

/-- The same request with a lease of zero seconds is refused: it is not replayed. -/
theorem malformed_acquire_not_replayed :
    ∃ s effect, Reach (Sys.step Sample.env) (fun s a => s.retentionFree a = true) Sys.init s ∧
      s.ledger.indexes.effectsById[(1 : Uuid)]? = some effect ∧ effect.state = .committed ∧
      acquireKey Sample.scope "order-0001" (acquireAgain "charge" (some 0))
        = effectKeyOf effect ∧
      inputDigest Sample.env.crates (acquireAgain "charge" (some 0)).input
        = effect.inputDigest ∧
      (acquireAgain "charge" (some 0)).toolName = effect.toolName ∧
      (s.ledger.call Sample.env Sample.scope (Sample.draws 9) none
          (.acquire "order-0001" (acquireAgain "charge" (some 0)))).2
        = .error (.validation "lease_duration_seconds" "must be between 5 and 3600 seconds") := by
  have hrun : ((Lib.run (Sys.step Sample.env) (fun s a => s.retentionFree a) Sys.init
      committed).map fun s => s.stands 1 (acquireAgain "charge" none))
      = some (some (.committed, orderKey, true)) := by
    decide +kernel
  obtain ⟨s, hreach, hstands⟩ := exists_reach_of_run hrun
  obtain ⟨effect, hget, he⟩ := Option.map_eq_some_iff.mp hstands
  obtain ⟨hstate, he⟩ := Prod.mk.inj he
  obtain ⟨hkey, hsame⟩ := Prod.mk.inj he
  obtain ⟨hdigest, htool⟩ := of_decide_eq_true hsame
  have hcheck : (Call.acquire "order-0001" (acquireAgain "charge" (some 0))).check
      Sample.env s.ledger.indexes Sample.scope
        = .error (.validation "lease_duration_seconds" "must be between 5 and 3600 seconds") := by
    rw [check_acquire _ .empty]
    decide +kernel
  refine ⟨s, effect, hreach, hget, hstate, hkey.symm, hdigest.symm, htool.symm, ?_⟩
  unfold Ledger.call Call.decide
  rw [hcheck]
  rfl

end Calod.Ledger
