import Calod.Ledger.Finality

/-!
# Failure payloads

An effect keeps a failure payload. `fail_retryable`, `fail_terminal`, `mark_outcome_unknown` and
`reconcile_failed` write it, `commit` clears it, and an `acquire` that finds an expired effect in
progress makes one up if there is none. `acquire` on a retryable failure, `start`, `renew` and
`reconcile_committed` leave it as it is.

`Audit` runs the ledger with a history: which payload was last written for each effect and under
which fencing token, and whether a payload was ever left standing where an attempt or a commit
begins.

* `Stores.payload` — what a stored next state does to the payload
* `failed_payload_current` — the stored payload is the one last written, and that of a failed
  effect is always from its current grant
* `failure_of_current_attempt` — so is every payload, and none stands where none should, as long
  as nothing was left standing
* `failure_left_over` — a retry keeps the failure of the attempt before it
-/

namespace Calod.Ledger

open Calod.Core Lib Ledger.Sample

/-! ## What a call does to the payload -/

namespace Call

/-- The payload last written, with the fencing token under which it was. -/
def payload (old : Option EffectRecord) (next : EffectRecord)
    (written : Option (EffectFailure × Int)) : Call → Option (EffectFailure × Int)
  | .acquire _ _ =>
    match old with
    | none => none
    | some effect =>
      -- only an effect that expires in progress gets a payload here, and only if it has none
      if next.state = .outcomeUnknown ∧ effect.failure = none then
        some ({ kind := "lease_expired_in_progress"
                message := "Lease expired while in progress; outcome cannot be proven"
                retryable := false }, next.fencingToken)
      else written
  | .transition _ req _ =>
    match req.transition with
    | .start | .renew | .reconcileCommitted => written
    | .commit => none
    | .markOutcomeUnknown => req.failure.map fun failure => (failure, next.fencingToken)
    | .failRetryable | .failTerminal => some (workerFailure req, next.fencingToken)
    | .reconcileFailed =>
      some (req.failure.getD
        { kind := "reconciled_failed"
          message := "reconciliation proved the tool did not fire", retryable := false },
        next.fencingToken)
  | _ => written

/-- The call does not grant an effect again after a retryable failure, and does not reconcile an
effect with a payload as committed. -/
def leavesNone (old : Option EffectRecord) : Call → Bool
  | .acquire _ _ => old.all fun effect => effect.state != .failedRetryable
  | .transition _ req _ =>
    req.transition != .reconcileCommitted || (old.bind EffectRecord.failure).isNone
  | _ => true

end Call

/-- When the payload of an effect was written, as far as it is known. -/
def Current (effect : EffectRecord) (epoch : Option Int) (clean : Bool) : Prop :=
  match effect.state with
  | .claimed | .inProgress | .reconciledCommitted => clean = true → effect.failure = none
  | .committed => effect.failure = none
  | .outcomeUnknown =>
    clean = true → effect.failure = none ∨ epoch = some effect.fencingToken
  | .failedRetryable | .failedTerminal | .reconciledFailed => epoch = some effect.fencingToken

/-- What is known of the payload of an effect. -/
structure Payload (effect : EffectRecord) (written : Option (EffectFailure × Int)) (clean : Bool) :
    Prop where
  stored : effect.failure = written.map Prod.fst
  current : Current effect (written.map Prod.snd) clean

section

variable {env : Env} {effect next : EffectRecord} {written : Option (EffectFailure × Int)}
  {clean : Bool}

theorem Payload.nextEffect {id : Uuid} {req : UpdateEffectRequest} {caps : CallerCapabilities}
    {now : Int} {eventType : String} (h : Payload effect written clean)
    (hlegal : legalTransition req.transition effect.state = true)
    (hnext : nextEffect env effect req now = .ok (next, eventType)) :
    Payload next ((Call.transition id req caps).payload (some effect) next written)
      (clean && (Call.transition id req caps).leavesNone (some effect)) := by
  obtain ⟨hstored, hcurrent⟩ := h
  rw [Current] at hcurrent
  unfold Ledger.nextEffect at hnext
  simp only [Call.payload, Call.leavesNone]
  cases ht : req.transition <;> rw [ht] at hnext hlegal
  case start =>
    cases hnext
    have hstate : effect.state = .claimed := by
      cases hs : effect.state <;> rw [hs] at hlegal <;> first | rfl | cases hlegal
    rw [hstate] at hcurrent
    exact ⟨hstored, fun hc => hcurrent (Bool.and_eq_true_iff.mp hc).1⟩
  case renew =>
    obtain ⟨leaseMs, -, hnext⟩ := bind_eq_ok.mp hnext
    cases pure_eq_ok.mp hnext
    refine ⟨hstored, ?_⟩
    rw [Current]
    cases hs : effect.state <;> rw [hs] at hlegal hcurrent <;> cases hlegal
    all_goals exact fun hc => hcurrent (Bool.and_eq_true_iff.mp hc).1
  case markOutcomeUnknown =>
    cases hnext
    cases hf : req.failure with
    | none => exact ⟨rfl, fun _ => Or.inl rfl⟩
    | some failure => exact ⟨rfl, fun _ => Or.inr rfl⟩
  case reconcileCommitted =>
    cases hnext
    refine ⟨hstored, fun hc => ?_⟩
    simpa using (Bool.and_eq_true_iff.mp hc).2
  all_goals
    cases hnext
    exact ⟨rfl, rfl⟩

/-- **What a stored next state does to the payload.** -/
theorem Stores.payload {scope : Scope} {call : Call} {old : Option EffectRecord}
    {response : Response} (h : Stores env scope call old next response)
    (hold : ∀ effect, old = some effect → Payload effect written clean) :
    Payload next (call.payload old next written) (clean && call.leavesNone old) := by
  cases h with
  | acquired hnext =>
    subst hnext
    exact ⟨rfl, fun _ => rfl⟩
  | @reacquired key req leaseMs draws effect _ hkey hphase hnext =>
    subst hnext
    obtain ⟨hstored, hcurrent⟩ := hold effect rfl
    have hkept : (Call.acquire key req).payload (some effect)
        (reacquire env.crates effect req leaseMs draws.now (generateLeaseToken draws.token)) written
          = written := by
      simp only [Call.payload]
      exact if_neg fun h => nomatch h.1
    rw [hkept]
    refine ⟨hstored, fun hc => ?_⟩
    obtain ⟨hclean, hleaves⟩ := Bool.and_eq_true_iff.mp hc
    -- a grant after a retryable failure is not clean, so an expired claim was granted again
    have hstate : effect.state = .claimed := by
      cases hs : effect.state <;> simp_all [phaseOf, Call.leavesNone]
    rw [Current, hstate] at hcurrent
    exact hcurrent hclean
  | @expired key req now token effect _ hkey hphase hnext =>
    subst hnext
    obtain ⟨hstored, hcurrent⟩ := hold effect rfl
    cases hf : effect.failure with
    | none =>
      have hnew : (Call.acquire key req).payload (some effect) (expireInProgress effect now) written
          = some _ := if_pos ⟨rfl, hf⟩
      rw [hnew]
      exact ⟨by rw [expireInProgress, hf]; rfl, fun _ => Or.inr rfl⟩
    | some failure =>
      have hkept : (Call.acquire key req).payload (some effect)
          (expireInProgress effect now) written = written :=
        if_neg fun h => by rw [hf] at h; cases h.2
      rw [hkept]
      refine ⟨by rw [← hstored, expireInProgress, hf]; rfl, fun hc => ?_⟩
      have hstate : effect.state = .inProgress := by
        cases hs : effect.state <;> simp_all [phaseOf]
      rw [Current, hstate] at hcurrent
      cases hf.symm.trans (hcurrent (Bool.and_eq_true_iff.mp hc).1)
  | @transition id req caps now effect _ change hscope hplan hnext =>
    subst hnext
    obtain ⟨-, hlegal, -, eventType, h⟩ := transitionPlan_ok hplan
    exact (hold effect rfl).nextEffect hlegal h

end

/-! ## The ledger with the history of its payloads -/

structure Audit where
  sys : Sys
  /-- The payload last written for a key's effect, with the fencing token under which it was. -/
  written : EffectKey → Option (EffectFailure × Int)
  /-- No call has left a payload standing where an attempt or a commit begins. -/
  clean : EffectKey → Bool

namespace Audit

def init : Audit where
  sys := .init
  written _ := none
  clean _ := true

/-- The fencing token under which the payload of a key's effect was written. -/
def epoch (a : Audit) (key : EffectKey) : Option Int := (a.written key).map Prod.snd

/-- The history after an action. -/
def observe (a : Audit) (action : Sys.Action) (sys : Sys) : Audit :=
  match a.sys.stored action with
  | none => { a with sys }
  | some (call, next) =>
    let key := effectKeyOf next
    let old := a.sys.ledger.indexes.effectOf key
    { sys
      written := Function.update a.written key (call.payload old next (a.written key))
      clean := Function.update a.clean key (a.clean key && call.leavesNone old) }

def step (env : Env) (a : Audit) (action : Sys.Action) : Option Audit :=
  (a.sys.step env action).map (a.observe action)

variable {env : Env} {a a' : Audit} {action : Sys.Action}

theorem step_sys (h : a.step env action = some a') :
    ∃ sys, a.sys.step env action = some sys ∧ a' = a.observe action sys := by
  obtain ⟨sys, hsys, rfl⟩ := Option.map_eq_some_iff.mp h
  exact ⟨sys, hsys, rfl⟩

@[simp]
theorem observe_sys (a : Audit) (action : Sys.Action) (sys : Sys) :
    (a.observe action sys).sys = sys := by
  unfold observe
  split <;> rfl

/-- The history is only kept beside the system. -/
theorem reach_sys {P : Sys → Sys.Action → Prop}
    (h : Reach (step env) (fun a action => P a.sys action) init a) :
    Reach (Sys.step env) P .init a.sys := by
  induction h with
  | init => exact .init
  | step _ hp hstep ih =>
    obtain ⟨sys, hsys, rfl⟩ := step_sys hstep
    rw [observe_sys]
    exact .step ih hp hsys

/-- Every stored effect fits its history. -/
def Fits (a : Audit) : Prop :=
  ∀ key effect, a.sys.ledger.indexes.effectOf key = some effect →
    Payload effect (a.written key) (a.clean key)

theorem Fits.step (hf : a.Fits) (hl : Sys.PartitionLock env a.sys)
    (hk : a.sys.ledger.indexes.Keyed) (hcond : a.sys.keepsEffects action = true)
    (h : a.step env action = some a') : a'.Fits := by
  obtain ⟨sys, hsys, rfl⟩ := step_sys h
  intro key effect he
  rw [observe_sys] at he
  rcases Sys.stored_step hl hk hcond hsys key with
    ⟨hsame, hother⟩ | ⟨scope, call, next, response, hstored, rfl, hstores, hof⟩
  · -- the history of the key is as it was
    have hkept : (a.observe action sys).written key = a.written key ∧
        (a.observe action sys).clean key = a.clean key := by
      unfold observe
      split
      · exact ⟨rfl, rfl⟩
      · next call next hstored =>
        have hne := (hother call next hstored).symm
        exact ⟨Function.update_of_ne hne _ _, Function.update_of_ne hne _ _⟩
    rw [hsame] at he
    rw [hkept.1, hkept.2]
    exact hf key effect he
  · obtain rfl : next = effect := Option.some.inj (hof.symm.trans he)
    simp only [observe, hstored, Function.update_self]
    exact hstores.payload fun old hold => hf _ old hold

/-- Runs of overlapping calls and snapshots without retention. -/
def calls (a : Audit) (action : Sys.Action) : Bool :=
  a.sys.retentionFree action && !action.isReopen

theorem fits_of_reach (h : Reach (step env) (fun a action => a.calls action = true) init a) :
    a.Fits := by
  refine h.invariant_of_reach (I := Fits) ?_ fun a action a' hreach hf hcond hstep => ?_
  · intro key effect he
    cases he
  · obtain ⟨hfree, hopen⟩ := Bool.and_eq_true_iff.mp hcond
    have hsys := (reach_sys (P := fun s a => (s.retentionFree a && !a.isReopen) = true) hreach).mono
      fun _ _ hc => (Bool.and_eq_true_iff.mp hc).1
    obtain ⟨hl, hd⟩ := Sys.lasting_of_reach hsys
    exact hf.step hl (Sys.Sound.of_reach hsys).keyed
      (hd.keepsEffects hfree (by simpa using hopen)) hstep

end Audit

/-- **The payload of a failed effect is from its current grant**, and a committed effect has none,
in every state that overlapping calls and snapshots reach; and what is stored is always what was
last written. -/
theorem failed_payload_current (env : Env) {a : Audit}
    (h : Reach (Audit.step env) (fun a action => a.calls action = true) .init a)
    {key : EffectKey} {effect : EffectRecord}
    (he : a.sys.ledger.indexes.effectOf key = some effect) :
    effect.failure = (a.written key).map Prod.fst ∧
    (effect.state = .committed → effect.failure = none) ∧
    (effect.state = .failedRetryable ∨ effect.state = .failedTerminal ∨
      effect.state = .reconciledFailed →
        ∃ failure, effect.failure = some failure ∧
          a.written key = some (failure, effect.fencingToken)) := by
  obtain ⟨hstored, hcurrent⟩ := Audit.fits_of_reach h key effect he
  rw [Current] at hcurrent
  refine ⟨hstored, fun hs => ?_, fun hs => ?_⟩
  · rw [hs] at hcurrent
    exact hcurrent
  · have hepoch : (a.written key).map Prod.snd = some effect.fencingToken := by
      rcases hs with hs | hs | hs <;> rw [hs] at hcurrent <;> exact hcurrent
    obtain ⟨⟨failure, fence⟩, hw, rfl⟩ := Option.map_eq_some_iff.mp hepoch
    exact ⟨failure, by rw [hstored, hw]; rfl, hw⟩

/--
**Failure payloads belong to the current attempt, as long as none was left standing.** In every
state that overlapping calls and snapshots reach, for an effect that was never granted again after
a retryable failure, nor reconciled as committed while it had a payload: while it is `claimed`,
`in_progress`, `committed` or `reconciled_committed` it has no failure, and otherwise it has none
or one that was written under its current fencing token.
-/
theorem failure_of_current_attempt (env : Env) {a : Audit}
    (h : Reach (Audit.step env) (fun a action => a.calls action = true) .init a)
    {key : EffectKey} {effect : EffectRecord}
    (he : a.sys.ledger.indexes.effectOf key = some effect) (hclean : a.clean key = true) :
    (effect.state = .claimed ∨ effect.state = .inProgress ∨ effect.state = .committed ∨
      effect.state = .reconciledCommitted → effect.failure = none) ∧
    (effect.state = .outcomeUnknown ∨ effect.state = .failedRetryable ∨
      effect.state = .failedTerminal ∨ effect.state = .reconciledFailed →
        effect.failure = none ∨ a.epoch key = some effect.fencingToken) := by
  have hp := (Audit.fits_of_reach h key effect he).current
  rw [Current] at hp
  constructor
  · rintro (hs | hs | hs | hs) <;> rw [hs] at hp
    · exact hp hclean
    · exact hp hclean
    · exact hp
    · exact hp hclean
  · rintro (hs | hs | hs | hs) <;> rw [hs] at hp
    · exact hp hclean
    · exact Or.inr hp
    · exact Or.inr hp
    · exact Or.inr hp

/-- The payload of an effect with its history. -/
structure Standing where
  state : EffectStatus
  kind : Option String
  fence : Int
  epoch : Option Int
  clean : Bool
  deriving DecidableEq

/-- What the history says of the effect of a key. -/
def Audit.stands (a : Audit) (key : EffectKey) : Option Standing :=
  (a.sys.ledger.indexes.effectOf key).map fun effect =>
    { state := effect.state, kind := effect.failure.map EffectFailure.kind
      fence := effect.fencingToken, epoch := a.epoch key, clean := a.clean key }

namespace Sample

/-- The second attempt is started and expires. -/
def retriedAndExpired : List Sys.Action :=
  retried ++ spawn (transition 1 .start 3 2) :: steps 3 4 4
    ++ spawn (acquire "order-0001" none) :: steps 4 9000 4

/-- The only attempt is started and expires. -/
def expired : List Sys.Action :=
  spawn (acquire "order-0001" none) :: steps 0 1 4
    ++ spawn (transition 1 .start 1 1) :: steps 1 2 4
    ++ spawn (acquire "order-0001" none) :: steps 2 9000 4

end Sample

/-- A failure under the first grant, and one under the second that replaces it. -/
theorem failed_payload_current_twice :
    ∃ a effect, Reach (Audit.step Sample.env) (fun a action => a.calls action = true) .init a ∧
      a.sys.ledger.indexes.effectOf orderKey = some effect ∧ effect.state = .failedTerminal ∧
      effect.fencingToken = 2 ∧
      ∃ failure, effect.failure = some failure ∧ a.written orderKey = some (failure, 2) := by
  have hrun : ((Lib.run (Audit.step Sample.env) (fun a action => a.calls action) .init
      (retried ++ Sample.spawn (transition 1 .failTerminal 3 2) :: steps 3 4 4)).map
        fun a => (a.sys.ledger.indexes.effectOf orderKey).map fun effect =>
          (effect.state, effect.fencingToken)) = some (some (.failedTerminal, 2)) := by
    decide +kernel
  obtain ⟨a, hreach, hstands⟩ := exists_reach_of_run hrun
  obtain ⟨effect, hget, he⟩ := Option.map_eq_some_iff.mp hstands
  obtain ⟨hstate, hfence⟩ := Prod.mk.inj he
  have hcurrent := (failed_payload_current Sample.env hreach hget).2.2 (.inr (.inl hstate))
  rw [hfence] at hcurrent
  exact ⟨a, effect, hreach, hget, hstate, hfence, hcurrent⟩

/-- An effect that expired during its first attempt: the failure is of that attempt. -/
theorem failure_of_current_attempt_expired :
    ∃ a effect, Reach (Audit.step Sample.env) (fun a action => a.calls action = true) .init a ∧
      a.sys.ledger.indexes.effectOf orderKey = some effect ∧
      effect.state = .outcomeUnknown ∧
      effect.failure.map EffectFailure.kind = some "lease_expired_in_progress" ∧
      (effect.failure = none ∨ a.epoch orderKey = some effect.fencingToken) := by
  have hrun : ((Lib.run (Audit.step Sample.env) (fun a action => a.calls action) .init
      Sample.expired).map fun a => a.stands orderKey)
      = some (some ⟨.outcomeUnknown, some "lease_expired_in_progress", 1, some 1, true⟩) := by
    decide +kernel
  obtain ⟨a, hreach, hstands⟩ := exists_reach_of_run hrun
  obtain ⟨effect, hget, he⟩ := Option.map_eq_some_iff.mp hstands
  simp only [Standing.mk.injEq] at he
  obtain ⟨hstate, hkind, -, -, hclean⟩ := he
  exact ⟨a, effect, hreach, hget, hstate, hkind,
    (failure_of_current_attempt Sample.env hreach hget hclean).2 (Or.inl hstate)⟩

/-- A retry keeps the failure of the attempt before it: the effect is claimed again and still
carries it, and when the second attempt expires it is not replaced. -/
theorem failure_left_over :
    (∃ a effect, Reach (Audit.step Sample.env) (fun a action => a.calls action = true) .init a ∧
      a.sys.ledger.indexes.effectOf orderKey = some effect ∧ effect.state = .claimed ∧
      effect.failure.map EffectFailure.kind = some "failed") ∧
    ∃ a effect, Reach (Audit.step Sample.env) (fun a action => a.calls action = true) .init a ∧
      a.sys.ledger.indexes.effectOf orderKey = some effect ∧
      effect.state = .outcomeUnknown ∧ effect.failure.map EffectFailure.kind = some "failed" ∧
      effect.fencingToken = 2 ∧ a.epoch orderKey = some 1 := by
  constructor
  · have hrun : ((Lib.run (Audit.step Sample.env) (fun a action => a.calls action) .init
        retried).map fun a => a.stands orderKey)
        = some (some ⟨.claimed, some "failed", 2, some 1, false⟩) := by
      decide +kernel
    obtain ⟨a, hreach, hstands⟩ := exists_reach_of_run hrun
    obtain ⟨effect, hget, he⟩ := Option.map_eq_some_iff.mp hstands
    simp only [Standing.mk.injEq] at he
    exact ⟨a, effect, hreach, hget, he.1, he.2.1⟩
  · have hrun : ((Lib.run (Audit.step Sample.env) (fun a action => a.calls action) .init
        retriedAndExpired).map fun a => a.stands orderKey)
        = some (some ⟨.outcomeUnknown, some "failed", 2, some 1, false⟩) := by
      decide +kernel
    obtain ⟨a, hreach, hstands⟩ := exists_reach_of_run hrun
    obtain ⟨effect, hget, he⟩ := Option.map_eq_some_iff.mp hstands
    simp only [Standing.mk.injEq] at he
    obtain ⟨hstate, hkind, hfence, hepoch, -⟩ := he
    exact ⟨a, effect, hreach, hget, hstate, hkind, hfence, hepoch⟩

end Calod.Ledger
