import Calod.Ledger.Invariants
import Calod.Ledger.LeaseProtocol

/-!
# Effects follow the lease protocol

The stored effect of a key represents a custody (`Represents`), and whatever `acquire` or
`transition` stores next is an event that this custody allows.

* `observe` — what a call and its answer show of the leases
* `Stores` — a new state of an effect, and how it comes from the one before
* `Stores.step` — it is shown as an allowed event, and represents the custody after it

`Calod/Ledger/Fencing.lean` follows this through overlapping calls.
-/

namespace Calod.Ledger

open Calod.Core Calod.Serde Lib

variable {crates : Crates} {req : UpdateEffectRequest} {caps : CallerCapabilities} {now : Int}
  {change : EffectChange} {next : EffectRecord} {eventType key : String}
  {decision : EffectDecisionType}

/-! ## What the callers see -/

/-- The digest by which lease tokens are stored and compared. -/
def tokenDigest (crates : Crates) (token : String) : String := sha256Digest crates (utf8 token)

/-- The key of an effect that was shown to a caller of `scope`. -/
def viewKey (scope : Scope) (effect : Effect) : EffectKey where
  tenantId := scope.tenantId
  projectId := scope.projectId
  scope := effect.scope
  idempotencyKey := effect.idempotencyKey

/--
The grant in an `execute` decision. Its expiry is in the effect that the call stored: the
answer has it as a formatted time only.
-/
def grantOf (decision : EffectDecision) (stored : Option EffectRecord) : Lease where
  effectId := decision.effect.id
  token := decision.leaseToken.getD ""
  fence := decision.effect.fencingToken
  expiresAtMs := (stored.bind EffectRecord.leaseExpiresAtMs).getD 0

/-- The clock reading of a call that stored an effect. -/
def clockOf (stored : Option EffectRecord) : Int := (stored.map EffectRecord.updatedAtMs).getD 0

/-- What a call shows of the leases, with the key it is about: by its answer, and what it stored. -/
def observe (scope : Scope) (call : Call) (response : Response) (stored : Option EffectRecord) :
    Option (EffectKey × LeaseEvent) :=
  match call, response with
  | .acquire key req, .decision decision =>
    match decision.decision with
    | .execute =>
      some (acquireKey scope key req, .execute (grantOf decision stored) (clockOf stored))
    | .reconcile => some (acquireKey scope key req, .reconcile)
    | .replay | .wait => none
  | .transition _ req _, .effect effect =>
    some (viewKey scope effect, .transition req (stored.bind EffectRecord.leaseExpiresAtMs))
  | _, _ => none

/-! ## Effects and their keys -/

/-- Keys and effects are bound to each other, one to one. -/
structure Indexes.Bound (idx : Indexes) : Prop where
  lookup : ∀ key id, idx.effectIds key = some id →
    ∃ effect, idx.effectsById[id]? = some effect ∧ effectKeyOf effect = key
  stored : ∀ (id : Uuid) (effect : EffectRecord), idx.effectsById[id]? = some effect →
    idx.effectIds (effectKeyOf effect) = some id

namespace Indexes

variable {idx idx' : Indexes} {effect : EffectRecord} {key : EffectKey}

theorem bound_empty : Bound empty where
  lookup key id h := by cases h
  stored id effect h := by simp [empty] at h

/-- The effect of a key is the stored effect with that key. -/
theorem Bound.effectOf_eq_some (hb : Bound idx) :
    idx.effectOf key = some effect ↔
      ∃ id : Uuid, idx.effectsById[id]? = some effect ∧ effectKeyOf effect = key := by
  unfold effectOf
  constructor
  · intro h
    obtain ⟨id, hid, he⟩ := Option.bind_eq_some_iff.mp h
    obtain ⟨e, he', hkey⟩ := hb.lookup key id hid
    rw [he] at he'
    cases he'
    exact ⟨id, he, hkey⟩
  · rintro ⟨id, he, rfl⟩
    rw [hb.stored id effect he, Option.bind_some, he]

/-- A record stores a new effect under an unused id, or the next state of a stored one. -/
def Puts (idx : Indexes) (effect : EffectRecord) : Prop :=
  (idx.effectsById[effect.id]? = none ∧ idx.effectIds (effectKeyOf effect) = none) ∨
    ∃ old, idx.effectsById[effect.id]? = some old ∧ effectKeyOf old = effectKeyOf effect

section

variable (hb : Bound idx) (hput : Puts idx effect)
  (hbyId : idx'.effectsById = idx.effectsById.insert effect.id effect)
  (hids : idx'.effectIds = Function.update idx.effectIds (effectKeyOf effect) (some effect.id))

include hb hput

/-- No other key leads to the id that is stored under. -/
theorem Bound.id_ne {id : Uuid} (hne : effectKeyOf effect ≠ key)
    (h : idx.effectIds key = some id) : effect.id ≠ id := by
  rintro rfl
  obtain ⟨e, he, hkey⟩ := hb.lookup key _ h
  rcases hput with ⟨hnone, -⟩ | ⟨old, hold, hsame⟩
  · rw [hnone] at he
    cases he
  · rw [hold] at he
    cases he
    exact hne (hsame.symm.trans hkey)

include hbyId hids

theorem Bound.effectOf_put (key : EffectKey) :
    idx'.effectOf key = if effectKeyOf effect = key then some effect else idx.effectOf key := by
  unfold effectOf
  rw [hids, hbyId]
  split
  · next h =>
    subst h
    rw [Function.update_self, Option.bind_some, Map.get_insert, if_pos rfl]
  · next h =>
    rw [Function.update_of_ne (Ne.symm h)]
    cases hid : idx.effectIds key with
    | none => rfl
    | some id =>
      rw [Option.bind_some, Option.bind_some, Map.get_insert, if_neg (hb.id_ne hput h hid)]

theorem Bound.put : Bound idx' where
  lookup key id h := by
    rw [hids] at h
    rw [hbyId]
    by_cases hk : key = effectKeyOf effect
    · subst hk
      rw [Function.update_self] at h
      cases h
      exact ⟨effect, by rw [Map.get_insert, if_pos rfl], rfl⟩
    · rw [Function.update_of_ne hk] at h
      rw [Map.get_insert, if_neg (hb.id_ne hput (Ne.symm hk) h)]
      exact hb.lookup key id h
  stored id e h := by
    rw [hbyId, Map.get_insert] at h
    rw [hids]
    split at h
    · next hid =>
      cases h
      rw [Function.update_self, hid]
    · next hid =>
      by_cases hk : effectKeyOf e = effectKeyOf effect
      · -- two effects of one key would have the same id
        have hold := hb.stored id e h
        rw [hk] at hold
        rcases hput with ⟨-, hnone⟩ | ⟨old, hstored, hsame⟩
        · rw [hnone] at hold
          cases hold
        · have := hb.stored effect.id old hstored
          rw [hsame, hold] at this
          exact absurd (Option.some.inj this).symm hid
      · rw [Function.update_of_ne hk]
        exact hb.stored id e h

end

end Indexes

/-! ## The stored effect represents the custody -/

def phaseOf : EffectStatus → Phase
  | .claimed => .claimed
  | .inProgress => .started
  | .failedRetryable => .returned
  | .committed | .failedTerminal | .outcomeUnknown | .reconciledCommitted | .reconciledFailed =>
    .closed

/-- An open grant: its token and lease still count. -/
def Phase.isOpen : Phase → Bool
  | .claimed | .started => true
  | .returned | .closed => false

/-- The effect holds the lease, and stands where it stands. -/
structure Holds (crates : Crates) (effect : EffectRecord) (lease : Lease) (phase : Phase) :
    Prop where
  effectId : effect.id = lease.effectId
  fence : effect.fencingToken = lease.fence
  state : phaseOf effect.state = phase
  token : phase.isOpen = true →
    effect.leaseTokenDigest = some (tokenDigest crates lease.token)
  expires : phase.isOpen = true → effect.leaseExpiresAtMs = some lease.expiresAtMs

def Represents (crates : Crates) : Option EffectRecord → Custody → Prop
  | none, none => True
  | some effect, some (lease, phase) => Holds crates effect lease phase
  | _, _ => False

variable {env : Env} {idx : Indexes} {effect : EffectRecord} {lease : Lease} {phase : Phase}
  {draws : Draws}

theorem represents_some {c : Custody} (h : Represents crates (some effect) c) :
    ∃ lease phase, c = some (lease, phase) ∧ Holds crates effect lease phase := by
  cases c with
  | none => cases h
  | some p => exact ⟨p.1, p.2, rfl, h⟩

theorem represents_none {c : Custody} (h : Represents crates none c) : c = none := by
  cases c with
  | none => rfl
  | some p => cases h

/-! ### Transitions -/

theorem authorize_ok (h : authorize crates effect req caps = .ok ())
    (hworker : req.transition.isWorkerTransition = true) :
    ∃ token, req.leaseToken = some token ∧
      effect.leaseTokenDigest = some (tokenDigest crates token) := by
  unfold authorize at h
  rw [if_pos hworker] at h
  cases ht : req.leaseToken with
  | none =>
    rw [ht] at h
    cases h
  | some token =>
    rw [ht] at h
    simp only [] at h
    split at h
    · cases h
    · next hd => exact ⟨token, rfl, Classical.not_not.mp hd⟩

/-- The parts of a transition that succeeds. -/
theorem transitionPlan_ok (h : transitionPlan env effect req caps now = .ok change) :
    req.fencingToken = effect.fencingToken ∧ legalTransition req.transition effect.state = true ∧
      authorize env.crates effect req caps = .ok () ∧
      ∃ eventType, nextEffect env effect req now = .ok (change.effect, eventType) := by
  unfold transitionPlan at h
  split at h
  · cases h
  · next hfence =>
    split at h
    · cases h
    · next hlegal =>
      obtain ⟨_, hauth, h⟩ := bind_eq_ok.mp h
      obtain ⟨⟨next, eventType⟩, hnext, h⟩ := bind_eq_ok.mp h
      cases pure_eq_ok.mp h
      exact ⟨Classical.not_not.mp hfence, by simpa using hlegal, hauth, eventType, hnext⟩

/-- Identity, key, run and fence survive every transition. -/
theorem nextEffect_frame (h : nextEffect env effect req now = .ok (next, eventType)) :
    next.id = effect.id ∧ effectKeyOf next = effectKeyOf effect ∧ next.runId = effect.runId ∧
      next.fencingToken = effect.fencingToken := by
  unfold nextEffect at h
  cases ht : req.transition <;> rw [ht] at h
  case renew =>
    obtain ⟨_, -, h⟩ := bind_eq_ok.mp h
    cases pure_eq_ok.mp h
    exact ⟨rfl, rfl, rfl, rfl⟩
  all_goals
    cases h
    exact ⟨rfl, rfl, rfl, rfl⟩

/-- A renewal moves the expiry and nothing else of the lease. -/
theorem nextEffect_renew (ht : req.transition = .renew)
    (h : nextEffect env effect req now = .ok (next, eventType)) :
    next.state = effect.state ∧ next.leaseTokenDigest = effect.leaseTokenDigest ∧
      ∃ expires, next.leaseExpiresAtMs = some expires := by
  unfold nextEffect at h
  rw [ht] at h
  obtain ⟨leaseMs, -, h⟩ := bind_eq_ok.mp h
  cases pure_eq_ok.mp h
  exact ⟨rfl, rfl, _, rfl⟩

variable {state : EffectStatus} {t : EffectTransition} {token : Option String}

theorem phaseOf_worker (hlegal : legalTransition t state = true)
    (hworker : t.isWorkerTransition = true) :
    phaseOf state = .claimed ∨ phaseOf state = .started ∧ t ≠ .start := by
  cases t <;> cases state <;>
    simp_all [legalTransition, EffectTransition.isWorkerTransition, phaseOf]

theorem phaseOf_reconcile (hlegal : legalTransition t state = true)
    (hworker : t.isWorkerTransition = false) : phaseOf state = .closed := by
  cases t <;> cases state <;>
    simp_all [legalTransition, EffectTransition.isWorkerTransition, phaseOf]

/-- A worker's transition finds an open grant and presents its token and fence. -/
theorem Holds.presents (hh : Holds env.crates effect lease phase)
    (hfence : req.fencingToken = effect.fencingToken)
    (hlegal : legalTransition req.transition effect.state = true)
    (hauth : authorize env.crates effect req caps = .ok ())
    (hworker : req.transition.isWorkerTransition = true) :
    (phase = .claimed ∨ phase = .started ∧ req.transition ≠ .start) ∧
      Custody.Presents (tokenDigest env.crates) lease req := by
  have hphase := phaseOf_worker hlegal hworker
  rw [hh.state] at hphase
  have hopen : phase.isOpen = true := by
    rcases hphase with rfl | ⟨rfl, -⟩ <;> rfl
  obtain ⟨token, ht, hdigest⟩ := authorize_ok hauth hworker
  rw [hh.token hopen] at hdigest
  exact ⟨hphase, hfence.trans hh.fence, token, ht, (Option.some.inj hdigest).symm⟩

/-- The next state of an effect holds what is left of the lease. -/
theorem Holds.nextEffect (hh : Holds env.crates effect lease phase)
    (hopen : req.transition = .start ∨ req.transition = .renew → phase.isOpen = true)
    (h : nextEffect env effect req now = .ok (next, eventType)) :
    Holds env.crates next ((LeaseEvent.transition req next.leaseExpiresAtMs).renews lease)
      (phase.next (.transition req next.leaseExpiresAtMs)) := by
  obtain ⟨hid, -, -, hfence⟩ := nextEffect_frame h
  -- the grant is given back or closed: nothing is left
  have hshut : ∀ phase' : Phase, phase'.isOpen = false → req.transition ≠ .renew →
      phase.next (.transition req next.leaseExpiresAtMs) = phase' → phaseOf next.state = phase' →
      Holds env.crates next ((LeaseEvent.transition req next.leaseExpiresAtMs).renews lease)
        (phase.next (.transition req next.leaseExpiresAtMs)) := by
    intro phase' hclosed hrenew hp hs
    rw [hp, LeaseEvent.renews, if_neg hrenew]
    refine ⟨hid.trans hh.effectId, hfence.trans hh.fence, hs, ?_, ?_⟩ <;>
      (intro ho; rw [hclosed] at ho; cases ho)
  cases ht : req.transition with
  | renew =>
    have ho := hopen (Or.inr ht)
    obtain ⟨hstate, htoken, expires, hexpires⟩ := nextEffect_renew ht h
    have hp : phase.next (.transition req next.leaseExpiresAtMs) = phase := by
      simp only [Phase.next, ht]
    rw [hp, LeaseEvent.renews, if_pos ht, hexpires]
    exact ⟨hid.trans hh.effectId, hfence.trans hh.fence, by rw [hstate]; exact hh.state,
      fun _ => htoken.trans (hh.token ho), fun _ => hexpires⟩
  | start =>
    have ho := hopen (Or.inl ht)
    have hp : phase.next (.transition req next.leaseExpiresAtMs) = .started := by
      simp only [Phase.next, ht]
    rw [hp, LeaseEvent.renews, if_neg (by simp [ht])]
    unfold Calod.Ledger.nextEffect at h
    rw [ht] at h
    cases h
    exact ⟨hh.effectId, hh.fence, rfl, fun _ => hh.token ho, fun _ => hh.expires ho⟩
  | failRetryable =>
    refine hshut .returned rfl (by simp [ht]) (by simp only [Phase.next, ht]) ?_
    unfold Calod.Ledger.nextEffect at h
    rw [ht] at h
    cases h
    rfl
  | _ =>
    refine hshut .closed rfl (by simp [ht]) (by simp only [Phase.next, ht]) ?_
    unfold Calod.Ledger.nextEffect at h
    rw [ht] at h
    cases h
    rfl

/-- **A transition that succeeds is allowed, and the effect goes where the grant goes.** -/
theorem Holds.transition (hh : Holds env.crates effect lease phase)
    (h : transitionPlan env effect req caps now = .ok change) :
    Custody.Allows (tokenDigest env.crates) (some (lease, phase))
        (.transition req change.effect.leaseExpiresAtMs) ∧
      Holds env.crates change.effect
        ((LeaseEvent.transition req change.effect.leaseExpiresAtMs).renews lease)
        (phase.next (.transition req change.effect.leaseExpiresAtMs)) := by
  obtain ⟨hfence, hlegal, hauth, eventType, hnext⟩ := transitionPlan_ok h
  constructor
  · simp only [Custody.Allows]
    cases hworker : req.transition.isWorkerTransition with
    | false =>
      rw [← hh.state]
      simpa using phaseOf_reconcile hlegal hworker
    | true => exact hh.presents hfence hlegal hauth hworker
  · refine hh.nextEffect ?_ hnext
    intro ht
    have hworker : req.transition.isWorkerTransition = true := by
      rcases ht with ht | ht <;> rw [ht] <;> rfl
    rcases (hh.presents hfence hlegal hauth hworker).1 with rfl | ⟨rfl, -⟩ <;> rfl

/-! ### Acquires -/

/-- An answer from what is stored shows the effect and is never a grant. -/
theorem acquireExisting_decide {req : AcquireEffectRequest} {leaseMs : Int}
    {decision : EffectDecision}
    (h : acquireExisting crates effect req leaseMs draws = .decide decision) :
    decision.effect = effect.view ∧ decision.decision ≠ .execute ∧
      (decision.decision = .reconcile → phaseOf effect.state = .closed) ∧
      (decision.decision = .replay → effect.state.isRetentionTerminal = true) := by
  unfold acquireExisting at h
  simp only [] at h
  cases hs : effect.state <;> rw [hs] at h
  case claimed | inProgress =>
    simp only [] at h
    split at h <;> cases h
    simp [waitDecision]
  case failedRetryable => cases h
  all_goals
    cases h
    simp [phaseOf, EffectStatus.isRetentionTerminal]

/-- A new state is a new grant after the last one, or the end of one that expired in progress. -/
theorem acquireExisting_apply {req : AcquireEffectRequest} {leaseMs : Int}
    (h : acquireExisting crates effect req leaseMs draws = .apply change decision token) :
    (decision = .execute ∧ token = some (generateLeaseToken draws.token) ∧
      change.effect = reacquire crates effect req leaseMs draws.now
        (generateLeaseToken draws.token) ∧
      (phaseOf effect.state = .returned ∨
        phaseOf effect.state = .claimed ∧ effect.leaseExpiresAtMs.getD draws.now ≤ draws.now)) ∨
    (decision = .reconcile ∧ change.effect = expireInProgress effect draws.now ∧
      phaseOf effect.state = .started) := by
  unfold acquireExisting at h
  simp only [] at h
  cases hs : effect.state <;> rw [hs] at h
  case failedRetryable =>
    cases h
    exact Or.inl ⟨rfl, rfl, rfl, Or.inl rfl⟩
  case claimed =>
    simp only [] at h
    split at h
    · cases h
    · next hexpired =>
      cases h
      exact Or.inl ⟨rfl, rfl, rfl, Or.inr ⟨rfl, Int.not_lt.mp hexpired⟩⟩
  case inProgress =>
    simp only [] at h
    split at h <;> cases h
    exact Or.inr ⟨rfl, rfl, rfl⟩
  all_goals cases h

/-- The parts of an `acquire` that decides. -/
theorem acquirePlan_ok {scope : Scope} {req : AcquireEffectRequest} {plan : AcquirePlan}
    (h : acquirePlan env idx scope key req draws = .ok plan) :
    ∃ leaseMs, resolveLeaseMs env.config req.leaseDurationSeconds "lease_duration_seconds"
        = .ok leaseMs ∧
      ((idx.effectOf (acquireKey scope key req) = none ∧ checkRun idx scope req.runId = .ok () ∧
        ∃ change, plan = .apply change .execute (some (generateLeaseToken draws.token)) ∧
          change.effect = newEffect env.crates scope key req leaseMs draws) ∨
      ∃ effect, idx.effectOf (acquireKey scope key req) = some effect ∧
        plan = acquireExisting env.crates effect req leaseMs draws) := by
  unfold acquirePlan at h
  obtain ⟨leaseMs, hms, h⟩ := bind_eq_ok.mp h
  refine ⟨leaseMs, hms, ?_⟩
  cases he : idx.effectOf (acquireKey scope key req) with
  | none =>
    rw [he] at h
    obtain ⟨_, hcheck, h⟩ := bind_eq_ok.mp h
    cases pure_eq_ok.mp h
    exact Or.inl ⟨rfl, hcheck, _, rfl, rfl⟩
  | some effect =>
    rw [he] at h
    simp only [] at h
    split at h
    · cases h
    · cases pure_eq_ok.mp h
      exact Or.inr ⟨effect, rfl, rfl⟩

/-! ## What a call stores -/

/-- A new state of an effect with its answer, and how it comes from the one stored before. -/
inductive Stores (env : Env) (scope : Scope) :
    Call → Option EffectRecord → EffectRecord → Response → Prop where
  | acquired {key : String} {req : AcquireEffectRequest} {leaseMs : Int} {draws : Draws}
      {next : EffectRecord} (hnext : next = newEffect env.crates scope key req leaseMs draws) :
      Stores env scope (.acquire key req) none next
        (.decision (executeAnswer next .execute (some (generateLeaseToken draws.token))))
  | reacquired {key : String} {req : AcquireEffectRequest} {leaseMs : Int} {draws : Draws}
      {effect next : EffectRecord} (hkey : effectKeyOf effect = acquireKey scope key req)
      (hphase : phaseOf effect.state = .returned ∨
        phaseOf effect.state = .claimed ∧ effect.leaseExpiresAtMs.getD draws.now ≤ draws.now)
      (hnext : next = reacquire env.crates effect req leaseMs draws.now
        (generateLeaseToken draws.token)) :
      Stores env scope (.acquire key req) (some effect) next
        (.decision (executeAnswer next .execute (some (generateLeaseToken draws.token))))
  | expired {key : String} {req : AcquireEffectRequest} {now : Int} {token : Option String}
      {effect next : EffectRecord} (hkey : effectKeyOf effect = acquireKey scope key req)
      (hphase : phaseOf effect.state = .started) (hnext : next = expireInProgress effect now) :
      Stores env scope (.acquire key req) (some effect) next
        (.decision (executeAnswer next .reconcile token))
  | transition {id : Uuid} {req : UpdateEffectRequest} {caps : CallerCapabilities} {now : Int}
      {effect next : EffectRecord} {change : EffectChange}
      (hscope : effect.tenantId = scope.tenantId ∧ effect.projectId = scope.projectId)
      (hplan : transitionPlan env effect req caps now = .ok change)
      (hnext : next = change.effect) :
      Stores env scope (.transition id req caps) (some effect) next (.effect next.view)

section

variable {scope : Scope} {call : Call} {old : Option EffectRecord} {next : EffectRecord}
  {response : Response} {c : Custody}

/-- An effect keeps its id and its key. -/
theorem Stores.frame (h : Stores env scope call (some effect) next response) :
    next.id = effect.id ∧ effectKeyOf next = effectKeyOf effect := by
  cases h with
  | reacquired _ _ hnext | expired _ _ hnext => exact hnext ▸ ⟨rfl, rfl⟩
  | transition hscope hplan hnext =>
    obtain ⟨-, -, -, eventType, h⟩ := transitionPlan_ok hplan
    obtain ⟨hid, hkey, -⟩ := nextEffect_frame h
    exact hnext ▸ ⟨hid, hkey⟩

/-- A new state of an effect can be stored. -/
theorem puts_of_stores {idx : Indexes} {scope : Scope} {call : Call} {effect : EffectRecord}
    {response : Response} (hb : idx.Bound) (hk : idx.Keyed)
    (h : Stores env scope call (idx.effectOf (effectKeyOf effect)) effect response)
    (hnone : idx.effectOf (effectKeyOf effect) = none → idx.effectsById[effect.id]? = none) :
    idx.Puts effect := by
  cases hof : idx.effectOf (effectKeyOf effect) with
  | none =>
    refine Or.inl ⟨hnone hof, ?_⟩
    cases hid : idx.effectIds (effectKeyOf effect) with
    | none => rfl
    | some id =>
      obtain ⟨e, hstored, -⟩ := hb.lookup _ id hid
      rw [Indexes.effectOf, hid, Option.bind_some, hstored] at hof
      cases hof
  | some old =>
    rw [hof] at h
    obtain ⟨id, hstored, -⟩ := hb.effectOf_eq_some.mp hof
    have hold : old.id = id := hk.effects id old hstored
    exact Or.inr ⟨old, by rw [h.frame.1, hold, hstored], h.frame.2.symm⟩

/-- A freshly claimed effect holds the lease that its decision grants. -/
theorem execute_step {key : String} {req : AcquireEffectRequest} {expires : Int} {token : String}
    (hkey : effectKeyOf next = acquireKey scope key req) (hstate : next.state = .claimed)
    (hexpires : next.leaseExpiresAtMs = some expires)
    (htoken : next.leaseTokenDigest = some (tokenDigest env.crates token))
    (hallow : c.Allows (tokenDigest env.crates)
      (.execute (grantOf (executeAnswer next .execute (some token)) (some next))
        next.updatedAtMs)) :
    ∃ event, observe scope (.acquire key req)
          (.decision (executeAnswer next .execute (some token))) (some next)
        = some (effectKeyOf next, event) ∧
      c.Allows (tokenDigest env.crates) event ∧
      Represents env.crates (some next) (c.next event) := by
  refine ⟨_, hkey ▸ rfl, hallow, rfl, rfl, by rw [hstate]; rfl, fun _ => htoken, fun _ => ?_⟩
  rw [grantOf, Option.bind_some, hexpires]
  rfl

/--
**What a call stores is shown as an allowed event**, and represents the custody after it.
-/
theorem Stores.step (h : Stores env scope call old next response)
    (hc : Represents env.crates old c) :
    ∃ event, observe scope call response (some next) = some (effectKeyOf next, event) ∧
      c.Allows (tokenDigest env.crates) event ∧
      Represents env.crates (some next) (c.next event) := by
  cases h with
  | @acquired key req leaseMs draws _ hnext =>
    subst hnext
    rw [represents_none hc]
    exact execute_step rfl rfl rfl rfl rfl
  | @reacquired key req leaseMs draws effect _ hkey hphase hnext =>
    obtain ⟨lease, phase, rfl, hh⟩ := represents_some hc
    rw [hh.state] at hphase
    have hafter : phase = .returned ∨ phase = .claimed ∧ lease.expiresAtMs ≤ draws.now := by
      refine hphase.imp_right fun ⟨hp, hle⟩ => ⟨hp, ?_⟩
      rwa [hh.expires (by rw [hp]; rfl)] at hle
    have hfence : next.fencingToken = lease.fence + 1 := by
      rw [hnext, ← hh.fence]
      rfl
    subst hnext
    exact execute_step hkey rfl rfl rfl ⟨hafter, hh.effectId, hfence⟩
  | @expired key req now token effect _ hkey hphase hnext =>
    obtain ⟨lease, phase, rfl, hh⟩ := represents_some hc
    subst hnext
    refine ⟨.reconcile, ?_, Or.inl (hh.state.symm.trans hphase), hh.effectId, hh.fence, rfl,
      nofun, nofun⟩
    simp only [observe]
    rw [← hkey]
    rfl
  | @transition id req caps now effect _ change hscope hplan hnext =>
    obtain ⟨lease, phase, rfl, hh⟩ := represents_some hc
    subst hnext
    obtain ⟨-, -, -, eventType, hnext⟩ := transitionPlan_ok hplan
    have hkey := (nextEffect_frame hnext).2.1
    obtain ⟨hallow, hholds⟩ := hh.transition hplan
    refine ⟨_, ?_, hallow, hholds⟩
    have hview : viewKey scope change.effect.view = effectKeyOf change.effect := by
      simp only [effectKeyOf, EffectKey.mk.injEq] at hkey
      rw [viewKey, effectKeyOf, ← hscope.1, ← hscope.2, ← hkey.1, ← hkey.2.1]
      rfl
    simp only [observe, Option.bind_some, hview]

/-- `acquire` stores what `Stores` says, on the effect that its key has. -/
theorem stores_acquire {req : AcquireEffectRequest} (hb : idx.Bound)
    (h : acquirePlan env idx scope key req draws = .ok (.apply change decision token)) :
    effectKeyOf change.effect = acquireKey scope key req ∧
      Stores env scope (.acquire key req) (idx.effectOf (acquireKey scope key req)) change.effect
        (.decision (executeAnswer change.effect decision token)) ∧
      (idx.effectOf (acquireKey scope key req) = none → change.effect.id = draws.id) := by
  obtain ⟨leaseMs, -, ⟨hnone, -, _, hnew, heffect⟩ | ⟨effect, he, hex⟩⟩ := acquirePlan_ok h
  · cases hnew
    rw [hnone]
    exact ⟨heffect ▸ rfl, .acquired heffect, fun _ => heffect ▸ rfl⟩
  · obtain ⟨-, -, hkey⟩ := hb.effectOf_eq_some.mp he
    rw [he]
    have hstores : Stores env scope (.acquire key req) (some effect) change.effect
        (.decision (executeAnswer change.effect decision token)) := by
      rcases acquireExisting_apply hex.symm with
        ⟨rfl, rfl, heffect, hphase⟩ | ⟨rfl, heffect, hphase⟩
      · exact .reacquired hkey hphase heffect
      · exact .expired hkey hphase heffect
    exact ⟨hstores.frame.2.trans hkey, hstores, nofun⟩

/-- An answer of `acquire` from what is stored is no event, or that a closed grant is closed. -/
theorem observe_decide {req : AcquireEffectRequest} {decision : EffectDecision}
    (h : acquirePlan env idx scope key req draws = .ok (.decide decision)) :
    observe scope (.acquire key req) (.decision decision) none = none ∨
      observe scope (.acquire key req) (.decision decision) none
          = some (acquireKey scope key req, .reconcile) ∧
        ∀ c, Represents env.crates (idx.effectOf (acquireKey scope key req)) c →
          c.Allows (tokenDigest env.crates) .reconcile ∧ c.next .reconcile = c := by
  obtain ⟨leaseMs, -, ⟨-, -, change, hnew, -⟩ | ⟨effect, he, hex⟩⟩ := acquirePlan_ok h
  · cases hnew
  obtain ⟨-, hexecute, hreconcile, -⟩ := acquireExisting_decide hex.symm
  cases hd : decision.decision with
  | execute => exact absurd hd hexecute
  | replay | wait => exact Or.inl (by simp only [observe, hd])
  | reconcile =>
    refine Or.inr ⟨by simp only [observe, hd], fun c hc => ?_⟩
    rw [he] at hc
    obtain ⟨lease, phase, rfl, hh⟩ := represents_some hc
    obtain rfl : phase = .closed := hh.state.symm.trans (hreconcile hd)
    exact ⟨Or.inr rfl, rfl⟩

end

end Calod.Ledger
