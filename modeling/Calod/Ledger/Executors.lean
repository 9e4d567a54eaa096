import Calod.Ledger.Fencing

/-!
# One executor at a time

The guarantees that workers rely on, read off the calls that have returned. Calls overlap in any
way, every call reads whatever clock it likes, and appends to the log may fail.

* `one_executor` — between two `execute` decisions for a key, the first grant was given back by
  its holder, or expired while the effect was only claimed
* `fences_hold` — fencing tokens grow, only the holder of the latest grant gets through, and
  a call that does not succeed leaves everything as it was

Tokens are compared by their SHA-256, so both assume that no presented token has the digest of
another one that was granted (`noCollision`).
-/

namespace Calod.Ledger

open Calod.Core Calod.Storage Lib Ledger.Sample

/-! ## What a returned call shows -/

namespace Return

/-- `acquire` of the key answered `execute`, with this grant, when the clock read `now`. -/
def Executes (r : Return) (key : EffectKey) (lease : Lease) (now : Int) : Prop :=
  r.task.observe = some (key, .execute lease now)

/-- A transition of the key's effect succeeded, and left the lease to expire at the given time. -/
def Transitions (r : Return) (key : EffectKey) (req : UpdateEffectRequest)
    (expiresAtMs : Option Int) : Prop :=
  r.task.observe = some (key, .transition req expiresAtMs)

/-- The effect of the key, in the state that the call returned from. -/
def effectOf (r : Return) (key : EffectKey) : Option EffectRecord :=
  r.before.ledger.indexes.effectOf key

/-- The token that the call was granted. -/
def granted (r : Return) : Option String :=
  match r.task.observe with
  | some (_, .execute lease _) => some lease.token
  | _ => none

/-- The token that the call got through with. -/
def presented (r : Return) : Option String :=
  match r.task.observe with
  | some (_, .transition req _) => req.leaseToken
  | _ => none

end Return

/-- No presented token has the digest of a granted one, unless it is the same. -/
def Logged.noCollision (env : Env) (l : Logged) : Bool :=
  (l.log.filterMap Return.presented).all fun t => (l.log.filterMap Return.granted).all fun g =>
    t = g || tokenDigest env.crates t ≠ tokenDigest env.crates g

variable {env : Env} {l : Logged} {key : EffectKey} {r : Return} {lease : Lease} {now : Int}
  {req : UpdateEffectRequest} {expires : Option Int}

variable {event : LeaseEvent} {log : List Return} {key' : EffectKey} {state : EffectStatus}

theorem eventsFor_cons (h : r.task.observe = some (key, event)) (log : List Return) :
    eventsFor key (r :: log) = event :: eventsFor key log :=
  List.filterMap_cons_some (eventFor_eq_some.mpr h)

theorem mem_eventsFor :
    event ∈ eventsFor key log ↔ ∃ r ∈ log, r.task.observe = some (key, event) := by
  simp only [eventsFor, List.mem_filterMap, eventFor_eq_some]

theorem not_isExecute (h : ∀ r ∈ log, ∀ g t, ¬ r.Executes key g t) :
    ∀ event ∈ eventsFor key log, event.isExecute = false := by
  intro event he
  obtain ⟨r, hr, hobs⟩ := mem_eventsFor.mp he
  cases event with
  | execute g t => exact absurd hobs (h r hr g t)
  | reconcile => rfl
  | transition req expires => rfl

/-- Presenting a token by its digest is presenting the token. -/
theorem Logged.presents {a : Return} {t : Int} (hno : l.noCollision env = true) (ha : a ∈ l.log)
    (hr : r ∈ l.log) (hexecutes : a.Executes key lease t)
    (htransitions : r.Transitions key' req expires)
    (h : Custody.Presents (tokenDigest env.crates) lease req) :
    req.leaseToken = some lease.token ∧ req.fencingToken = lease.fence := by
  obtain ⟨hfence, token, htoken, hdigest⟩ := h
  have hpresented : token ∈ l.log.filterMap Return.presented := by
    refine List.mem_filterMap.mpr ⟨r, hr, ?_⟩
    rw [Return.presented, htransitions]
    exact htoken
  have hgranted : lease.token ∈ l.log.filterMap Return.granted := by
    refine List.mem_filterMap.mpr ⟨a, ha, ?_⟩
    rw [Return.granted, hexecutes]
  have := List.all_eq_true.mp (List.all_eq_true.mp hno token hpresented) lease.token hgranted
  have heq : token = lease.token := by simpa [hdigest] using this
  exact ⟨heq ▸ htoken, hfence⟩

namespace Logged.Follows

variable {before between since : List Return} {a b : Return} {g g' : Lease} {now' : Int}

/-- What follows a grant is a run of the protocol from there. -/
theorem since_grant (hf : l.Follows env) (hlog : l.log = before ++ a :: since)
    (ha : a.Executes key g now) :
    Custody.Admits (tokenDigest env.crates) (some (g, .claimed)) (eventsFor key since) := by
  have hadmits := hf.admits key
  rw [hlog, eventsFor_append, eventsFor_cons ha, Custody.admits_append] at hadmits
  exact Custody.next_execute (Custody.after none (eventsFor key before)) now ▸ hadmits.2.2

theorem after_grant (ha : a.Executes key g now) :
    Custody.after none (eventsFor key (before ++ a :: between))
      = Custody.after (some (g, .claimed)) (eventsFor key between) := by
  rw [eventsFor_append, eventsFor_cons ha, Custody.after_append, Custody.after, List.foldl_cons,
    Custody.next_execute]
  rfl

theorem state_of_claimed (h : phaseOf state = .claimed) : state = .claimed := by
  cases state <;> cases h
  rfl

theorem state_of_started (h : phaseOf state = .started) : state = .inProgress := by
  cases state <;> cases h
  rfl

/-- A second grant comes after the first was given back, or expired while it was claimed. -/
theorem second_grant (hf : l.Follows env) (hlog : l.log = before ++ a :: (between ++ b :: since))
    (ha : a.Executes key g now) (hb : b.Executes key g' now')
    (hno : ∀ r ∈ between, ∀ lease t, ¬ r.Executes key lease t) :
    (∃ r ∈ between, ∃ req expires, r.Transitions key req expires ∧
      req.transition = .failRetryable ∧ Custody.Presents (tokenDigest env.crates) g req) ∨
    ∃ effect, b.effectOf key = some effect ∧ effect.state = .claimed ∧
      effect.leaseExpiresAtMs = some (g.after (eventsFor key between)).expiresAtMs ∧
      (g.after (eventsFor key between)).expiresAtMs ≤ now' := by
  have hadmits := hf.since_grant hlog ha
  rw [eventsFor_append, eventsFor_cons hb, Custody.admits_append] at hadmits
  obtain ⟨hbetween, hallow, -⟩ := hadmits
  have hafter := Custody.after_of_no_execute g .claimed (not_isExecute hno)
  rw [hafter] at hallow
  rcases hallow.1 with hreturned | ⟨hclaimed, hexpired⟩
  · left
    rw [hreturned] at hafter
    obtain ⟨req, expires, hmem, ht, hp⟩ :=
      Custody.exists_failRetryable hbetween (not_isExecute hno) (by simp) hafter
    obtain ⟨r, hr, hobs⟩ := mem_eventsFor.mp hmem
    exact ⟨r, hr, req, expires, hobs, ht, hp⟩
  · right
    have hfound := hf.found (before ++ a :: between) b since (by rw [hlog]; simp) key
    rw [after_grant ha, hafter, hclaimed] at hfound
    unfold Return.effectOf
    cases heffect : b.before.ledger.indexes.effectOf key with
    | none =>
      rw [heffect] at hfound
      cases hfound
    | some effect =>
      rw [heffect] at hfound
      exact ⟨effect, rfl, state_of_claimed hfound.state, hfound.expires rfl, hexpired⟩

/-- Once started or closed, and not given back, there is no other grant. -/
theorem no_later_grant (hf : l.Follows env) (hlog : l.log = before ++ a :: since)
    (ha : a.Transitions key req expires)
    (ht : req.transition = .start ∨ req.transition = .markOutcomeUnknown)
    (hno : ∀ r ∈ since, ∀ req' expires', r.Transitions key req' expires' →
      req'.transition ≠ .failRetryable) :
    ∀ r ∈ since, ∀ lease t, ¬ r.Executes key lease t := by
  have hadmits := hf.admits key
  rw [hlog, eventsFor_append, eventsFor_cons ha, Custody.admits_append] at hadmits
  obtain ⟨-, hallow, hsince⟩ := hadmits
  intro r hr lease t hexecutes
  cases hc : Custody.after none (eventsFor key before) with
  | none =>
    rw [hc] at hallow
    cases hallow
  | some custody =>
    obtain ⟨g, phase⟩ := custody
    rw [hc, Custody.next_of_not_execute g phase rfl] at hsince
    have hphase : phase.next (.transition req expires) = .started ∨
        phase.next (.transition req expires) = .closed := by
      rcases ht with ht | ht <;> simp [Phase.next, ht]
    have hnone := Custody.no_execute hphase hsince (fun event he => ?_) _
      (mem_eventsFor.mpr ⟨r, hr, hexecutes⟩)
    · cases hnone
    · obtain ⟨r', hr', hobs⟩ := mem_eventsFor.mp he
      cases event with
      | execute g' t' => rfl
      | reconcile => rfl
      | transition req' expires' =>
        simpa [LeaseEvent.isFailRetryable] using hno r' hr' req' expires' hobs

/-- The effect that a grant is for: the key still has it. -/
theorem granted_effect (hf : l.Follows env) (hlog : l.log = before ++ a :: since)
    (ha : a.Executes key g now) :
    ∃ effect, l.sys.ledger.indexes.effectOf key = some effect ∧ effect.id = g.effectId := by
  obtain ⟨lease, phase, hafter, hid⟩ := Custody.after_effectId (hf.since_grant hlog ha)
  have hstored := hf.stored key
  rw [hlog, after_grant ha, hafter] at hstored
  cases heffect : l.sys.ledger.indexes.effectOf key with
  | none =>
    rw [heffect] at hstored
    cases hstored
  | some effect =>
    rw [heffect] at hstored
    exact ⟨effect, rfl, hstored.effectId.trans hid⟩

/-- Two grants for one effect are for one key. -/
theorem key_eq (hf : l.Follows env) (hb : l.sys.ledger.indexes.Bound)
    (hk : l.sys.ledger.indexes.Keyed) (hlog : l.log = before ++ a :: (between ++ b :: since))
    (ha : a.Executes key g now) (hb' : b.Executes key' g' now') (hid : g.effectId = g'.effectId) :
    key = key' := by
  obtain ⟨effect, he, hide⟩ := hf.granted_effect hlog ha
  have hlog' : l.log = (before ++ a :: between) ++ b :: since := by
    rw [hlog]
    simp
  obtain ⟨effect', he', hide'⟩ := hf.granted_effect hlog' hb'
  obtain ⟨id, hstored, hkey⟩ := hb.effectOf_eq_some.mp he
  obtain ⟨id', hstored', hkey'⟩ := hb.effectOf_eq_some.mp he'
  have hids : id = id' := by
    rw [← hk.effects id effect hstored, ← hk.effects id' effect' hstored', hide, hid, hide']
  subst hids
  rw [hstored] at hstored'
  cases hstored'
  exact hkey.symm.trans hkey'

/-- A worker's transition presents the latest grant, which is open. -/
theorem holder (hf : l.Follows env) (hlog : l.log = before ++ r :: since)
    (hr : r.Transitions key req expires) (hworker : req.transition.isWorkerTransition = true) :
    ∃ earlier a between g now, before = earlier ++ a :: between ∧ a.Executes key g now ∧
      (∀ x ∈ between, ∀ lease t, ¬ x.Executes key lease t) ∧
      Custody.Presents (tokenDigest env.crates) g req ∧
      ∃ effect, r.effectOf key = some effect ∧ effect.id = g.effectId ∧
        (effect.state = .claimed ∨ effect.state = .inProgress) := by
  have hadmits := hf.admits key
  rw [hlog, eventsFor_append, eventsFor_cons hr, Custody.admits_append] at hadmits
  obtain ⟨-, hallow, -⟩ := hadmits
  cases hc : Custody.after none (eventsFor key before) with
  | none =>
    rw [hc] at hallow
    cases hallow
  | some custody =>
    obtain ⟨lease, phase⟩ := custody
    rw [hc] at hallow
    simp only [Custody.Allows, if_pos hworker] at hallow
    obtain ⟨hphase, hpresents⟩ := hallow
    obtain ⟨events, g, now, events', hsplit, hno, rfl⟩ := Custody.exists_execute hc
    obtain ⟨hid, htoken, hfence⟩ := Custody.lease_after_frame g events'
    -- the latest grant, and the calls since then
    obtain ⟨earlier, rest, rfl, -, hrest⟩ := List.filterMap_eq_append_iff.mp hsplit
    obtain ⟨skipped, a, between, rfl, -, ha, rfl⟩ := List.filterMap_eq_cons_iff.mp hrest
    refine ⟨earlier ++ skipped, a, between, g, now, by simp, eventFor_eq_some.mp ha, ?_, ?_, ?_⟩
    · intro x hx lease t hexecutes
      cases hno _ (mem_eventsFor.mpr ⟨x, hx, hexecutes⟩)
    · rwa [Custody.Presents, hfence, htoken] at hpresents
    · have hfound := hf.found _ r since hlog key
      rw [hc] at hfound
      unfold Return.effectOf
      cases heffect : r.before.ledger.indexes.effectOf key with
      | none =>
        rw [heffect] at hfound
        cases hfound
      | some effect =>
        rw [heffect] at hfound
        refine ⟨effect, rfl, hfound.effectId.trans hid, ?_⟩
        rcases hphase with rfl | ⟨rfl, -⟩
        · exact Or.inl (state_of_claimed hfound.state)
        · exact Or.inr (state_of_started hfound.state)

end Logged.Follows

/--
**At most one executor.** Between two consecutive `execute` decisions for a key, `fail_retryable`
succeeded with the token and the fence of the first grant, or the first grant had expired,
renewals included, with the effect still `claimed`. And once a `start` or a
`mark_outcome_unknown` has succeeded, without a `fail_retryable` after it, there is no further
`execute` decision.
-/
theorem one_executor (env : Env) {l : Logged}
    (h : Reach (Logged.step env) (fun l a => l.sys.unpruned a = true) .init l)
    (hcollision : l.noCollision env = true) (key : EffectKey) :
    (∀ before (a : Return) between (b : Return) since g now g' now',
      l.log = before ++ a :: (between ++ b :: since) →
      a.Executes key g now → b.Executes key g' now' →
      (∀ r ∈ between, ∀ lease t, ¬ r.Executes key lease t) →
        (∃ r ∈ between, ∃ req expires, r.Transitions key req expires ∧
          req.transition = .failRetryable ∧ req.leaseToken = some g.token ∧
          req.fencingToken = g.fence) ∨
        ∃ effect, b.effectOf key = some effect ∧ effect.state = .claimed ∧
          effect.leaseExpiresAtMs = some (g.after (eventsFor key between)).expiresAtMs ∧
          (g.after (eventsFor key between)).expiresAtMs ≤ now') ∧
    ∀ before (a : Return) since req expires, l.log = before ++ a :: since →
      a.Transitions key req expires →
      req.transition = .start ∨ req.transition = .markOutcomeUnknown →
      (∀ r ∈ since, ∀ req' expires', r.Transitions key req' expires' →
        req'.transition ≠ .failRetryable) →
      ∀ r ∈ since, ∀ lease t, ¬ r.Executes key lease t := by
  have hf := Logged.follows_of_reach h
  constructor
  · intro before a between b since g now g' now' hlog ha hb hno
    rcases hf.second_grant hlog ha hb hno with ⟨r, hr, req, expires, hobs, ht, hp⟩ | hclaimed
    · have hmem : ∀ x ∈ a :: between, x ∈ l.log := by
        intro x hx
        rw [hlog]
        simp only [List.mem_cons, List.mem_append] at hx ⊢
        tauto
      obtain ⟨htoken, hfence⟩ := l.presents hcollision (hmem a List.mem_cons_self)
        (hmem r (List.mem_cons_of_mem _ hr)) ha hobs hp
      exact Or.inl ⟨r, hr, req, expires, hobs, ht, htoken, hfence⟩
    · exact Or.inr hclaimed
  · intro before a since req expires hlog ha ht hno
    exact hf.no_later_grant hlog ha ht hno

namespace Sample

/-- A worker's transition, with the token that was drawn for the acquire `n`. -/
def transition (id : Uuid) (t : EffectTransition) (n : Nat) (fence : Int) : Call :=
  .transition id
    { transition := t, leaseToken := some (generateLeaseToken (draws n).token)
      fencingToken := fence, leaseDurationSeconds := none, result := none
      externalReceipt := none, failure := none }
    { canReconcile := false, canAdmin := false }

def orderKey : EffectKey :=
  { tenantId := "tenant", projectId := "project", scope := "payments"
    idempotencyKey := "order-0001" }

/-- An effect is granted, given back as failed, and granted again. -/
def retried : List Sys.Action :=
  spawn (acquire "order-0001" none) :: steps 0 1 4
    ++ spawn (transition 1 .failRetryable 1 1) :: steps 1 2 4
    ++ spawn (acquire "order-0001" none) :: steps 2 3 4

end Sample

namespace Return

/-- The key of what the call shows, and whether it is a grant. -/
def summary (r : Return) : Option (EffectKey × Bool) :=
  r.task.observe.map fun p => (p.1, p.2.isExecute)

/-- The key and the transition that the call got through with. -/
def moved (r : Return) : Option (EffectKey × EffectTransition) :=
  match r.task.observe with
  | some (key, .transition req _) => some (key, req.transition)
  | _ => none

theorem transitions_of_moved {t : EffectTransition} (h : r.moved = some (key, t)) :
    ∃ req expires, r.Transitions key req expires ∧ req.transition = t := by
  unfold moved at h
  split at h
  · next req expires hobs =>
    cases h
    exact ⟨req, expires, hobs, rfl⟩
  · cases h

theorem executes_of_summary (h : r.summary = some (key, true)) :
    ∃ g now, r.Executes key g now := by
  obtain ⟨⟨k, event⟩, hobs, he⟩ := Option.map_eq_some_iff.mp h
  cases event with
  | execute g now =>
    cases he
    exact ⟨g, now, hobs⟩
  | reconcile => cases he
  | transition req expires => cases he

theorem not_executes_of_summary (h : r.summary = some (key, false)) (g : Lease) (t : Int) :
    ¬ r.Executes key g t := by
  intro hx
  rw [summary, hx] at h
  cases h

end Return

/-- A grant that is given back, and granted again. -/
theorem one_executor_given_back :
    ∃ l a b c g now g' now',
      Reach (Logged.step Sample.env) (fun l a => l.sys.unpruned a = true) .init l ∧
      l.log = [a, b, c] ∧ a.Executes orderKey g now ∧ c.Executes orderKey g' now' ∧
      ((∃ r ∈ [b], ∃ req expires, r.Transitions orderKey req expires ∧
        req.transition = .failRetryable ∧ req.leaseToken = some g.token ∧
        req.fencingToken = g.fence) ∨
      ∃ effect, c.effectOf orderKey = some effect ∧ effect.state = .claimed ∧
        effect.leaseExpiresAtMs = some (g.after (eventsFor orderKey [b])).expiresAtMs ∧
        (g.after (eventsFor orderKey [b])).expiresAtMs ≤ now') := by
  have hrun : ((Lib.run (Logged.step Sample.env) (fun l a => l.sys.unpruned a) .init
      retried).map fun l => (l.noCollision Sample.env, l.log.map Return.summary))
      = some (true, [some (orderKey, true), some (orderKey, false), some (orderKey, true)]) := by
    decide +kernel
  obtain ⟨l, hreach, he⟩ := exists_reach_of_run hrun
  obtain ⟨hcollision, hlog⟩ := Prod.mk.inj he
  obtain ⟨a, rest, hlog₁, ha, hrest⟩ := List.map_eq_cons_iff.mp hlog
  obtain ⟨b, rest, rfl, hb, hrest⟩ := List.map_eq_cons_iff.mp hrest
  obtain ⟨c, rest, rfl, hc, hrest⟩ := List.map_eq_cons_iff.mp hrest
  obtain rfl := List.map_eq_nil_iff.mp hrest
  obtain ⟨g, now, ha⟩ := Return.executes_of_summary ha
  obtain ⟨g', now', hc⟩ := Return.executes_of_summary hc
  refine ⟨l, a, b, c, g, now, g', now', hreach, hlog₁, ha, hc, ?_⟩
  refine (one_executor Sample.env hreach hcollision orderKey).1 [] a [b] c [] g now g' now'
    hlog₁ ha hc ?_
  intro r hr
  rw [List.mem_singleton.mp hr]
  exact Return.not_executes_of_summary hb

/-- Only a step with which its call succeeds changes the indexes. -/
theorem Sys.InFlight.indexes_step {s s' : Sys} {action : Sys.Action} {i : Nat} {task : Task}
    {I : Indexes → Prop} (hf : s.InFlight I Indexes.Fits) (h : s.step env action = some s')
    (haction : action.task = some i) (hi : s'.tasks[i]? = some task)
    (hpc : ∀ response persisted, task.pc ≠ .done (.ok response) persisted) :
    s'.ledger.indexes = s.ledger.indexes := by
  cases step_moves h with
  | commit hj hpc' =>
    rename_i j task₀ draws kind response position
    obtain rfl : j = i := Option.some.inj haction
    have hfits := hf.2 j kind (pendingAt_of_pc hj (by rw [hpc']; rfl))
    change (s.tasks.set j _)[j]? = some task at hi
    rw [getElem?_set_of_some hj, if_pos rfl, commit_ok hfits.apply_ok] at hi
    cases hi
    exact absurd rfl (hpc response (some kind))
  | reopen ho => cases haction
  | _ => rfl

/--
**Fencing.** Of two grants for a key, or for an effect, the later one has the higher fencing
token. A worker's transition succeeds only with the token and the fence of the latest grant, on
an effect that is `claimed` or `in_progress`. And a step of a call changes effects, runs or
timelines only if the call succeeds with that step.
-/
theorem fences_hold (env : Env) {l : Logged}
    (h : Reach (Logged.step env) (fun l a => l.sys.unpruned a = true) .init l)
    (hcollision : l.noCollision env = true) :
    (∀ before (a : Return) between (b : Return) since key g now key' g' now',
      l.log = before ++ a :: (between ++ b :: since) →
      a.Executes key g now → b.Executes key' g' now' →
      key = key' ∨ g.effectId = g'.effectId → g.fence < g'.fence) ∧
    (∀ before (r : Return) since key req expires, l.log = before ++ r :: since →
      r.Transitions key req expires → req.transition.isWorkerTransition = true →
      ∃ earlier, ∃ a : Return, ∃ between g now, before = earlier ++ a :: between ∧
        a.Executes key g now ∧ (∀ x ∈ between, ∀ lease t, ¬ x.Executes key lease t) ∧
        req.leaseToken = some g.token ∧ req.fencingToken = g.fence ∧
        ∃ effect, r.effectOf key = some effect ∧ effect.id = g.effectId ∧
          (effect.state = .claimed ∨ effect.state = .inProgress)) ∧
    ∀ action s' i (task : Task), l.sys.unpruned action = true →
      l.sys.step env action = some s' → action.task = some i → s'.tasks[i]? = some task →
      (∀ response persisted, task.pc ≠ .done (.ok response) persisted) →
      s'.ledger.indexes = l.sys.ledger.indexes := by
  have hf := Logged.follows_of_reach h
  have hsys := Logged.reach_sys (P := fun s a => s.unpruned a = true) h
  have hfits := Sys.fits_of_reach (Sys.unpruned_reach hsys)
  refine ⟨?_, ?_, ?_⟩
  · intro before a between b since key g now key' g' now' hlog ha hb hsame
    have hkey : key = key' := by
      rcases hsame with hkey | hid
      · exact hkey
      · exact hf.key_eq (Sys.PartitionLock.of_reach hsys).bound hfits.1.1 hlog ha hb hid
    subst hkey
    refine (Custody.fence_lt (hf.since_grant hlog ha) (mem_eventsFor.mpr ⟨b, ?_, hb⟩)).1
    simp
  · intro before r since key req expires hlog hr hworker
    obtain ⟨earlier, a, between, g, now, rfl, ha, hno, hp, heffect⟩ := hf.holder hlog hr hworker
    refine ⟨earlier, a, between, g, now, rfl, ha, hno, ?_⟩
    obtain ⟨htoken, hfence⟩ := l.presents hcollision (by rw [hlog]; simp) (by rw [hlog]; simp)
      ha hr hp
    exact ⟨htoken, hfence, heffect⟩
  · intro action s' i task hcond hstep haction hi hpc
    exact hfits.indexes_step hstep haction hi hpc

/-- The first holder comes back after the effect was granted again, and is turned away; the second
one starts. -/
theorem fences_hold_after_reacquire :
    ∃ l a b c d e g now g' now' req expires,
      Reach (Logged.step Sample.env) (fun l a => l.sys.unpruned a = true) .init l ∧
      l.log = [a, b, c, d, e] ∧ a.Executes orderKey g now ∧
      c.Executes orderKey g' now' ∧ g.fence < g'.fence ∧
      d.task.observe = none ∧ e.Transitions orderKey req expires ∧
      req.transition = .start ∧
      (∃ earlier a' between g₀ now₀, [a, b, c, d] = earlier ++ a' :: between ∧
        a'.Executes orderKey g₀ now₀ ∧ req.leaseToken = some g₀.token ∧
        req.fencingToken = g₀.fence) ∧
      ∀ action s' i (task : Task), l.sys.unpruned action = true →
        l.sys.step Sample.env action = some s' → action.task = some i →
        s'.tasks[i]? = some task →
        (∀ response persisted, task.pc ≠ .done (.ok response) persisted) →
        s'.ledger.indexes = l.sys.ledger.indexes := by
  have hrun : ((Lib.run (Logged.step Sample.env) (fun l a => l.sys.unpruned a) .init
      (retried ++ spawn (Sample.transition 1 .start 1 1) :: steps 3 4 2
        ++ spawn (Sample.transition 1 .start 3 2) :: steps 4 5 4)).map fun l =>
          (l.noCollision Sample.env, l.log.map Return.summary, l.log.getLast?.bind Return.moved))
      = some (true, [some (orderKey, true), some (orderKey, false),
          some (orderKey, true), none, some (orderKey, false)],
          some (orderKey, .start)) := by
    decide +kernel
  obtain ⟨l, hreach, he⟩ := exists_reach_of_run hrun
  obtain ⟨hcollision, he⟩ := Prod.mk.inj he
  obtain ⟨hlog, hlast⟩ := Prod.mk.inj he
  obtain ⟨a, rest, hlog₁, ha, hrest⟩ := List.map_eq_cons_iff.mp hlog
  obtain ⟨b, rest, rfl, hb, hrest⟩ := List.map_eq_cons_iff.mp hrest
  obtain ⟨c, rest, rfl, hc, hrest⟩ := List.map_eq_cons_iff.mp hrest
  obtain ⟨d, rest, rfl, hd, hrest⟩ := List.map_eq_cons_iff.mp hrest
  obtain ⟨e, rest, rfl, -, hrest⟩ := List.map_eq_cons_iff.mp hrest
  obtain rfl := List.map_eq_nil_iff.mp hrest
  obtain ⟨g, now, ha⟩ := Return.executes_of_summary ha
  obtain ⟨g', now', hc⟩ := Return.executes_of_summary hc
  rw [hlog₁] at hlast
  obtain ⟨req, expires, hstart, ht⟩ := Return.transitions_of_moved hlast
  obtain ⟨hfence, hholder, herror⟩ := fences_hold Sample.env hreach hcollision
  refine ⟨l, a, b, c, d, e, g, now, g', now', req, expires, hreach, hlog₁, ha, hc, ?_,
    Option.map_eq_none_iff.mp hd, hstart, ht, ?_, herror⟩
  · exact hfence [] a [b] c [d, e] _ g now _ g' now' hlog₁ ha hc (Or.inl rfl)
  · obtain ⟨earlier, a', between, g₀, now₀, hsplit, hexecutes, -, htoken, hfence', -⟩ :=
      hholder [a, b, c, d] e [] _ req expires hlog₁ hstart (by rw [ht]; rfl)
    exact ⟨earlier, a', between, g₀, now₀, hsplit, hexecutes, htoken, hfence'⟩

end Calod.Ledger
