import Calod.Ledger.Model

/-!
# The lease protocol

What leases and fencing tokens are for, apart from how effects are stored. The custody of a key
is the latest grant and where it stands. A grant is claimed, then started; it is given back by
`fail_retryable`, or closed by any other outcome, known or not.

`Allows` says which event may happen in which custody:

* a new grant — the first one, after the last one was given back, or after the last one expired
  while it was only claimed
* a worker's transition — with the token and the fence of the latest grant, while it is open
* reconciliation — of a closed grant

The results here are about every sequence of allowed events (`Admits`).
`Calod/Ledger/Leases.lean` shows that the ledger only answers with allowed events.
-/

namespace Calod.Ledger

/-- A grant to execute an effect. -/
structure Lease where
  effectId : Uuid
  token : String
  fence : Int
  expiresAtMs : Int

inductive Phase where
  | claimed
  | started
  | returned
  | closed
  deriving DecidableEq, Repr

/-- What the callers see of one key. -/
inductive LeaseEvent where
  /-- `acquire` answered `execute`. -/
  | execute (lease : Lease) (now : Int)
  /-- `acquire` answered `reconcile`. -/
  | reconcile
  /-- A transition succeeded, and left the lease to expire at the given time. -/
  | transition (req : UpdateEffectRequest) (expiresAtMs : Option Int)

/-- The latest grant of a key, if there was one. -/
abbrev Custody := Option (Lease × Phase)

namespace LeaseEvent

def isExecute : LeaseEvent → Bool
  | .execute _ _ => true
  | _ => false

def isFailRetryable : LeaseEvent → Bool
  | .transition req _ => req.transition = .failRetryable
  | _ => false

/-- The lease of a grant after the event, which may have renewed it. -/
def renews (lease : Lease) : LeaseEvent → Lease
  | .transition req expiresAtMs =>
    if req.transition = .renew then
      { lease with expiresAtMs := expiresAtMs.getD lease.expiresAtMs }
    else lease
  | _ => lease

end LeaseEvent

/-- Where the grant stands after an event other than a new grant. -/
def Phase.next (phase : Phase) : LeaseEvent → Phase
  | .execute _ _ => .claimed
  | .reconcile => .closed
  | .transition req _ =>
    match req.transition with
    | .start => .started
    | .renew => phase
    | .failRetryable => .returned
    | .commit | .failTerminal | .markOutcomeUnknown | .reconcileCommitted | .reconcileFailed =>
      .closed

namespace Custody

def next : Custody → LeaseEvent → Custody
  | _, .execute lease _ => some (lease, .claimed)
  | none, _ => none
  | some (lease, phase), event => some (event.renews lease, phase.next event)

/-- The token and the fence of the lease are presented; tokens are compared by their digest. -/
def Presents (digest : String → String) (lease : Lease) (req : UpdateEffectRequest) : Prop :=
  req.fencingToken = lease.fence ∧
    ∃ token, req.leaseToken = some token ∧ digest token = digest lease.token

/-- Which event may happen in which custody. -/
def Allows (digest : String → String) : Custody → LeaseEvent → Prop
  | none, .execute lease _ => lease.fence = 1
  | some (old, phase), .execute lease now =>
    (phase = .returned ∨ phase = .claimed ∧ old.expiresAtMs ≤ now) ∧
      lease.effectId = old.effectId ∧ lease.fence = old.fence + 1
  | some (_, phase), .reconcile => phase = .started ∨ phase = .closed
  | some (lease, phase), .transition req _ =>
    if req.transition.isWorkerTransition then
      (phase = .claimed ∨ phase = .started ∧ req.transition ≠ .start) ∧ Presents digest lease req
    else phase = .closed
  | none, _ => False

/-- A sequence of events, each allowed when it happens. -/
def Admits (digest : String → String) : Custody → List LeaseEvent → Prop
  | _, [] => True
  | c, event :: events => c.Allows digest event ∧ Admits digest (c.next event) events

def after (c : Custody) (events : List LeaseEvent) : Custody := events.foldl next c

end Custody

/-- The lease of a grant after the renewals in `events`. -/
def Lease.after (lease : Lease) (events : List LeaseEvent) : Lease :=
  events.foldl LeaseEvent.renews lease

namespace Custody

variable {digest : String → String} {c : Custody} {lease : Lease}
  {phase : Phase} {event : LeaseEvent} {events : List LeaseEvent}

theorem after_append (a b : List LeaseEvent) :
    c.after (a ++ b) = (c.after a).after b :=
  List.foldl_append

theorem admits_append {a b : List LeaseEvent} :
    c.Admits digest (a ++ b) ↔
      c.Admits digest a ∧ (c.after a).Admits digest b := by
  induction a generalizing c with
  | nil => simp [Admits, after]
  | cons event a ih =>
    rw [List.cons_append, Admits, Admits, ih, and_assoc]
    rfl

/-! ## Between two grants -/

theorem next_execute (c : Custody) (now : Int) :
    c.next (.execute lease now) = some (lease, .claimed) := by
  cases c <;> rfl

/-- Without a new grant the custody stays with the lease, renewed now and then. -/
theorem next_of_not_execute (lease : Lease) (phase : Phase)
    (h : event.isExecute = false) :
    next (some (lease, phase)) event
      = some (event.renews lease, phase.next event) := by
  cases event with
  | execute g now => cases h
  | reconcile => rfl
  | transition req now => rfl

theorem after_of_no_execute (lease : Lease) (phase : Phase)
    (h : ∀ event ∈ events, event.isExecute = false) :
    after (some (lease, phase)) events
      = some (lease.after events, events.foldl Phase.next phase) := by
  induction events generalizing lease phase with
  | nil => rfl
  | cons event events ih =>
    rw [after, List.foldl_cons, next_of_not_execute _ _ (h event List.mem_cons_self)]
    exact ih _ _ fun e he => h e (List.mem_cons_of_mem _ he)

/-- Renewing changes neither the effect nor token nor fence. -/
theorem renews_frame (lease : Lease) (event : LeaseEvent) :
    (event.renews lease).effectId = lease.effectId ∧
      (event.renews lease).token = lease.token ∧
      (event.renews lease).fence = lease.fence := by
  unfold LeaseEvent.renews
  split
  · split <;> exact ⟨rfl, rfl, rfl⟩
  · exact ⟨rfl, rfl, rfl⟩

theorem lease_after_frame (lease : Lease) (events : List LeaseEvent) :
    (lease.after events).effectId = lease.effectId ∧
      (lease.after events).token = lease.token ∧
      (lease.after events).fence = lease.fence := by
  induction events generalizing lease with
  | nil => exact ⟨rfl, rfl, rfl⟩
  | cons event events ih =>
    obtain ⟨h₁, h₂, h₃⟩ := ih (event.renews lease)
    obtain ⟨g₁, g₂, g₃⟩ := renews_frame lease event
    exact ⟨h₁.trans g₁, h₂.trans g₂, h₃.trans g₃⟩

theorem presents_renews {req : UpdateEffectRequest} :
    Presents digest (event.renews lease) req ↔ Presents digest lease req := by
  obtain ⟨-, htoken, hfence⟩ := renews_frame lease event
  rw [Presents, Presents, htoken, hfence]

theorem phase_next_cases (hexecute : event.isExecute = false)
    (hfail : event.isFailRetryable = false) :
    phase.next event = phase ∨ phase.next event = .started ∨ phase.next event = .closed := by
  cases event with
  | execute g now => cases hexecute
  | reconcile => exact Or.inr (Or.inr rfl)
  | transition req now =>
    have hne : req.transition ≠ .failRetryable := by simpa [LeaseEvent.isFailRetryable] using hfail
    unfold Phase.next
    cases ht : req.transition <;> simp_all

/-- **Between two grants a lease is given back by its holder only.** -/
theorem exists_failRetryable {lease' : Lease} (ha : Admits digest (some (lease, phase)) events)
    (hno : ∀ event ∈ events, event.isExecute = false) (hphase : phase ≠ .returned)
    (h : after (some (lease, phase)) events = some (lease', .returned)) :
    ∃ req now, .transition req now ∈ events ∧ req.transition = .failRetryable ∧
      Presents digest lease req := by
  induction events generalizing lease phase with
  | nil =>
    cases h
    exact absurd rfl hphase
  | cons event events ih =>
    obtain ⟨hallow, hadmit⟩ := ha
    have hexecute := hno event List.mem_cons_self
    rw [next_of_not_execute _ _ hexecute] at hadmit
    rw [after, List.foldl_cons, next_of_not_execute _ _ hexecute] at h
    by_cases hfail : event.isFailRetryable = true
    · cases event with
      | execute g now => cases hfail
      | reconcile => cases hfail
      | transition req now =>
        have ht : req.transition = .failRetryable := by
          simpa [LeaseEvent.isFailRetryable] using hfail
        simp only [Allows, ht, EffectTransition.isWorkerTransition, if_true] at hallow
        exact ⟨req, now, List.mem_cons_self, ht, hallow.2⟩
    · have hne : phase.next event ≠ .returned := by
        rcases phase_next_cases hexecute (Bool.eq_false_of_not_eq_true hfail) with he | he | he
        · rwa [he]
        · simp [he]
        · simp [he]
      obtain ⟨req, now, hm, ht, hp⟩ :=
        ih hadmit (fun e he => hno e (List.mem_cons_of_mem _ he)) hne h
      exact ⟨req, now, List.mem_cons_of_mem _ hm, ht, presents_renews.mp hp⟩

/-! ## Fences -/

/-- **Every later grant is of the same effect and has a higher fence.** -/
theorem fence_lt {g : Lease} {now : Int} (ha : Admits digest (some (lease, phase)) events)
    (hg : .execute g now ∈ events) : lease.fence < g.fence ∧ g.effectId = lease.effectId := by
  induction events generalizing lease phase with
  | nil => cases hg
  | cons event events ih =>
    obtain ⟨hallow, hadmit⟩ := ha
    by_cases he : event.isExecute = true
    · cases event with
      | execute first t =>
        obtain ⟨-, hid, hfence⟩ := hallow
        rcases List.mem_cons.mp hg with heq | hg
        · cases heq
          exact ⟨by omega, hid⟩
        · obtain ⟨hlt, hid'⟩ := ih hadmit hg
          exact ⟨by omega, hid'.trans hid⟩
      | reconcile => cases he
      | transition req t => cases he
    · rw [next_of_not_execute _ _ (Bool.eq_false_of_not_eq_true he)] at hadmit
      obtain ⟨hid, -, hfence⟩ := renews_frame lease event
      rcases List.mem_cons.mp hg with heq | hg
      · subst heq
        exact absurd rfl he
      · obtain ⟨hlt, hid'⟩ := ih hadmit hg
        exact ⟨hfence ▸ hlt, hid'.trans hid⟩

/-- The custody stays with one effect. -/
theorem after_effectId (ha : Admits digest (some (lease, phase)) events) :
    ∃ lease' phase', after (some (lease, phase)) events = some (lease', phase') ∧
      lease'.effectId = lease.effectId := by
  induction events generalizing lease phase with
  | nil => exact ⟨lease, phase, rfl, rfl⟩
  | cons event events ih =>
    obtain ⟨hallow, hadmit⟩ := ha
    by_cases he : event.isExecute = true
    · cases event with
      | execute g now =>
        obtain ⟨lease', phase', hafter, hid⟩ := ih hadmit
        exact ⟨lease', phase', hafter, hid.trans hallow.2.1⟩
      | reconcile => cases he
      | transition req expires => cases he
    · have hnext := next_of_not_execute lease phase (Bool.eq_false_of_not_eq_true he)
      rw [hnext] at hadmit
      obtain ⟨lease', phase', hafter, hid⟩ := ih hadmit
      refine ⟨lease', phase', ?_, hid.trans (renews_frame lease event).1⟩
      rw [← hafter, after, List.foldl_cons, hnext]
      rfl

/-- **A grant that was started, or whose outcome is recorded, is the last one**, unless it is
given back. -/
theorem no_execute (hphase : phase = .started ∨ phase = .closed)
    (ha : Admits digest (some (lease, phase)) events)
    (hno : ∀ event ∈ events, event.isFailRetryable = false) :
    ∀ event ∈ events, event.isExecute = false := by
  induction events generalizing lease phase with
  | nil =>
    intro event h
    cases h
  | cons event events ih =>
    obtain ⟨hallow, hadmit⟩ := ha
    have hexecute : event.isExecute = false := by
      cases event with
      | execute g now =>
        obtain ⟨hp | ⟨hp, -⟩, -⟩ := hallow <;> rw [hp] at hphase <;> simp at hphase
      | reconcile => rfl
      | transition req now => rfl
    have hnext : phase.next event = .started ∨ phase.next event = .closed := by
      rcases phase_next_cases hexecute (hno event List.mem_cons_self) with he | he
      · rwa [he]
      · exact he
    rw [next_of_not_execute _ _ hexecute] at hadmit
    intro e hm
    rcases List.mem_cons.mp hm with rfl | hm
    · exact hexecute
    · exact ih hnext hadmit (fun e he => hno e (List.mem_cons_of_mem _ he)) e hm

/-! ## The latest grant -/

/-- The custody is about the latest grant, with its renewals. -/
theorem exists_execute (h : after none events = some (lease, phase)) :
    ∃ before g now since, events = before ++ .execute g now :: since ∧
      (∀ event ∈ since, event.isExecute = false) ∧ lease = g.after since := by
  induction events using List.reverseRecOn generalizing lease phase with
  | nil => cases h
  | append_singleton events event ih =>
    rw [after_append] at h
    change next (after none events) event = _ at h
    cases hprev : after none events with
    | none =>
      rw [hprev] at h
      cases event with
      | execute g now =>
        cases h
        refine ⟨events, lease, now, [], by simp, ?_, rfl⟩
        intro e he
        cases he
      | reconcile => cases h
      | transition req now => cases h
    | some prev =>
      obtain ⟨lease₀, phase₀⟩ := prev
      rw [hprev] at h
      by_cases he : event.isExecute = true
      · cases event with
        | execute g now =>
          cases h
          refine ⟨events, lease, now, [], by simp, ?_, rfl⟩
          intro e he
          cases he
        | reconcile => cases he
        | transition req now => cases he
      · rw [next_of_not_execute _ _ (Bool.eq_false_of_not_eq_true he)] at h
        cases h
        obtain ⟨before, g, now, since, hsplit, hno, hlease⟩ := ih hprev
        refine ⟨before, g, now, since ++ [event], by simp [hsplit], ?_, ?_⟩
        · intro e hm
          rcases List.mem_append.mp hm with hm | hm
          · exact hno e hm
          · rw [List.mem_singleton.mp hm]
            exact Bool.eq_false_of_not_eq_true he
        · rw [Lease.after, List.foldl_append]
          exact congrArg (fun l => event.renews l) hlease

end Custody

end Calod.Ledger
