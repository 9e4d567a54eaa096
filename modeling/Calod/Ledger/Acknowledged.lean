import Calod.Ledger.Heads

/-!
# Acknowledged events

A call that returned success may owe a run an event: `append_event` on it, or an `acquire` or
`transition` that changed an effect of the run (`owed`). `apply_event` drops an event whose
sequence is taken, so a record that was built on an old head is acknowledged and leaves no
event (`acknowledged_event_lost`).

* `acknowledged_events_stored` — as long as no event is applied while another call holds an
  event or an update of the same run, every such call has its own event in the timeline.
-/

namespace Calod.Ledger

open Lib Ledger.Sample Sys

/-! ## What a returned call owes -/

/-- The run that a successful call owes an event, given the record it persisted. -/
def owed : Request → Option RecordKind → Option Uuid
  | .call _ (.appendEvent runId _), _ => some runId
  | _, some (.effectApplied effect _) => effect.runId
  | _, _ => none

namespace Task

/-- The run that the call owes an event, once it has returned successfully. -/
def owed (task : Task) : Option Uuid :=
  match task.pc with
  | .done (.ok _) persisted => Calod.Ledger.owed task.request persisted
  | _ => none

/-- The event in the record of a call that has returned successfully. -/
def event (task : Task) : Option EventRecord :=
  match task.pc with
  | .done (.ok _) (some kind) => kind.event
  | _ => none

end Task

/-- The record carries the event that is owed. -/
def Pays (request : Request) (persisted : Option RecordKind) : Prop :=
  ∀ r, owed request persisted = some r →
    ∃ event, persisted.bind RecordKind.event = some event ∧ event.runId = r

/-- `append_event` decides on its record at once. -/
def Request.appends : Request → Bool
  | .call _ (.appendEvent _ _) => true
  | _ => false

/-- Wherever the task stands, its record (if it has one) pays what the call will owe. -/
def Task.Pays (task : Task) : Prop :=
  match task.pc with
  | .waitEffectRun _ _ _ _ => task.request.appends = false
  | .waitCommit kind _ | .appended kind _ _ => Calod.Ledger.Pays task.request (some kind)
  | .done (.ok _) persisted => Calod.Ledger.Pays task.request persisted
  | _ => True

variable {env : Env} {idx : Indexes} {scope : Scope} {draws : Draws} {call : Call}
  {response : Response} {kind : RecordKind}

variable {request : Request} {change : EffectChange} {event : EventRecord} {other : RecordKind}

theorem pays_of_not_appends {persisted : Option RecordKind} (h : request.appends = false)
    (he : persisted.bind RecordKind.effect = none) : Pays request persisted := by
  intro r hr
  unfold owed at hr
  split at hr
  · cases h
  · cases he
  · cases hr

theorem appends_of_answer (h : call.underLock env idx scope draws = .ok (.answer response)) :
    (Request.call scope call).appends = false := by
  cases call with
  | appendEvent runId req =>
    obtain ⟨_, -, he⟩ := map_eq_ok.mp h
    cases he
  | _ => rfl

theorem appends_of_effect (h : call.underLock env idx scope draws = .ok (.effect change response)) :
    (Request.call scope call).appends = false := by
  cases call with
  | appendEvent runId req =>
    obtain ⟨_, -, he⟩ := map_eq_ok.mp h
    cases he
  | _ => rfl

theorem pays_of_persist (hk : idx.Keyed)
    (h : call.underLock env idx scope draws = .ok (.persist kind response)) :
    Pays (.call scope call) (some kind) := by
  have heffect := (built_of_persist h).2.1
  cases persists_of_underLock h with
  | appendEvent req hrun hevent =>
    rintro r ⟨⟩
    exact ⟨_, rfl, hevent ▸ hk.runs _ _ (runInScope_ok.mp hrun).1⟩
  | _ => exact pays_of_not_appends rfl heffect

theorem pays_of_effect {now : Int} {eventId : Uuid} {event : Option EventRecord} (hk : idx.Keyed)
    (hrequest : request.appends = false)
    (h : buildEffectEvent env.crates idx scope change now eventId = .ok event) :
    Pays request (some (.effectApplied change.effect event)) := by
  intro r hr
  have hrun : change.effect.runId = some r := by
    unfold owed at hr
    split at hr
    · cases hrequest
    · next heq =>
      cases heq
      exact hr
    · cases hr
  cases event with
  | none =>
    rw [buildEffectEvent_none h] at hrun
    cases hrun
  | some event =>
    obtain ⟨runId, run, hid, hr, hon⟩ := buildEffectEvent_on h
    rw [hrun] at hid
    cases hid
    exact ⟨event, rfl, hon.runId.trans (hk.runs r run (runInScope_ok.mp hr).1)⟩

namespace Sys

variable {s s' : Sys} {action : Action}

/-- Every step keeps this for all tasks. -/
theorem Moves.pays (hk : s.ledger.indexes.Keyed) (h : Moves env s action s')
    (hp : ∀ task ∈ s.tasks, task.Pays) : ∀ task ∈ s'.tasks, task.Pays := by
  -- a step that moves one task to `task'`
  have hset : ∀ {i} {task'}, task'.Pays → ∀ task ∈ s.tasks.set i task', task.Pays := by
    intro i task' ht task htask
    rcases List.mem_or_eq_of_mem_set htask with hm | rfl
    · exact hp task hm
    · exact ht
  cases h with
  | spawn request =>
    intro task htask
    rcases List.mem_append.mp htask with hm | hm
    · exact hp task hm
    · rw [List.mem_singleton.mp hm]
      exact trivial
  | quiet _ locks hi hrequest hpc =>
    refine hset ?_
    unfold Task.Pays
    split <;> next hpc' => simp [hpc', Pc.Quiet] at hpc ⊢
  | answer hi hrequest hu =>
    refine hset ?_
    have := appends_of_answer hu
    exact pays_of_not_appends (hrequest ▸ this) rfl
  | persist hi hrequest hrequest' hpc hu =>
    refine hset ?_
    unfold Task.Pays
    rw [hpc, hrequest', hrequest]
    exact pays_of_persist hk hu
  | persistRunless hi hrequest hrequest' hpc hrun hu hbefore hdecides =>
    rename_i scope _ draws change _
    refine hset ?_
    unfold Task.Pays
    rw [hpc, hrequest', hrequest]
    have hnone : buildEffectEvent env.crates s.ledger.indexes scope change draws.now
        draws.eventId = .ok none := by
      simp only [buildEffectEvent, hrun]
    exact pays_of_effect hk (appends_of_effect hu) hnone
  | waitEffectRun locks hi hrequest hrequest' hpc hu =>
    refine hset ?_
    unfold Task.Pays
    rw [hpc, hrequest', hrequest]
    exact appends_of_effect hu
  | persistEffect hi hrequest hrequest' hold hpc hevent =>
    refine hset ?_
    have hold' := hp _ (List.mem_of_getElem? hi)
    unfold Task.Pays at hold' ⊢
    rw [hold] at hold'
    rw [hpc, hrequest']
    exact pays_of_effect hk hold' hevent
  | append hi hpc hfree hlen =>
    refine hset ?_
    have hold := hp _ (List.mem_of_getElem? hi)
    unfold Task.Pays at hold
    rw [hpc] at hold
    exact hold
  | commit hi hpc =>
    refine hset ?_
    have hold := hp _ (List.mem_of_getElem? hi)
    unfold Task.Pays at hold
    rw [hpc] at hold
    unfold Sys.commit
    split
    · exact hold
    · exact trivial
  | saveState | list | remove => exact hset trivial
  | saveManifest hi hrequest hpc =>
    rename_i watermark _ _
    refine hset ?_
    cases watermark <;> exact trivial
  | reopen ho =>
    intro task htask
    cases htask

/-! ## Events in flight -/

/-- No event is applied while another call holds an event or an update of the same run. -/
def noRace (s : Sys) (action : Action) : Bool :=
  match s.commits action with
  | some (i, kind) =>
    kind.event.all fun event => s.othersAll i fun other =>
      !other.updatesRun event.runId && !other.appendsTo event.runId
  | none => true

theorem noRace_commits {i : Nat} (h : s.noRace action = true)
    (hc : s.commits action = some (i, kind)) (he : kind.event = some event) {j : Nat} (hne : j ≠ i)
    (hj : s.pendingAt j = some other) :
    (∀ run, other = .runUpdated run → run.id ≠ event.runId) ∧
      ∀ event', other.event = some event' → event'.runId ≠ event.runId := by
  unfold noRace at h
  rw [hc] at h
  simp only [he, Option.all_some] at h
  exact RecordKind.leaves_run (othersAll_pending h hj hne)

end Sys

/-- A pending record that is up to date, with an event that goes right at the end. -/
structure NextInLine (idx : Indexes) (kind : RecordKind) : Prop where
  upToDate : UpToDate idx kind
  sequence : ∀ event, kind.event = some event →
    event.sequence = (idx.timeline event.runId).length + 1
  previous : ∀ event, kind.event = some event →
    event.previousHash = eventLinks.lastHash (idx.timeline event.runId)

theorem Indexes.HeadsExact.nextInLine (hx : idx.HeadsExact) (hb : Built env idx scope kind) :
    NextInLine idx kind := by
  have hevent : ∀ event, kind.event = some event →
      event.sequence = (idx.timeline event.runId).length + 1 ∧
        event.previousHash = eventLinks.lastHash (idx.timeline event.runId) := by
    intro event he
    obtain ⟨r, run, hr, hon⟩ := hb.event_spec he
    obtain ⟨hseq, hhead⟩ := hx.heads r run hr
    rw [hon.runId, hx.keyed.runs r run hr, hon.sequence, hon.previousHash, hseq, hhead]
    exact ⟨rfl, rfl⟩
  exact ⟨hx.upToDate hb, fun event he => (hevent event he).1, fun event he => (hevent event he).2⟩

/-- The event of such a record is stored. -/
theorem NextInLine.timeline_apply (hn : NextInLine idx kind) (he : kind.event = some event) :
    (idx.apply kind).1.timeline event.runId = idx.timeline event.runId ++ [event] := by
  have hpush : ∀ idx' : Indexes, idx'.timeline event.runId = idx.timeline event.runId →
      (idx'.applyEvent event).1.timeline event.runId = idx.timeline event.runId ++ [event] := by
    intro idx' ht
    have hfollows : eventLinks.Follows (idx'.timeline event.runId) event :=
      ⟨_, _, Links.isHead_last _, by rw [ht]; exact hn.sequence event he,
        by rw [ht]; exact hn.previous event he⟩
    rcases Indexes.applyEvent_of_follows hfollows with ⟨hle, -⟩ | ⟨-, -, ha⟩
    · have := hn.sequence event he
      rw [ht] at hle
      omega
    · rw [ha, Indexes.timeline_pushEvent, if_pos rfl, ht]
  cases kind with
  | effectApplied effect ev =>
    obtain rfl : ev = some event := he
    exact hpush (idx.putEffect effect) rfl
  | eventAppended ev =>
    cases he
    exact hpush idx rfl
  | runCreated | runUpdated | checkpointCreated | retentionApplied => cases he

/-- A pending record of another run stays next in line. -/
theorem NextInLine.apply {other : RecordKind} (ho : NextInLine idx other)
    (hretention : kind.isRetention = false)
    (hstale : ∀ event run, kind.event = some event → other = .runUpdated run →
      run.id ≠ event.runId)
    (hrace : ∀ event event', kind.event = some event → other.event = some event' →
      event'.runId ≠ event.runId) :
    NextInLine (idx.apply kind).1 other := by
  have htimeline : ∀ event', other.event = some event' →
      (idx.apply kind).1.timeline event'.runId = idx.timeline event'.runId := by
    intro event' he'
    rcases Indexes.apply_at idx kind event'.runId with ⟨-, ht⟩ | ⟨_, -, -, -, ht⟩ |
        ⟨event, he, hid, -⟩ | ⟨_, _, _, rfl, -⟩
    · exact ht
    · exact ht
    · exact absurd hid.symm (hrace event event' he he')
    · cases hretention
  refine ⟨ho.upToDate.apply hretention hstale, ?_, ?_⟩
  · intro event' he'
    rw [htimeline event' he']
    exact ho.sequence event' he'
  · intro event' he'
    rw [htimeline event' he']
    exact ho.previous event' he'

namespace Sys

variable {s s' : Sys} {action : Action}

theorem nextInLine_of_reach
    (h : Reach (step env) (fun s a => (s.live a && s.noRace a) = true) init s) :
    InFlight Indexes.HeadsExact NextInLine s := by
  refine inFlight_of_reach ?_ Indexes.headsExact_empty ?_ ?_ ?_ h
  · intro s keep hc
    exact absurd (Bool.and_eq_true_iff.mp hc).1 live_ne_reopen
  · intro idx scope kind hx hb
    exact hx.nextInLine hb
  · intro s action i kind hc hcommits hi
    obtain ⟨hret, hfresh⟩ := live_commits (Bool.and_eq_true_iff.mp hc).1 hcommits
    exact hi.1.apply (hi.2 i kind (commits_pending hcommits)).upToDate hret hfresh
  · intro s action i kind j other hc hcommits hi hne hj
    obtain ⟨hlive, hrace⟩ := Bool.and_eq_true_iff.mp hc
    refine (hi.2 j other hj).apply (live_commits hlive hcommits).1 ?_ ?_
    · intro event run he ho
      exact (noRace_commits hrace hcommits he hne hj).1 run ho
    · intro event event' he he'
      exact (noRace_commits hrace hcommits he hne hj).2 event' he'

/-! ## Events of returned calls -/

/-- The event of the call of task `i`, once it has returned successfully. -/
def eventAt (s : Sys) (i : Nat) : Option EventRecord := s.tasks[i]?.bind Task.event

/-- A task has its event from before the step, or the step applied its record. -/
theorem Moves.eventAt (h : Moves env s action s') {j : Nat} (he : s'.eventAt j = some event) :
    s.eventAt j = some event ∨
      ∃ kind, s.commits action = some (j, kind) ∧ kind.event = some event ∧
        s'.ledger.indexes = (s.ledger.indexes.apply kind).1 := by
  -- a step that moves one task, which has no event afterwards
  have hset : ∀ {i} {task task'}, s.tasks[i]? = some task →
      s'.tasks = s.tasks.set i task' → task'.event = none →
      s.eventAt j = some event := by
    intro i task task' hi htasks hnone
    rw [Sys.eventAt, htasks, getElem?_set_of_some hi] at he
    split at he
    · rw [Option.bind_some, hnone] at he
      cases he
    · exact he
  cases h with
  | spawn request =>
    left
    unfold Sys.eventAt at he ⊢
    rw [List.getElem?_append] at he
    split at he
    · exact he
    · cases hn : [Task.new request][j - s.tasks.length]? with
      | none => rw [hn] at he; cases he
      | some t =>
        rw [hn] at he
        rw [List.mem_singleton.mp (List.mem_of_getElem? hn)] at he
        cases he
  | quiet _ locks hi hrequest hpc =>
    refine Or.inl (hset hi rfl ?_)
    unfold Task.event
    split
    · next hpc' => simp [hpc', Pc.Quiet] at hpc
    · rfl
  | answer hi | append hi | saveState hi | list hi | remove hi => exact Or.inl (hset hi rfl rfl)
  | persist hi _ _ hpc | persistRunless hi _ _ hpc | waitEffectRun _ hi _ _ hpc
  | persistEffect hi _ _ _ hpc =>
    exact Or.inl (hset hi rfl (by rw [Task.event, hpc]))
  | saveManifest hi hrequest hpc =>
    rename_i watermark _ _
    exact Or.inl (hset hi rfl (by cases watermark <;> rfl))
  | reopen ho => cases he
  | commit hi hpc =>
    rename_i i task draws kind response position
    rw [Sys.eventAt, getElem?_set_of_some hi] at he
    split at he
    · next hij =>
      subst hij
      right
      refine ⟨kind, by simp only [commits, hi, Option.map_some, hpc], ?_⟩
      unfold Sys.commit at he ⊢
      split at he
      · next ha =>
        rw [ha]
        exact ⟨he, rfl⟩
      · cases he
    · exact Or.inl he

/-- Returned calls have their events in the timelines, each its own. -/
structure Stored (s : Sys) : Prop where
  pays : ∀ task ∈ s.tasks, task.Pays
  stored : ∀ i event, s.eventAt i = some event → event ∈ s.ledger.indexes.timeline event.runId
  apart : ∀ i j event event', i ≠ j → s.eventAt i = some event → s.eventAt j = some event' →
    event.runId = event'.runId → event.sequence ≠ event'.sequence

theorem stored_init : Stored init where
  pays task h := by cases h
  stored i event h := by simp [eventAt, init] at h
  apart i j event event' _ h := by simp [eventAt, init] at h

/-- Timelines only grow in live operation. -/
theorem timeline_mono {r : Uuid} (hlive : s.live action = true) (h : s.step env action = some s')
    (he : event ∈ s.ledger.indexes.timeline r) : event ∈ s'.ledger.indexes.timeline r := by
  cases step_indexMove h with
  | same hindexes _ =>
    rw [hindexes]
    exact he
  | commit hcommits _ hindexes _ =>
    rw [hindexes]
    rcases Indexes.apply_at s.ledger.indexes _ r with ⟨-, ht⟩ | ⟨_, -, -, -, ht⟩ |
        ⟨event, -, -, -, -, -, ht⟩ | ⟨_, _, _, hr, -⟩
    · rw [ht]
      exact he
    · rw [ht]
      exact he
    · rw [ht]
      exact List.mem_append_left _ he
    · cases hr ▸ (live_commits hlive hcommits).1
  | reopen haction _ _ =>
    subst haction
    exact absurd hlive live_ne_reopen

theorem Stored.step (hs : Stored s) (hf : InFlight Indexes.HeadsExact NextInLine s)
    (hl : ∀ r, eventLinks.Linked (s.ledger.indexes.timeline r)) (hlive : s.live action = true)
    (h : s.step env action = some s') : Stored s' := by
  have hmoves := step_moves h
  -- a task that has its event from this step has it at the end of its timeline
  have hnew : ∀ {j} {kind} {event},
      s.commits action = some (j, kind) → kind.event = some event →
      event.sequence = (s.ledger.indexes.timeline event.runId).length + 1 ∧
        (s.ledger.indexes.apply kind).1.timeline event.runId
          = s.ledger.indexes.timeline event.runId ++ [event] := by
    intro j kind event hc he
    have hn := hf.2 j kind (commits_pending hc)
    exact ⟨hn.sequence event he, hn.timeline_apply he⟩
  have hold : ∀ {j} {event}, s.eventAt j = some event →
      event.sequence ≤ (s.ledger.indexes.timeline event.runId).length :=
    fun he => (hl _).sequence_le (hs.stored _ _ he)
  refine ⟨hmoves.pays hf.1.keyed hs.pays, fun j event he => ?_, ?_⟩
  · rcases hmoves.eventAt he with he | ⟨kind, hc, hk, hindexes⟩
    · exact timeline_mono hlive h (hs.stored j event he)
    · rw [hindexes, (hnew hc hk).2]
      exact List.mem_append_right _ (List.mem_singleton.mpr rfl)
  · intro i j event event' hij he he' hrun hseq
    rcases hmoves.eventAt he with he | ⟨kind, hc, hk, -⟩
    · rcases hmoves.eventAt he' with he' | ⟨kind', hc', hk', -⟩
      · exact hs.apart i j event event' hij he he' hrun hseq
      · have h₁ := hold he
        have h₂ := (hnew hc' hk').1
        rw [hrun] at h₁
        omega
    · rcases hmoves.eventAt he' with he' | ⟨kind', hc', hk', -⟩
      · have h₁ := hold he'
        have h₂ := (hnew hc hk).1
        rw [hrun] at h₂
        omega
      · rw [hc] at hc'
        exact hij (Prod.mk.inj (Option.some.inj hc')).1

theorem stored_of_reach
    (h : Reach (step env) (fun s a => (s.live a && s.noRace a) = true) init s) :
    Stored s := by
  refine h.invariant_of_reach stored_init ?_
  intro s action s' hreach hi hc hstep
  have hchained := (Sound.of_reach hreach).chained
  exact hi.step (nextInLine_of_reach hreach) (fun r => (hchained r).1)
    (Bool.and_eq_true_iff.mp hc).1 hstep

end Sys

/--
**Every acknowledged event is stored, once, and distinct calls have distinct events**, as long
as no event is applied while another call holds an event or an update of the same run.
-/
theorem acknowledged_events_stored (env : Env) {s : Sys}
    (h : Reach (step env) (fun s a => (s.live a && s.noRace a) = true) init s)
    {i : Nat} {task : Task} {r : Uuid} (hi : s.tasks[i]? = some task) (hr : task.owed = some r) :
    ∃ event, task.event = some event ∧ event.runId = r ∧
      (∃! k : Nat, (s.ledger.indexes.timeline r)[k]? = some event) ∧
      ∀ j task', j ≠ i → s.tasks[j]? = some task' → task'.owed = some r →
        task'.event ≠ some event := by
  have hs := stored_of_reach h
  have hl := ((Sound.of_reach h).chained r).1
  -- what the task owes, its record carries
  have hpaid : ∀ {task}, task ∈ s.tasks → task.owed = some r →
      ∃ event, task.event = some event ∧ event.runId = r := by
    intro task hm hr
    have hp := hs.pays task hm
    unfold Task.owed at hr
    unfold Task.Pays at hp
    unfold Task.event
    split at hr
    · next persisted hpc =>
      rw [hpc] at hp ⊢
      obtain ⟨event, he, hid⟩ := hp r hr
      cases persisted with
      | none => cases he
      | some kind => exact ⟨event, he, hid⟩
    · cases hr
  have hat : ∀ {j} {task} {event}, s.tasks[j]? = some task →
      task.event = some event → s.eventAt j = some event := by
    intro j task event hj he
    rw [Sys.eventAt, hj, Option.bind_some, he]
  obtain ⟨event, he, hid⟩ := hpaid (List.mem_of_getElem? hi) hr
  refine ⟨event, he, hid, ?_, ?_⟩
  · have hm := hs.stored i event (hat hi he)
    rw [hid] at hm
    obtain ⟨k, hk⟩ := List.mem_iff_getElem?.mp hm
    exact ⟨k, hk, fun k' hk' => hl.index_eq hk' hk⟩
  · intro j task' hne hj hr' he'
    exact hs.apart i j event event (Ne.symm hne) (hat hi he) (hat hj he') rfl rfl

/-- Two effects of one run acquired in turn: both calls have their event. -/
theorem acknowledged_events_stored_in_turn :
    ∃ s task event,
      Reach (step Sample.env) (fun s a => (s.live a && s.noRace a) = true) init s ∧
      s.tasks[2]? = some task ∧ task.owed = some 1 ∧ task.event = some event ∧
      (s.ledger.indexes.timeline 1).length = 2 ∧
      ∃! k : Nat, (s.ledger.indexes.timeline 1)[k]? = some event := by
  have hrun : ((Lib.run (step Sample.env) (fun s a => s.live a && s.noRace a) init
      (Sample.spawn Sample.createRun :: steps 0 1 3
        ++ Sample.spawn (acquire "order-0001" (some 1)) :: steps 1 2 5
        ++ Sample.spawn (acquire "order-0002" (some 1)) :: steps 2 3 5)).map fun s =>
          (s.tasks[2]?.bind Task.owed, (s.ledger.indexes.timeline 1).length))
        = some (some 1, 2) := by
    decide +kernel
  obtain ⟨s, hreach, he⟩ := exists_reach_of_run hrun
  obtain ⟨howed, hlen⟩ := Prod.mk.inj he
  obtain ⟨task, hi, hr⟩ := Option.bind_eq_some_iff.mp howed
  obtain ⟨event, hevent, -, hk, -⟩ := acknowledged_events_stored Sample.env hreach hi hr
  exact ⟨s, task, event, hreach, hi, hr, hevent, hlen, hk⟩

/--
**Two acquires that overlap lose an event.** Both build event 1 of the run, one after the other
under the run lock, and commit afterwards; the second event is dropped and its call succeeds.
-/
theorem acknowledged_event_lost :
    ∃ s, Reach (step Sample.env) (fun s a => s.live a = true) init s ∧
      s.tasks.map Task.owed = [none, some 1, some 1] ∧
      (s.ledger.indexes.timeline 1).length = 1 := by
  have hrun : ((Lib.run (step Sample.env) live init
      (Sample.spawn Sample.createRun :: steps 0 1 3
        ++ Sample.spawn (acquire "order-0001" (some 1)) :: steps 1 2 3
        ++ Sample.spawn (acquire "order-0002" (some 1)) :: steps 2 3 3
        ++ steps 1 2 2 ++ steps 2 3 2)).map fun s =>
          (s.tasks.map Task.owed, (s.ledger.indexes.timeline 1).length))
        = some ([none, some 1, some 1], 1) := by
    decide +kernel
  obtain ⟨s, hreach, he⟩ := exists_reach_of_run hrun
  obtain ⟨howed, hlen⟩ := Prod.mk.inj he
  exact ⟨s, hreach, howed, hlen⟩

end Calod.Ledger
