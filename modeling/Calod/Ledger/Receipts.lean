import Calod.Ledger.Finality

/-!
# What a returned call says about the stored effect

* `Indexes.Later` — what later indexes still have of the effects: the same ids, and final effects
  unchanged. Every step leads to later indexes.
* `acquire_returned` — an answered `acquire` is about the effect its key has, and a replay about a
  final one
* `commit_returned` — a `commit` that succeeded has left its effect committed
-/

namespace Calod.Ledger

open Calod.Core Calod.Storage Lib

variable {scope : Scope} {req : AcquireEffectRequest} {old : Option EffectRecord}
  {response : Response} {caps : CallerCapabilities} {t : Nat} {persisted : Option RecordKind}

/-! ## Later indexes -/

/-- Every key still has its effect, and a final effect is as it was. -/
def Indexes.Later (idx idx' : Indexes) : Prop :=
  ∀ key effect, idx.effectOf key = some effect →
    ∃ effect', idx'.effectOf key = some effect' ∧ effect'.id = effect.id ∧
      (effect.state.isRetentionTerminal = true → effect' = effect)

theorem Indexes.Later.refl (idx : Indexes) : idx.Later idx :=
  fun _ effect h => ⟨effect, h, rfl, fun _ => rfl⟩

theorem Indexes.Later.trans {a b c : Indexes} (hab : a.Later b) (hbc : b.Later c) :
    a.Later c := by
  intro key effect h
  obtain ⟨e₁, h₁, hid₁, hfinal₁⟩ := hab key effect h
  obtain ⟨e₂, h₂, hid₂, hfinal₂⟩ := hbc key e₁ h₁
  refine ⟨e₂, h₂, hid₂.trans hid₁, fun hfinal => ?_⟩
  have he₁ := hfinal₁ hfinal
  rw [hfinal₂ (he₁ ▸ hfinal), he₁]

theorem Indexes.Later.final {idx idx' : Indexes} (h : idx.Later idx') {key : EffectKey}
    {effect : EffectRecord} (he : idx.effectOf key = some effect)
    (hfinal : effect.state.isRetentionTerminal = true) : idx'.effectOf key = some effect := by
  obtain ⟨effect', he', -, hsame⟩ := h key effect he
  rw [he', hsame hfinal]

/-- What `acquire` answers with a new state, which is never final. -/
theorem Stores.acquire_answer {env : Env} {key : String} {next : EffectRecord}
    (h : Stores env scope (.acquire key req) old next response) :
    ∃ decision, response = .decision decision ∧ decision.effect = next.view ∧
      decision.decision ≠ .replay ∧ next.state.isRetentionTerminal = false := by
  cases h with
  | acquired hnext | reacquired _ _ hnext | expired _ _ hnext =>
    exact ⟨_, rfl, rfl, nofun, hnext ▸ rfl⟩

/-- A `commit` stores a committed effect. -/
theorem Stores.committed {env : Env} {id : Uuid} {req : UpdateEffectRequest} {next : EffectRecord}
    (h : Stores env scope (.transition id req caps) old next response)
    (hcommit : req.transition = .commit) : next.state = .committed := by
  cases h with
  | transition hscope hplan hnext =>
    obtain ⟨-, -, -, eventType, hnext'⟩ := transitionPlan_ok hplan
    unfold nextEffect at hnext'
    rw [hcommit] at hnext'
    rw [hnext, ← (Prod.mk.inj (Except.ok.inj hnext')).1]

namespace Sys

variable {env : Env} {s s' : Sys} {action : Action}

variable (hl : PartitionLock env s) (hk : s.ledger.indexes.Keyed) (hcond : s.unpruned action = true)
  (h : s.step env action = some s') (hreopen : ∀ keep, action ≠ .reopen keep)

include hl hk hcond h in
/-- **Every step leads to later indexes.** -/
theorem later_step : s.ledger.indexes.Later s'.ledger.indexes := by
  intro key effect hof
  rcases effectOf_step hl hk (unpruned_keeps hcond) h key with
    hsame | ⟨scope, call, next, response, hstores, hnext⟩
  · exact ⟨effect, hsame.trans hof, rfl, fun _ => rfl⟩
  · rw [hof] at hstores
    refine ⟨next, hnext, hstores.frame.1, fun hfinal => ?_⟩
    rw [hstores.not_final] at hfinal
    cases hfinal

/-! ## The step with which a call returns -/

include h hreopen in
/-- A step moves its own task, which keeps its request, and leaves the others alone. -/
theorem task_step {task : Task} (ht : s.tasks[t]? = some task) :
    ∃ task', s'.tasks[t]? = some task' ∧ task'.request = task.request ∧
      (action.task ≠ some t → task' = task) := by
  -- a step that moves task `i`
  have hset : ∀ {i} {moved moved'}, s.tasks[i]? = some moved →
      s'.tasks = s.tasks.set i moved' → moved'.request = moved.request → action.task = some i →
      ∃ task', s'.tasks[t]? = some task' ∧ task'.request = task.request ∧
        (action.task ≠ some t → task' = task) := by
    intro i moved moved' hi htasks hrequest haction
    rw [htasks, getElem?_set_of_some hi]
    by_cases hit : i = t
    · subst hit
      rw [ht] at hi
      cases hi
      exact ⟨moved', if_pos rfl, hrequest, fun hne => absurd haction hne⟩
    · exact ⟨task, by rw [if_neg hit, ht], rfl, fun _ => rfl⟩
  cases step_moves h with
  | spawn request =>
    refine ⟨task, ?_, rfl, fun _ => rfl⟩
    show (s.tasks ++ _)[t]? = some task
    rw [List.getElem?_append_left (List.getElem?_eq_some_iff.mp ht).1, ht]
  | quiet haction locks hi hrequest => exact hset hi rfl hrequest haction
  | answer hi | append hi | saveState hi | saveManifest hi | list hi | remove hi =>
    exact hset hi rfl rfl rfl
  | persist hi _ hrequest' | persistRunless hi _ hrequest' | waitEffectRun _ hi _ hrequest'
  | persistEffect hi _ hrequest' => exact hset hi rfl hrequest' rfl
  | commit hi hpc =>
    rename_i i moved draws kind response position
    obtain ⟨result, hresult⟩ := finish_commit s moved kind response position
    exact hset hi (congrArg (s.tasks.set i) hresult) rfl rfl
  | reopen ho => exact absurd rfl (hreopen _)

/-- The ways in which a call returns successfully: with what it read, or after its record was
applied. -/
inductive Returns (env : Env) (s : Sys) (action : Action) (s' : Sys) (t : Nat) (task : Task)
    (response : Response) : Prop where
  | answer {scope : Scope} {call : Call} {draws : Draws} (haction : action = .step t draws)
      (hrequest : task.request = .call scope call)
      (h : call.underLock env s.ledger.indexes scope draws = .ok (.answer response))
      (hledger : s'.ledger = s.ledger)
  | commit {kind : RecordKind} {position : WalPosition} {draws : Draws}
      (haction : action = .step t draws) (hpc : task.pc = .appended kind response position)
      (hindexes : s'.ledger.indexes = (s.ledger.indexes.apply kind).1)

include h hreopen in
/-- The task of a step that has just returned. -/
theorem returns_of_step {task task' : Task} (ht : s.tasks[t]? = some task)
    (hbefore : task.pc.isDone = false) (ht' : s'.tasks[t]? = some task')
    (hdone : task'.pc = .done (.ok response) persisted) :
    Returns env s action s' t task response := by
  -- the step moves this task, or the task would not have changed
  have haction : action.task = some t := by
    by_contra hne
    obtain ⟨task₂, ht₂, -, hsame⟩ := task_step h hreopen ht
    rw [ht'] at ht₂
    cases ht₂
    rw [hsame hne] at hdone
    rw [hdone] at hbefore
    cases hbefore
  -- so what the step makes of its task is `task'`
  have hmoved : ∀ {i} {moved moved'}, s.tasks[i]? = some moved →
      s'.tasks = s.tasks.set i moved' → action.task = some i →
      t = i ∧ moved = task ∧ moved' = task' := by
    intro i moved moved' hi htasks hi'
    obtain rfl : t = i := Option.some.inj (haction.symm.trans hi')
    rw [htasks, getElem?_set_of_some hi, if_pos rfl] at ht'
    rw [ht] at hi
    exact ⟨rfl, (Option.some.inj hi).symm, Option.some.inj ht'⟩
  have hwaiting : ∀ {i} {moved moved'}, s.tasks[i]? = some moved →
      s'.tasks = s.tasks.set i moved' → action.task = some i → moved'.pc.isDone = false →
      Returns env s action s' t task response := by
    intro i moved moved' hi htasks hi' hpc
    obtain ⟨-, -, rfl⟩ := hmoved hi htasks hi'
    rw [hdone] at hpc
    cases hpc
  cases step_moves h with
  | spawn | reopen => cases haction
  | quiet hmoves locks hi hrequest hpc =>
    obtain ⟨-, -, rfl⟩ := hmoved hi rfl hmoves
    rw [hdone] at hpc
    cases hpc
  | answer hi hrequest hu =>
    obtain ⟨rfl, rfl, rfl⟩ := hmoved hi rfl rfl
    cases hdone
    exact .answer rfl hrequest hu rfl
  | persist hi _ _ hpc | persistRunless hi _ _ hpc | waitEffectRun _ hi _ _ hpc
  | persistEffect hi _ _ _ hpc => exact hwaiting hi rfl rfl (by rw [hpc]; rfl)
  | append hi | saveState hi | list hi | remove hi => exact hwaiting hi rfl rfl rfl
  | commit hi hpc =>
    rename_i i moved draws kind answer position
    obtain ⟨rfl, rfl, rfl⟩ := hmoved hi rfl rfl
    have hanswer : answer = response := by
      unfold Sys.commit at hdone
      split at hdone <;> cases hdone
      rfl
    exact .commit rfl (hanswer ▸ hpc) (indexes_commit ..)
  | saveManifest hi => exact hwaiting hi rfl rfl (Pc.isDone_afterSave _)

/-! ## Answers of `acquire` -/

include hl hk hcond h in
/-- **An answered `acquire` is about the effect that its key has.** A replay is about a final
effect, and whatever is said about a final effect was decided from it in this step. -/
theorem acquire_returned {task task' : Task} {key : String} (ht : s.tasks[t]? = some task)
    (hrequest : task.request = .call scope (.acquire key req)) (hbefore : task.pc.isDone = false)
    (ht' : s'.tasks[t]? = some task') (hdone : task'.pc = .done (.ok response) persisted) :
    ∃ decision effect, response = .decision decision ∧
      s'.ledger.indexes.effectOf (acquireKey scope key req) = some effect ∧
      decision.effect = effect.view ∧
      (decision.decision = .replay → effect.state.isRetentionTerminal = true) ∧
      (effect.state.isRetentionTerminal = true → ∃ draws, action = .step t draws ∧
        s.ledger.indexes.effectOf (acquireKey scope key req) = some effect) := by
  cases returns_of_step h (unpruned_ne_reopen hcond) ht hbefore ht' hdone with
  | answer haction hrequest' hu hledger =>
    cases hrequest.symm.trans hrequest'
    obtain ⟨plan, hplan, he⟩ := map_eq_ok.mp hu
    cases plan with
    | apply change decision token => cases he
    | decide decision =>
      cases he
      obtain ⟨leaseMs, -, ⟨-, -, change, hnew, -⟩ | ⟨effect, hof, hex⟩⟩ := acquirePlan_ok hplan
      · cases hnew
      obtain ⟨hview, -, -, hreplay⟩ := acquireExisting_decide hex.symm
      refine ⟨decision, effect, rfl, ?_, hview, hreplay, fun _ => ⟨_, haction, hof⟩⟩
      rw [hledger, hof]
  | commit haction hpc hindexes =>
    rename_i kind position draws
    have hpending : task.pc.pending = some kind := by rw [hpc]; rfl
    cases he : kind.effect with
    | none => cases (hl.located t task ht).record scope _ kind hrequest hpending he
    | some next =>
      obtain ⟨scope', call, hrequest', hstores, hof⟩ := hl.stores hk ht hpc he hindexes
      cases hrequest.symm.trans hrequest'
      have hof := (hof (acquireKey scope key req)).trans (if_pos hstores.acquire_key)
      obtain ⟨decision, rfl, hview, hreplay, hstate⟩ := hstores.acquire_answer
      refine ⟨decision, next, rfl, hof, hview, fun hd => absurd hd hreplay, fun hfinal => ?_⟩
      rw [hstate] at hfinal
      cases hfinal

/-! ## A `commit` that succeeded -/

/-- What a transition is about to store is the effect it named. -/
def TransitionsNamed (s : Sys) : Prop :=
  ∀ (i : Nat) (task : Task) scope id req caps effect response, s.tasks[i]? = some task →
    task.request = .call scope (.transition id req caps) →
    task.pc.carries = some (effect, response) → effect.id = id

theorem TransitionsNamed.step (hn : TransitionsNamed s) (hk : s.ledger.indexes.Keyed)
    (h : s.step env action = some s') : TransitionsNamed s' := by
  -- a step that moves one task
  have hset : ∀ {i} {task task'}, s.tasks[i]? = some task →
      s'.tasks = s.tasks.set i task' →
      (∀ scope id req caps effect response, task'.request = .call scope (.transition id req caps) →
        task'.pc.carries = some (effect, response) → effect.id = id) → TransitionsNamed s' := by
    intro i task task' hi htasks hnew j t scope id req caps effect response hj hrequest hcarries
    rw [htasks, getElem?_set_of_some hi] at hj
    split at hj
    · cases hj
      exact hnew scope id req caps effect response hrequest hcarries
    · exact hn j t scope id req caps effect response hj hrequest hcarries
  -- a task that carries nothing, and one that goes on carrying what it had
  have hnone : ∀ {i} {task task'}, s.tasks[i]? = some task →
      s'.tasks = s.tasks.set i task' → task'.pc.carries = none → TransitionsNamed s' :=
    fun hi htasks hpc => hset hi htasks fun _ _ _ _ _ _ _ hc => by rw [hpc] at hc; cases hc
  have hsame : ∀ {i} {task task'}, s.tasks[i]? = some task →
      s'.tasks = s.tasks.set i task' → task'.request = task.request →
      task'.pc.carries = task.pc.carries → TransitionsNamed s' :=
    fun hi htasks hrequest hpc => hset hi htasks fun scope id req caps effect response hr hc =>
      hn _ _ scope id req caps effect response hi (hrequest ▸ hr) (hpc ▸ hc)
  -- a transition that has decided
  have hdecided : ∀ {i} {task task'} {scope} {call} {draws}
      {change} {response}, s.tasks[i]? = some task →
      s'.tasks = s.tasks.set i task' → task.request = .call scope call →
      task'.request = task.request → task'.pc.carries = some (change.effect, response) →
      call.underLock env s.ledger.indexes scope draws = .ok (.effect change response) →
      TransitionsNamed s' := by
    intro i task task' scope call draws change response hi htasks hrequest hrequest' hpc hu
    refine hset hi htasks fun scope' id req caps effect response' hr hc => ?_
    cases (hrequest.symm.trans hrequest'.symm).trans hr
    cases hpc.symm.trans hc
    simp only [Call.underLock] at hu
    split at hu
    · cases hu
    · next stored hstored =>
      obtain ⟨change', hplan, he⟩ := map_eq_ok.mp hu
      cases he
      obtain ⟨-, -, -, eventType, hnext⟩ := transitionPlan_ok hplan
      rw [(nextEffect_frame hnext).1, hk.effects id stored hstored]
  cases step_moves h with
  | spawn request =>
    intro j t scope id req caps effect response hj hrequest hcarries
    rcases getElem?_append_singleton hj with hj | rfl
    · exact hn j t scope id req caps effect response hj hrequest hcarries
    · cases hcarries
  | quiet haction locks hi hrequest hpc => exact hnone hi rfl hpc.carries
  | answer hi | saveState hi | list hi | remove hi => exact hnone hi rfl rfl
  | persist hi hrequest hrequest' hpc hu =>
    refine hset hi rfl fun scope id req caps effect response hr hc => ?_
    cases (hrequest.symm.trans hrequest'.symm).trans hr
    cases partitioned_of_persist hu
  | persistRunless hi hrequest hrequest' hpc _ hu | waitEffectRun _ hi hrequest hrequest' hpc hu =>
    exact hdecided hi rfl hrequest hrequest' (by rw [hpc]; rfl) hu
  | persistEffect hi hrequest hrequest' hold hpc =>
    exact hsame hi rfl hrequest' (by rw [hold, hpc]; rfl)
  | append hi hpc => exact hsame hi rfl rfl (by rw [hpc]; rfl)
  | commit hi hpc =>
    rename_i i task draws kind response position
    obtain ⟨result, hresult⟩ := finish_commit s task kind response position
    exact hnone hi (congrArg (s.tasks.set i) hresult) rfl
  | saveManifest hi => exact hnone hi rfl (Pc.carries_afterSave _)
  | reopen ho =>
    intro j t scope id req caps effect response hj
    cases hj

theorem TransitionsNamed.of_reach
    (h : Reach (Sys.step env) (fun s a => s.unpruned a = true) init s) : TransitionsNamed s := by
  refine h.invariant_of_reach ?_ fun s action s' hreach hn _ hs =>
    hn.step (fits_of_reach (unpruned_reach hreach)).1.1 hs
  intro j t scope id req caps effect response hj
  simp [init] at hj

include hl hk in
/-- **A `commit` that succeeded has left its effect committed.** -/
theorem commit_returned (hn : TransitionsNamed s) (hcond : s.unpruned action = true)
    (h : s.step env action = some s') {task task' : Task} {id : Uuid} {req : UpdateEffectRequest}
    (ht : s.tasks[t]? = some task) (hrequest : task.request = .call scope (.transition id req caps))
    (hcommit : req.transition = .commit) (hbefore : task.pc.isDone = false)
    (ht' : s'.tasks[t]? = some task') (hdone : task'.pc = .done (.ok response) persisted) :
    ∃ effect, s'.ledger.indexes.effectOf (effectKeyOf effect) = some effect ∧ effect.id = id ∧
      effect.state = .committed := by
  cases returns_of_step h (unpruned_ne_reopen hcond) ht hbefore ht' hdone with
  | answer haction hrequest' hu hledger =>
    cases hrequest.symm.trans hrequest'
    simp only [Call.underLock] at hu
    split at hu
    · cases hu
    · obtain ⟨_, -, he⟩ := map_eq_ok.mp hu
      cases he
  | commit haction hpc hindexes =>
    rename_i kind position draws
    have hpending : task.pc.pending = some kind := by rw [hpc]; rfl
    cases he : kind.effect with
    | none => cases (hl.located t task ht).record scope _ kind hrequest hpending he
    | some next =>
      have hid := hn t task scope id req caps next response ht hrequest
        (carries_of_appended hpc he)
      obtain ⟨scope', call, hrequest', hstores, hof⟩ := hl.stores hk ht hpc he hindexes
      cases hrequest.symm.trans hrequest'
      exact ⟨next, (hof _).trans (if_pos rfl), hid, hstores.committed hcommit⟩

end Sys

end Calod.Ledger
