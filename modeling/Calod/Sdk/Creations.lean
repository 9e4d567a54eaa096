import Calod.Sdk.Network
import Calod.Ledger.Receipts

/-!
# Creations that carry an idempotency key

`POST /v1/runs`, and the forks, events and checkpoints of a run, take an idempotency key. The
handlers check its form and do not use it, and `_request` sends `POST /v1/runs` again when an
attempt ends in a transport error or a retryable status.

* `Net.created` — the runs, events and checkpoints in the ledger that the requests with one key
  have made
* `created_at_most_once` — there is at most one, as long as one request with the key gets to the
  ledger
* `created_twice` — a lost response is enough for two
-/

namespace Calod.Ledger

open Calod.Storage Lib

/-! ## Calls that only read -/

def Call.readsOnly : Call → Bool
  | .getEffect _ | .listEffects _ _ _ | .getRun _ | .listRuns _ _ _ | .verifyRunEvents _
  | .listEvents _ _ _ _ | .listCheckpoints _ _ _ | .exportRun _ => true
  | .acquire _ _ | .transition _ _ _ | .createRun _ | .updateRun _ _ _ | .forkRun _ _
  | .appendEvent _ _ | .createCheckpoint _ _ _ | .applyRetention _ => false

/-- Has the task decided to write? -/
def Pc.writes : Pc → Bool
  | .waitEffectRun _ _ _ _ | .waitCommit _ _ | .appended _ _ _ | .done _ (some _) => true
  | _ => false

theorem Pc.Quiet.writes {pc : Pc} (h : pc.Quiet) : pc.writes = false := by
  cases pc with
  | done result persisted =>
    cases persisted with
    | none => rfl
    | some kind => cases result <;> cases h
  | waitEffectRun | waitCommit | appended => cases h
  | _ => rfl

theorem Pc.afterSave_writes (watermark : Option WalPosition) :
    (Pc.afterSave watermark).writes = false := by
  cases watermark <;> rfl

theorem Call.readsOnly_answers {env : Env} {idx : Indexes} {scope : Scope} {draws : Draws}
    {call : Call} {next : Next} (h : call.readsOnly = true)
    (hu : call.underLock env idx scope draws = .ok next) : ∃ response, next = .answer response := by
  cases call <;> cases h
  all_goals
    obtain ⟨a, -, rfl⟩ := map_eq_ok.mp hu
    exact ⟨_, rfl⟩

/-- May the task write to the log? -/
def Request.mayWrite : Request → Bool
  | .call _ c => !c.readsOnly
  | .snapshot => false

/-- **A call that only reads never decides to write.** -/
theorem Sys.mayWrite_of_reach {env : Env} {P : Sys → Action → Prop} {s : Sys}
    (h : Reach (Sys.step env) P Sys.init s) :
    ∀ task ∈ s.tasks, task.pc.writes = true → task.request.mayWrite = true := by
  refine h.invariant
    (I := fun s => ∀ task ∈ s.tasks, task.pc.writes = true → task.request.mayWrite = true)
    (fun task ht => by cases ht) fun s action s' hs _ hstep => ?_
  have hset : ∀ {i : Nat} {task' : Task},
      (task'.pc.writes = true → task'.request.mayWrite = true) →
      ∀ t ∈ s.tasks.set i task', t.pc.writes = true → t.request.mayWrite = true := by
    intro i task' hnew t ht
    rcases List.mem_or_eq_of_mem_set ht with ht | rfl
    · exact hs t ht
    · exact hnew
  have hidle : ∀ {task' : Task}, task'.pc.writes = false →
      task'.pc.writes = true → task'.request.mayWrite = true := by
    intro task' hn hw
    rw [hn] at hw
    cases hw
  have hkeeps : ∀ {i : Nat} {task task' : Task}, s.tasks[i]? = some task → task.pc.writes = true →
      task'.request = task.request → task'.pc.writes = true → task'.request.mayWrite = true := by
    intro i task task' hi hw hrequest _
    rw [hrequest]
    exact hs task (List.mem_of_getElem? hi) hw
  have hdecided : ∀ {task task' : Task} {scope : Scope} {call : Call} {draws : Draws} {next : Next},
      task.request = .call scope call → task'.request = task.request →
      call.underLock env s.ledger.indexes scope draws = .ok next →
      (∀ response, next ≠ .answer response) →
      task'.pc.writes = true → task'.request.mayWrite = true := by
    intro task task' scope call draws next hrequest hrequest' hu hne _
    rw [hrequest', hrequest]
    cases hread : call.readsOnly with
    | false => simp [Request.mayWrite, hread]
    | true =>
      obtain ⟨response, rfl⟩ := Call.readsOnly_answers hread hu
      exact absurd rfl (hne response)
  cases step_moves hstep with
  | spawn request =>
    intro task ht
    rcases List.mem_append.mp ht with ht | ht
    · exact hs task ht
    · rw [List.mem_singleton.mp ht]
      exact hidle rfl
  | quiet haction locks hi hrequest hpc => exact hset (hidle hpc.writes)
  | answer | saveState | list | remove => exact hset (hidle rfl)
  | saveManifest => exact hset (hidle (Pc.afterSave_writes _))
  | persist hi hrequest hrequest' hpc hu =>
    exact hset (hdecided hrequest hrequest' hu fun _ he => by cases he)
  | persistRunless hi hrequest hrequest' hpc hrun hu =>
    exact hset (hdecided hrequest hrequest' hu fun _ he => by cases he)
  | waitEffectRun locks hi hrequest hrequest' hpc hu =>
    exact hset (hdecided hrequest hrequest' hu fun _ he => by cases he)
  | persistEffect hi hrequest hrequest' hold =>
    exact hset (hkeeps hi (by rw [hold]; rfl) hrequest')
  | append hi hpc => exact hset (hkeeps hi (by rw [hpc]; rfl) rfl)
  | commit hi hpc =>
    refine hset (hkeeps hi (by rw [hpc]; rfl) ?_)
    unfold Sys.commit
    split <;> rfl
  | reopen => exact fun task ht => by cases ht

/-! ## What is in the ledger -/

/-- A run, an event or a checkpoint, by what tells it apart in the ledger. -/
inductive Item where
  | run (id : Uuid)
  | event (runId : Uuid) (sequence : Int)
  | checkpoint (runId id : Uuid)
  deriving DecidableEq

def EventRecord.item (event : EventRecord) : Item := .event event.runId event.sequence

def CheckpointRecord.item (checkpoint : CheckpointRecord) : Item :=
  .checkpoint checkpoint.runId checkpoint.id

def Indexes.items (idx : Indexes) : List Item :=
  idx.runs.values.map (fun run => .run run.id) ++
    idx.events.values.flatten.map EventRecord.item ++
    idx.checkpoints.values.flatten.map CheckpointRecord.item

/-- What a record adds to the ledger, an effect and its event apart. -/
def RecordKind.item : RecordKind → Option Item
  | .runCreated run => some (.run run.id)
  | .eventAppended event => some event.item
  | .checkpointCreated checkpoint => some checkpoint.item
  | .runUpdated _ | .effectApplied _ _ | .retentionApplied _ _ _ => none

end Calod.Ledger

namespace Calod.Sdk

open Calod.Ledger Calod.Api Lib

/-! ## What should be created once -/

/-- The endpoints that create something and take an idempotency key. -/
inductive Endpoint where
  | runs
  | forks (runId : Uuid)
  | events (runId : Uuid)
  | checkpoints (runId : Uuid)
  deriving DecidableEq

/-- An idempotency key, where it was used, and under which API key. -/
structure Creation where
  apiKey : String
  endpoint : Endpoint
  key : String
  deriving DecidableEq

/-- What a request should create once. -/
def creation (apiKey : String) : HttpRequest → Option Creation
  | .createRun (some key) _ => some { apiKey, endpoint := .runs, key }
  | .forkRun runId (some key) _ => some { apiKey, endpoint := .forks runId, key }
  | .appendRunEvent runId (some key) _ => some { apiKey, endpoint := .events runId, key }
  | .createCheckpoint runId _ (some key) _ => some { apiKey, endpoint := .checkpoints runId, key }
  | _ => none

def Handling.creation (hd : Handling) : Option Creation := Sdk.creation hd.apiKey hd.request

namespace Net

/-- The record that a call of the ledger has made durable. -/
def persisted (net : Net) (task : Nat) : Option RecordKind :=
  match net.sys.tasks[task]?.map Task.pc with
  | some (.done _ persisted) => persisted
  | _ => none

/-- The records that the requests with one key have made durable. -/
def made (net : Net) (c : Creation) : List RecordKind :=
  (net.handlings.filter fun hd => hd.creation = some c).flatMap fun hd =>
    hd.calls.filterMap net.persisted

/-- The runs, events and checkpoints in the ledger that the requests with one key have made. -/
def created (net : Net) (c : Creation) : List Item :=
  net.sys.ledger.indexes.items.filter fun item =>
    (net.made c).any fun kind => kind.item = some item

/-- Does the request get past the extractors, to the ledger? -/
def getsThrough (server : Server) (ex : Exchange) (valid : Bool) : Bool :=
  match arrived server ex valid with
  | .call _ _ => true
  | .respond _ => false

/-- The server is not restarted, and of the requests with one key only one gets to the ledger. -/
def keysOnce (server : Server) (net : Net) : Action → Bool
  | .deliver i valid =>
    (net.waiting i).all fun ex => (creation ex.apiKey ex.request).all fun c =>
      !getsThrough server ex valid ||
        net.handlings.all fun hd => hd.creation ≠ some c || hd.calls.isEmpty
  | .sys (.reopen _) => false
  | _ => true

end Net

/-! ## One request writes at most once -/

/-- The handler makes at most `n` calls of the ledger that do not only read. -/
def Within : Handler → Nat → Prop
  | .respond _, _ => True
  | .call call next, n =>
    if call.readsOnly then ∀ result, Within (next result) n
    else 0 < n ∧ ∀ result, Within (next result) (n - 1)

theorem within_extract {α : Type} {extracted : Except HttpResponse α} {next : α → Handler} {n : Nat}
    (h : ∀ a, Within (next a) n) : Within (.extract extracted next) n := by
  cases extracted with
  | error response => trivial
  | ok a => exact h a

theorem within_write {call : Call} {next : Response → Handler} {n : Nat}
    (hwrite : call.readsOnly = false) (h : ∀ response, Within (next response) n) :
    Within (.ledger call next) (n + 1) := by
  show if call.readsOnly then _ else _
  rw [if_neg (by simp [hwrite])]
  refine ⟨Nat.succ_pos n, fun result => ?_⟩
  cases result with
  | error error => trivial
  | ok response => exact h response

/-- **The handler of a creation writes at most once.** -/
theorem within_route (auth : AuthContext) {apiKey : String} {request : HttpRequest} {c : Creation}
    (h : creation apiKey request = some c) : Within (route auth request) 1 := by
  have hrespond : ∀ (response : HttpResponse) n, Within (.respond response) n :=
    fun _ _ => trivial
  cases request with
  | createRun key req | forkRun runId key req =>
    refine within_extract fun _ => within_write rfl fun response => ?_
    cases response <;> exact hrespond _ _
  | appendRunEvent runId key req =>
    refine within_extract fun _ => within_write rfl fun response => ?_
    cases response <;> exact hrespond _ _
  | createCheckpoint runId version key req =>
    refine within_extract fun _ => within_extract fun _ => within_write rfl fun response => ?_
    cases response with
    | checkpoint checkpoint =>
      -- the run is only read
      intro result
      cases result <;> exact hrespond _ _
    | _ => exact hrespond _ _
  | acquireEffect | updateEffect | unreadableUpdate => cases h

def Stage.Within : Stage → Nat → Prop
  | .awaiting _ next, n => ∀ result, Sdk.Within (next result) n
  | .responded _, _ => True

namespace Net

variable {server : Server} {net net' : Net} {action : Action}

/-- Is this a call of the ledger that may write? -/
def writing (net : Net) (t : Nat) : Bool := net.sys.tasks[t]?.any fun task => task.request.mayWrite

/-- What is known of a handling: its calls have begun, and a creation has at most one that writes,
those that are still to come among them. -/
structure Frugal (net : Net) (hd : Handling) : Prop where
  begun : ∀ t ∈ hd.calls, t < net.sys.tasks.length
  awaiting : ∀ t next, hd.stage = .awaiting t next → hd.calls ≠ []
  budget : hd.creation.isSome = true →
    ∃ n, (hd.calls.filter net.writing).length + n ≤ 1 ∧ hd.stage.Within n

/-- A call that has begun stays what it is. -/
theorem writing_step (hreopen : ∀ keep, action ≠ .sys (.reopen keep))
    (h : net.step server action = some net') {t : Nat} (ht : t < net.sys.tasks.length) :
    t < net'.sys.tasks.length ∧ net'.writing t = net.writing t := by
  obtain ⟨task, htask⟩ : ∃ task, net.sys.tasks[t]? = some task :=
    ⟨_, List.getElem?_eq_getElem ht⟩
  obtain ⟨task', htask', hrequest⟩ : ∃ task', net'.sys.tasks[t]? = some task' ∧
      task'.request = task.request := by
    cases step_moves h with
    | sys hs =>
      obtain ⟨task', htask', hrequest, -⟩ :=
        Sys.task_step hs (fun keep he => hreopen keep (by rw [he])) htask
      exact ⟨task', htask', hrequest⟩
    | request | settle => exact ⟨task, htask, rfl⟩
    | deliver | serve => exact ⟨task, enter_tasks _ _ htask, rfl⟩
  refine ⟨(List.getElem?_eq_some_iff.mp htask').1, ?_⟩
  simp only [writing, htask, htask', Option.any_some, hrequest]

theorem Frugal.mono {hd : Handling} (hf : net.Frugal hd)
    (hsame : ∀ t < net.sys.tasks.length, t < net'.sys.tasks.length ∧
      net'.writing t = net.writing t) : net'.Frugal hd where
  begun t ht := (hsame t (hf.begun t ht)).1
  awaiting := hf.awaiting
  budget hc := by
    obtain ⟨n, hn, hstage⟩ := hf.budget hc
    refine ⟨n, ?_, hstage⟩
    rwa [List.filter_congr fun t ht => (hsame t (hf.begun t ht)).2]

/-- A handling whose handler is let go on. -/
theorem frugal_enter {handler : Handler} (calls : List Nat) {scope : Scope} {apiKey : String}
    {request : HttpRequest} (hsys : net'.sys = (enter net.sys scope handler).1)
    (hbegun : ∀ t ∈ calls, t < net.sys.tasks.length)
    (hbudget : (creation apiKey request).isSome = true →
      ∃ n, (calls.filter net.writing).length + n ≤ 1 ∧ Within handler n) :
    net'.Frugal { apiKey, request, stage := (enter net.sys scope handler).2
                  calls := calls ++ (enter net.sys scope handler).2.task.toList } := by
  cases handler with
  | respond response =>
    have hsys' : net'.sys = net.sys := hsys
    have hwriting : net'.writing = net.writing := by
      funext t
      rw [writing, hsys', writing]
    refine ⟨fun t ht => ?_, fun t next he => (by cases he), fun hc => ?_⟩
    · rw [hsys']
      exact hbegun t (by simpa [enter, Stage.task] using ht)
    · obtain ⟨n, hn, -⟩ := hbudget hc
      refine ⟨n, ?_, trivial⟩
      simpa [enter, Stage.task, hwriting] using hn
  | call call next =>
    have htasks : net'.sys.tasks = net.sys.tasks ++ [Task.new (.call scope call)] := by
      rw [hsys]
      rfl
    have hnew : net'.writing net.sys.tasks.length = !call.readsOnly := by
      simp [writing, htasks, Task.new, Request.mayWrite]
    have hold : calls.filter net'.writing = calls.filter net.writing := by
      refine List.filter_congr fun t ht => ?_
      rw [writing, htasks, List.getElem?_append_left (hbegun t ht), writing]
    refine ⟨fun t ht => ?_, fun t next he => (by simp [enter, Stage.task]), fun hc => ?_⟩
    · rw [htasks, List.length_append]
      rcases List.mem_append.mp ht with ht | ht
      · exact Nat.lt_of_lt_of_le (hbegun t ht) (Nat.le_add_right _ _)
      · rw [List.mem_singleton.mp ht]
        exact Nat.lt_succ_self _
    · obtain ⟨n, hn, hwithin⟩ := hbudget hc
      have hwithin' : if call.readsOnly then ∀ result, Within (next result) n
        else 0 < n ∧ ∀ result, Within (next result) (n - 1) := hwithin
      show ∃ m, ((calls ++ [net.sys.tasks.length]).filter net'.writing).length + m ≤ 1 ∧
        ∀ result, Within (next result) m
      rw [List.filter_append, hold, List.length_append, List.filter_singleton, hnew]
      cases hread : call.readsOnly with
      | true =>
        rw [hread, if_pos rfl] at hwithin'
        exact ⟨n, by simpa using hn, hwithin'⟩
      | false =>
        rw [hread, if_neg (by decide)] at hwithin'
        refine ⟨n - 1, ?_, hwithin'.2⟩
        simp only [Bool.not_false, cond_true, List.length_singleton]
        omega

/-- **Every handling of a creation writes at most once.** -/
theorem frugal_of_reach
    (h : Reach (Net.step server) (fun net a => net.keysOnce server a = true) Net.init net) :
    ∀ hd ∈ net.handlings, net.Frugal hd := by
  refine h.invariant (I := fun net => ∀ hd ∈ net.handlings, net.Frugal hd)
    (fun hd hhd => by cases hhd) fun net action net' hall hcond hstep => ?_
  have hreopen : ∀ keep, action ≠ .sys (.reopen keep) := by
    rintro keep rfl
    cases hcond
  have hold : ∀ hd ∈ net.handlings, net'.Frugal hd := fun hd hhd =>
    (hall hd hhd).mono fun t ht => writing_step hreopen hstep ht
  cases step_moves hstep with
  | sys | request | settle => exact hold
  | deliver valid hi hresult hhandling =>
    rename_i i ex
    intro hd hhd
    rcases List.mem_append.mp hhd with hhd | hhd
    · exact hold hd hhd
    · rw [List.mem_singleton.mp hhd]
      refine frugal_enter [] rfl (fun t ht => by cases ht) fun hc => ⟨1, le_refl _, ?_⟩
      obtain ⟨c, hc⟩ := Option.isSome_iff_exists.mp hc
      cases valid with
      | true => exact within_route _ hc
      | false => trivial
  | serve hh hstage htask hpc =>
    rename_i j t hd next task result persisted
    intro other hother
    rcases List.mem_or_eq_of_mem_set hother with hother | rfl
    · exact hold other hother
    · have hf := hall hd (List.mem_of_getElem? hh)
      refine frugal_enter _ rfl hf.begun fun hc => ?_
      obtain ⟨n, hn, hwithin⟩ := hf.budget hc
      rw [hstage] at hwithin
      exact ⟨n, hn, hwithin result⟩

/-! ## One request with a key gets to the ledger -/

/-- The requests that reached the server: what they create, and whether they got to the ledger. -/
def entries (net : Net) : List (Option Creation × Bool) :=
  net.handlings.map fun hd => (hd.creation, !hd.calls.isEmpty)

/-- Of the requests with a key, those that got to the ledger. -/
def through (net : Net) (c : Creation) : List (Option Creation × Bool) :=
  net.entries.filter fun entry => entry.1 = some c && entry.2

theorem entries_served {h : Nat} {hd : Handling} (hh : net.handlings[h]? = some hd)
    (hcalls : hd.calls ≠ []) (handler : Handler) :
    (net.served server h hd handler).entries = net.entries := by
  obtain ⟨hlt, rfl⟩ := List.getElem?_eq_some_iff.mp hh
  show (net.handlings.set h _).map _ = net.handlings.map _
  rw [List.map_set]
  refine (congrArg _ ?_).trans (List.set_getElem_self (by simpa using hlt))
  rw [List.getElem_map]
  have hempty : ∀ more, (net.handlings[h].calls ++ more).isEmpty = false := by
    intro more
    simp [hcalls]
  simp only [Handling.creation, hempty, List.isEmpty_eq_false_iff.mpr hcalls]

/-- **Of the requests with a key, at most one has got to the ledger.** -/
theorem through_of_reach
    (h : Reach (Net.step server) (fun net a => net.keysOnce server a = true) Net.init net)
    (c : Creation) : (net.through c).length ≤ 1 := by
  revert c
  refine h.invariant_of_reach (I := fun net => ∀ c, (net.through c).length ≤ 1)
    (fun c => Nat.zero_le _) fun net action net' hreach hone hcond hstep c => ?_
  have hsame : net'.entries = net.entries → (net'.through c).length ≤ 1 := by
    intro he
    rw [through, he]
    exact hone c
  cases step_moves hstep with
  | sys | request | settle => exact hsame rfl
  | serve hh hstage htask hpc =>
    have hf := frugal_of_reach hreach _ (List.mem_of_getElem? hh)
    exact hsame (entries_served hh (hf.awaiting _ _ hstage) _)
  | deliver valid hi hresult hhandling =>
    rename_i i ex
    have hentries : (net.delivered server i ex valid).entries = net.entries ++
        [(creation ex.apiKey ex.request, getsThrough server ex valid)] := by
      simp only [entries, delivered, List.map_append, getsThrough]
      cases arrived server ex valid <;> rfl
    rw [through, hentries, List.filter_append, List.length_append]
    by_cases hnew : creation ex.apiKey ex.request = some c ∧ getsThrough server ex valid = true
    · -- no earlier request with the key has
      have hnone : net.entries.filter (fun entry => entry.1 = some c && entry.2) = [] := by
        refine List.filter_eq_nil_iff.mpr fun entry hentry => ?_
        obtain ⟨hd, hhd, rfl⟩ := List.mem_map.mp hentry
        have hall := hcond
        simp only [keysOnce, waiting_eq_some.mpr ⟨hi, hresult⟩, Option.all_some, hnew.1, hnew.2,
          Bool.not_true, Bool.false_or, List.all_eq_true] at hall
        rcases Bool.or_eq_true_iff.mp (hall hd hhd) with hne | hempty
        · simp [of_decide_eq_true hne]
        · simp [hempty]
      rw [hnone]
      exact Nat.le_trans (Nat.add_le_add_left (List.length_filter_le _ _) _) (le_refl 1)
    · have hnil : [(creation ex.apiKey ex.request, getsThrough server ex valid)].filter
          (fun entry => entry.1 = some c && entry.2) = [] := by
        rw [List.filter_eq_nil_iff]
        intro entry hentry
        rw [List.mem_singleton.mp hentry]
        simpa using hnew
      rw [hnil]
      exact hone c

/-! ## What they have made -/

/-- The ledger under a run of the network is in a run of its own. -/
theorem reach_sys_any {P : Net → Action → Prop} (h : Reach (Net.step server) P Net.init net) :
    Reach (Sys.step server.env) (fun _ _ => True) Sys.init net.sys := by
  have henter : ∀ {sys : Sys} (scope : Scope) (handler : Handler),
      Reach (Sys.step server.env) (fun _ _ => True) Sys.init sys →
      Reach (Sys.step server.env) (fun _ _ => True) Sys.init (enter sys scope handler).1 := by
    intro sys scope handler hr
    rcases enter_spawn server.env sys scope handler with he | ⟨call, he⟩
    · rw [he]
      exact hr
    · exact hr.step trivial he
  induction h with
  | init => exact .init
  | step _ _ hs ih =>
    cases step_moves hs with
    | sys hs' => exact ih.step trivial hs'
    | request | settle => exact ih
    | deliver | serve => exact henter _ _ ih

section

variable (h : Reach (Net.step server) (fun net a => net.keysOnce server a = true) Net.init net)

include h

/-- What has made something durable is a call that may write. -/
theorem writing_of_persisted {t : Nat} {kind : RecordKind} (hp : net.persisted t = some kind) :
    net.writing t = true := by
  unfold persisted at hp
  split at hp
  · next result persisted hpc =>
    obtain ⟨task, htask, hpc⟩ := Option.map_eq_some_iff.mp hpc
    have hwrites : task.pc.writes = true := by
      rw [hpc, hp]
      rfl
    simp only [writing, htask, Option.any_some]
    exact Sys.mayWrite_of_reach (reach_sys_any h) task (List.mem_of_getElem? htask) hwrites
  · cases hp

/-- A creation makes at most one record durable, and none without the ledger. -/
theorem made_handling {hd : Handling} (hhd : hd ∈ net.handlings) {c : Creation}
    (hc : hd.creation = some c) :
    (hd.calls.filterMap net.persisted).length ≤ if hd.calls.isEmpty then 0 else 1 := by
  obtain ⟨n, hn, -⟩ := (frugal_of_reach h hd hhd).budget (by rw [hc]; rfl)
  have hle : ∀ calls : List Nat,
      (calls.filterMap net.persisted).length ≤ (calls.filter net.writing).length := by
    intro calls
    induction calls with
    | nil => exact le_refl _
    | cons t rest ih =>
      cases hp : net.persisted t with
      | none =>
        rw [List.filterMap_cons_none hp]
        exact ih.trans ((List.sublist_cons_self t rest).filter _).length_le
      | some kind =>
        rw [List.filterMap_cons_some hp, List.filter_cons_of_pos (writing_of_persisted h hp)]
        exact Nat.succ_le_succ ih
  split
  · next hempty =>
    rw [List.isEmpty_iff.mp hempty]
    exact le_refl _
  · exact (hle _).trans (by omega)

/-- **The requests with one key have made at most one record durable.** -/
theorem made_le_one (c : Creation) : (net.made c).length ≤ 1 := by
  refine le_trans ?_ (through_of_reach h c)
  have hle : ∀ hds : List Handling, (∀ hd ∈ hds, hd ∈ net.handlings) →
      ((hds.filter fun hd => hd.creation = some c).flatMap fun hd =>
          hd.calls.filterMap net.persisted).length ≤
        ((hds.map fun hd => (hd.creation, !hd.calls.isEmpty)).filter fun entry =>
          entry.1 = some c && entry.2).length := by
    intro hds hmem
    induction hds with
    | nil => exact le_refl _
    | cons hd rest ih =>
      have ih := ih fun hd' hhd => hmem hd' (List.mem_cons_of_mem _ hhd)
      by_cases hc : hd.creation = some c
      · have hmade := made_handling h (hmem hd List.mem_cons_self) hc
        rw [List.filter_cons_of_pos (by simpa using hc), List.flatMap_cons, List.length_append,
          List.map_cons, List.filter_cons]
        cases hempty : hd.calls.isEmpty with
        | true =>
          rw [hempty] at hmade
          simpa [hc] using Nat.add_le_add hmade ih
        | false =>
          rw [hempty] at hmade
          simp only [hc, Bool.not_false, Bool.and_true, decide_true, if_true, List.length_cons]
          have : (hd.calls.filterMap net.persisted).length ≤ 1 := hmade
          omega
      · rw [List.filter_cons_of_neg (by simpa using hc), List.map_cons,
          List.filter_cons_of_neg (by simp [hc])]
        exact ih
  exact hle net.handlings fun _ hhd => hhd

end

end Net

/--
**A keyed creation is applied at most once**, whatever requests and responses are lost and
whatever is sent again, as long as only one of the requests with the key gets to the ledger: they
make at most one record durable, and of the runs, events and checkpoints in the ledger at most one
is theirs.
-/
theorem created_at_most_once (server : Server) {net : Net}
    (h : Reach (Net.step server) (fun net a => net.keysOnce server a = true) Net.init net)
    (c : Creation) :
    (net.made c).length ≤ 1 ∧ ∀ a ∈ net.created c, ∀ b ∈ net.created c, a = b := by
  have hmade := Net.made_le_one h c
  refine ⟨hmade, fun a ha b hb => ?_⟩
  obtain ⟨kind, hkind, ha⟩ := List.any_eq_true.mp (List.mem_filter.mp ha).2
  obtain ⟨kind', hkind', hb⟩ := List.any_eq_true.mp (List.mem_filter.mp hb).2
  have hsame : kind = kind' := by
    rcases hlist : net.made c with _ | ⟨only, _ | ⟨second, rest⟩⟩ <;>
      rw [hlist] at hkind hkind' hmade
    · cases hkind
    · rw [List.mem_singleton.mp hkind, List.mem_singleton.mp hkind']
    · exact absurd hmade (by simp)
  rw [hsame, of_decide_eq_true hb] at ha
  exact (Option.some.inj (of_decide_eq_true ha)).symm

namespace Sample

/-- `create_run` of the SDK, with the default number of retries. -/
def createRun : Net.Action :=
  .request "cld_key" 2 (.createRun (some "run-0001")
    { externalId := "run-1", agentName := "agent", metadata := none })

def runCreation : Creation := { apiKey := "cld_key", endpoint := .runs, key := "run-0001" }

/-- The first attempt does not arrive, a proxy refuses the second, the third succeeds; then another
client uses the key, and the server does not accept its API key. -/
def createdByRetry : List Net.Action :=
  [createRun, .lose 0, .reject 0 503 "UNAVAILABLE", .deliver 0 true] ++ ledgerSteps 0 1 3
    ++ [.serve 0, .receive 0, createRun, .deliver 1 false, .receive 1]

/-- The response of the first attempt is lost; the second attempt succeeds as well. -/
def createdByBoth : List Net.Action :=
  [createRun, .deliver 0 true] ++ ledgerSteps 0 1 3 ++ [.serve 0, .lose 0, .deliver 0 true]
    ++ ledgerSteps 1 2 3 ++ [.serve 1, .receive 0]

end Sample

/-- How many requests reached the server, and how many items the sample key has in the ledger. -/
def Net.tally (net : Net) : Nat × Nat :=
  (net.handlings.length, (net.created Sample.runCreation).dedup.length)

/-- A creation that is sent four times: one request is lost, one is refused on its way and one by
the server, one succeeds. -/
theorem created_at_most_once_by_retry :
    ∃ net, Reach (Net.step Sample.server) (fun net a => net.keysOnce Sample.server a = true)
        Net.init net ∧
      net.handlings.length = 2 ∧ (net.created Sample.runCreation).dedup.length = 1 ∧
      ∀ a ∈ net.created Sample.runCreation, ∀ b ∈ net.created Sample.runCreation, a = b := by
  have hrun : (Lib.run (Net.step Sample.server) (Net.keysOnce Sample.server) Net.init
      Sample.createdByRetry).map Net.tally = some (2, 1) := by
    decide +kernel
  obtain ⟨net, hreach, htally⟩ := exists_reach_of_run hrun
  obtain ⟨hhandlings, hcreated⟩ := Prod.mk.inj htally
  exact ⟨net, hreach, hhandlings, hcreated,
    (created_at_most_once Sample.server hreach Sample.runCreation).2⟩

/-- One call of `create_run` whose first response is lost leaves two runs. -/
theorem created_twice :
    ∃ net, Reach (Net.step Sample.server) (fun _ _ => true = true) Net.init net ∧
      net.exchanges.length = 1 ∧ net.sys.ledger.indexes.runs.values.length = 2 ∧
      (net.created Sample.runCreation).dedup.length = 2 := by
  have hrun : (Lib.run (Net.step Sample.server) (fun _ _ => true) Net.init
      Sample.createdByBoth).map (fun net => (net.exchanges.length,
        net.sys.ledger.indexes.runs.values.length, net.tally)) = some (1, 2, 2, 2) := by
    decide +kernel
  obtain ⟨net, hreach, htally⟩ := exists_reach_of_run hrun
  obtain ⟨hexchanges, htally⟩ := Prod.mk.inj htally
  obtain ⟨hruns, htally⟩ := Prod.mk.inj htally
  obtain ⟨-, hcreated⟩ := Prod.mk.inj htally
  exact ⟨net, hreach, hexchanges, hruns, hcreated⟩

end Calod.Sdk
