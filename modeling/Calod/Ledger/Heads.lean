import Calod.Ledger.Timelines

/-!
# Run heads and timelines under overlapping calls

A run record holds the head of its timeline (`lastEventSequence`, `headHash`). `update_run`
writes back the record it read, so an event that is applied in between is forgotten by the
head; effect events are committed without the run lock, so this does happen
(`head_falls_behind`).

* `heads_agree` — as long as no event is applied while an `update_run` of the same run is
  between its read and its commit, every head agrees with its timeline.

The steps considered are those of live operation: no retention, no reopening, and `new_id`
yields run ids that are not in use (`live`).
-/

namespace Calod.Ledger

open Lib Ledger.Sample Sys

variable {s : Sys} {kind : RecordKind}

/-! ## Conditions on a step -/

namespace RecordKind

/-- The record writes back run `r` as an `update_run` read it. -/
def updatesRun (r : Uuid) : RecordKind → Bool
  | .runUpdated run => run.id = r
  | _ => false

/-- The record carries an event of run `r`. -/
def appendsTo (r : Uuid) (kind : RecordKind) : Bool := kind.event.any fun event => event.runId = r

theorem leaves_run {other : RecordKind} {r : Uuid}
    (h : (!other.updatesRun r && !other.appendsTo r) = true) :
    (∀ run, other = .runUpdated run → run.id ≠ r) ∧
      ∀ event, other.event = some event → event.runId ≠ r := by
  obtain ⟨hupdate, happend⟩ := Bool.and_eq_true_iff.mp h
  constructor
  · rintro run rfl
    simpa [updatesRun] using hupdate
  · intro event he
    simpa [appendsTo, he] using happend

end RecordKind

namespace Sys

/-- Every other task's pending record satisfies `p`. -/
def othersAll (s : Sys) (i : Nat) (p : RecordKind → Bool) : Bool :=
  (List.range s.tasks.length).all fun j => j == i || (s.pendingAt j).all p

theorem othersAll_pending {i j : Nat} {p : RecordKind → Bool} (h : s.othersAll i p = true)
    (hj : s.pendingAt j = some kind) (hne : j ≠ i) : p kind = true := by
  unfold othersAll at h
  have hlt : j < s.tasks.length := by
    unfold pendingAt at hj
    obtain ⟨task, ht, -⟩ := Option.bind_eq_some_iff.mp hj
    exact (List.getElem?_eq_some_iff.mp ht).1
  have := List.all_eq_true.mp h j (List.mem_range.mpr hlt)
  rw [hj] at this
  simpa [hne] using this

/-- Live operation: no reopening, no retention, and a run is created under an unused id. -/
def live (s : Sys) (action : Action) : Bool :=
  match action with
  | .reopen _ => false
  | _ =>
    match s.commits action with
    | some (_, .retentionApplied _ _ _) => false
    | some (_, .runCreated run) => s.ledger.indexes.runs[run.id]?.isNone
    | _ => true

/-- No event is applied while another call has read its run to update it. -/
def noStaleUpdate (s : Sys) (action : Action) : Bool :=
  match s.commits action with
  | some (i, kind) =>
    kind.event.all fun event => s.othersAll i fun other => !other.updatesRun event.runId
  | none => true

theorem live_ne_reopen {keepUnacked : Bool} : s.live (.reopen keepUnacked) ≠ true := by
  simp [live]

theorem live_commits {action : Action} {i : Nat} (h : s.live action = true)
    (hc : s.commits action = some (i, kind)) :
    kind.isRetention = false ∧
      ∀ run, kind = .runCreated run → s.ledger.indexes.runs[run.id]? = none := by
  have hlive : (match some (i, kind) with
      | some (_, RecordKind.retentionApplied _ _ _) => false
      | some (_, .runCreated run) => s.ledger.indexes.runs[run.id]?.isNone
      | _ => true) = true := by
    rw [← hc]
    cases action with
    | reopen keep => exact absurd h live_ne_reopen
    | spawn | step | walFail => exact h
  constructor
  · cases kind with
    | retentionApplied cutoff runIds effectIds => cases hlive
    | _ => rfl
  · rintro run rfl
    exact Option.isNone_iff_eq_none.mp hlive

theorem noStaleUpdate_commits {action : Action} {i : Nat} {event : EventRecord}
    (h : s.noStaleUpdate action = true) (hc : s.commits action = some (i, kind))
    (he : kind.event = some event) {j : Nat} {run : RunRecord} (hne : j ≠ i)
    (hj : s.pendingAt j = some (.runUpdated run)) : run.id ≠ event.runId := by
  unfold noStaleUpdate at h
  rw [hc] at h
  simp only [he, Option.all_some] at h
  simpa [RecordKind.updatesRun] using othersAll_pending h hj hne

end Sys

/-! ## The invariant -/

/-- The head of `run` is where the timeline of `r` ends. -/
def Indexes.AtHead (idx : Indexes) (r : Uuid) (run : RunRecord) : Prop :=
  run.lastEventSequence = (idx.timeline r).length ∧
    run.headHash = eventLinks.lastHash (idx.timeline r)

/-- Every run is at its head, and only existing runs have events. -/
structure Indexes.HeadsExact (idx : Indexes) : Prop where
  keyed : idx.Keyed
  heads : ∀ (r : Uuid) (run : RunRecord), idx.runs[r]? = some run → idx.AtHead r run
  orphans : ∀ r : Uuid, idx.runs[r]? = none → idx.timeline r = []

/-- A pending record that will leave every run at its head. -/
structure UpToDate (idx : Indexes) (kind : RecordKind) : Prop where
  event : ∀ event, kind.event = some event → idx.runs[event.runId]? ≠ none
  create : ∀ run, kind = .runCreated run →
    run.lastEventSequence = 0 ∧ run.headHash = genesisHash
  update : ∀ run, kind = .runUpdated run → idx.runs[run.id]? ≠ none ∧ idx.AtHead run.id run

variable {env : Env} {idx : Indexes} {kind : RecordKind}

theorem Indexes.headsExact_empty : Indexes.empty.HeadsExact where
  keyed := keyed_empty
  heads r run h := by simp [empty] at h
  orphans r _ := by simp [empty, timeline]

/-- A record is up to date when it is built. -/
theorem Indexes.HeadsExact.upToDate {scope : Scope} (hx : idx.HeadsExact)
    (hb : Built env idx scope kind) : UpToDate idx kind where
  event event he := by
    obtain ⟨r, run, hr, hon⟩ := hb.event_spec he
    rw [hon.runId, hx.keyed.runs r run hr, hr]
    exact Option.some_ne_none run
  create run hk := by
    rcases hb.run_spec (Or.inl hk) with ⟨-, h⟩ | ⟨_, _, hc, -⟩
    · exact h
    · cases hk.symm.trans hc
  update run hk := by
    rcases hb.run_spec (Or.inr hk) with ⟨hc, -⟩ | ⟨r, old, -, hr, hid, hseq, hhead⟩
    · cases hk.symm.trans hc
    · obtain ⟨h₁, h₂⟩ := hx.heads r old hr
      rw [hid, hx.keyed.runs r old hr, hr]
      exact ⟨Option.some_ne_none old, hseq.trans h₁, hhead.trans h₂⟩

/-- Applying an up-to-date record of live operation leaves every run at its head. -/
theorem Indexes.HeadsExact.apply (hx : idx.HeadsExact) (hu : UpToDate idx kind)
    (hretention : kind.isRetention = false)
    (hfresh : ∀ run, kind = .runCreated run → idx.runs[run.id]? = none) :
    (idx.apply kind).1.HeadsExact where
  keyed := hx.keyed.apply kind
  heads r run h := by
    unfold AtHead
    rcases apply_at idx kind r with ⟨hr, ht⟩ | ⟨new, hk, hid, hr, ht⟩ |
        ⟨event, -, -, hseq, -, hr, ht⟩ | ⟨_, _, _, rfl, -⟩
    · rw [ht]
      exact hx.heads r run (hr ▸ h)
    · rw [hr] at h
      cases h
      rw [ht]
      subst hid
      rcases hk with hk | hk
      · -- a new run: its timeline is empty
        obtain ⟨h₁, h₂⟩ := hu.create run hk
        rw [hx.orphans run.id (hfresh run hk)]
        exact ⟨h₁, h₂⟩
      · exact (hu.update run hk).2
    · rw [hr] at h
      obtain ⟨old, -, rfl⟩ := Option.map_eq_some_iff.mp h
      rw [ht, Links.lastHash_append_singleton, List.length_append, List.length_singleton]
      exact ⟨hseq, rfl⟩
    · cases hretention
  orphans r h := by
    rcases apply_at idx kind r with ⟨hr, ht⟩ | ⟨new, -, -, hr, -⟩ |
        ⟨event, he, hid, -, -, hr, ht⟩ | ⟨_, _, _, rfl, -⟩
    · rw [ht]
      exact hx.orphans r (hr ▸ h)
    · rw [hr] at h
      cases h
    · rw [hr] at h
      exact absurd (Option.map_eq_none_iff.mp h) (hid ▸ hu.event event he)
    · cases hretention

/-- Runs stay, outside retention. -/
theorem Indexes.runs_apply_ne_none {r : Uuid}
    (hretention : kind.isRetention = false)
    (h : idx.runs[r]? ≠ none) : (idx.apply kind).1.runs[r]? ≠ none := by
  rcases apply_at idx kind r with ⟨hr, -⟩ | ⟨new, -, -, hr, -⟩ | ⟨event, -, -, -, -, hr, -⟩ |
      ⟨_, _, _, rfl, -⟩
  · rw [hr]
    exact h
  · rw [hr]
    exact Option.some_ne_none new
  · rw [hr]
    simpa using h
  · cases hretention

/--
A pending record of another task stays up to date, unless it writes back the run whose
timeline grows.
-/
theorem UpToDate.apply {other : RecordKind} (ho : UpToDate idx other)
    (hretention : kind.isRetention = false)
    (hstale : ∀ event run, kind.event = some event → other = .runUpdated run →
      run.id ≠ event.runId) :
    UpToDate (idx.apply kind).1 other where
  event event he := Indexes.runs_apply_ne_none hretention (ho.event event he)
  create := ho.create
  update run hk := by
    obtain ⟨hne, hat⟩ := ho.update run hk
    refine ⟨Indexes.runs_apply_ne_none hretention hne, ?_⟩
    unfold Indexes.AtHead
    rcases Indexes.apply_at idx kind run.id with ⟨-, ht⟩ | ⟨_, -, -, -, ht⟩ |
        ⟨event, he, hid, -⟩ | ⟨_, _, _, rfl, -⟩
    · rw [ht]
      exact hat
    · rw [ht]
      exact hat
    · exact absurd hid.symm (hstale event run he hk)
    · cases hretention

/-- Records in flight are up to date, in every run whose steps meet the condition. -/
theorem Sys.upToDate_of_reach
    (h : Reach (step env) (fun s a => (s.live a && s.noStaleUpdate a) = true) init s) :
    InFlight Indexes.HeadsExact UpToDate s := by
  refine inFlight_of_reach ?_ Indexes.headsExact_empty ?_ ?_ ?_ h
  · intro s keep hc
    exact absurd (Bool.and_eq_true_iff.mp hc).1 live_ne_reopen
  · intro idx scope kind hx hb
    exact hx.upToDate hb
  · intro s action i kind hc hcommits hi
    obtain ⟨hret, hfresh⟩ := live_commits (Bool.and_eq_true_iff.mp hc).1 hcommits
    exact hi.1.apply (hi.2 i kind (commits_pending hcommits)) hret hfresh
  · intro s action i kind j other hc hcommits hi hne hj
    obtain ⟨hlive, hstale⟩ := Bool.and_eq_true_iff.mp hc
    refine (hi.2 j other hj).apply (live_commits hlive hcommits).1 ?_
    rintro event run he rfl
    exact noStaleUpdate_commits hstale hcommits he hne hj

/--
**Heads agree with timelines** in every state of live operation, as long as no event is
applied while an `update_run` of the same run is between its read and its commit.
-/
theorem heads_agree (env : Env) {s : Sys}
    (h : Reach (step env) (fun s a => (s.live a && s.noStaleUpdate a) = true) init s)
    {r : Uuid} {run : RunRecord} (hr : s.ledger.indexes.runs[r]? = some run) :
    run.lastEventSequence = (s.ledger.indexes.timeline r).length ∧
      run.headHash
        = ((s.ledger.indexes.timeline r).getLast?.map EventRecord.hash).getD genesisHash :=
  (upToDate_of_reach h).1.heads r run hr

/-- An effect event and a later update of its run, one after the other: the head is 1. -/
theorem heads_agree_in_turn :
    ∃ s run,
      Reach (step Sample.env) (fun s a => (s.live a && s.noStaleUpdate a) = true) init s ∧
      s.ledger.indexes.runs[(1 : Uuid)]? = some run ∧ run.status = .suspended ∧
      (s.ledger.indexes.timeline 1).length = 1 ∧ run.lastEventSequence = 1 := by
  have hrun : ((Lib.run (step Sample.env) (fun s a => s.live a && s.noStaleUpdate a) init
      (Sample.spawn Sample.createRun :: steps 0 1 3
        ++ Sample.spawn (acquire "order-0001" (some 1)) :: steps 1 2 5
        ++ Sample.spawn (Sample.updateRun 1 .suspended) :: steps 2 3 4)).map fun s =>
          (s.ledger.indexes.runs[(1 : Uuid)]?.map RunRecord.status,
            (s.ledger.indexes.timeline 1).length)) = some (some .suspended, 1) := by
    decide +kernel
  obtain ⟨s, hreach, he⟩ := exists_reach_of_run hrun
  obtain ⟨hstatus, hlen⟩ := Prod.mk.inj he
  obtain ⟨run, hr, hs⟩ := Option.map_eq_some_iff.mp hstatus
  refine ⟨s, run, hreach, hr, hs, hlen, ?_⟩
  rw [(heads_agree Sample.env hreach hr).1, hlen]
  rfl

/--
**An update that was read before an effect event is committed resets the head.** The effect's
event is built and waits for the commit lock without the run lock; the update reads the run,
and commits after the event.
-/
theorem head_falls_behind :
    ∃ s run, Reach (step Sample.env) (fun s a => s.live a = true) init s ∧
      s.ledger.indexes.runs[(1 : Uuid)]? = some run ∧
      (s.ledger.indexes.timeline 1).length = 1 ∧ run.lastEventSequence = 0 := by
  have hrun : ((Lib.run (step Sample.env) live init
      (Sample.spawn Sample.createRun :: steps 0 1 3
        ++ Sample.spawn (acquire "order-0001" (some 1)) :: steps 1 2 3
        ++ Sample.spawn (Sample.updateRun 1 .suspended) :: steps 2 3 2
        ++ steps 1 2 2 ++ steps 2 3 2)).map fun s =>
          (s.ledger.indexes.runs[(1 : Uuid)]?.map RunRecord.lastEventSequence,
            (s.ledger.indexes.timeline 1).length)) = some (some 0, 1) := by
    decide +kernel
  obtain ⟨s, hreach, he⟩ := exists_reach_of_run hrun
  obtain ⟨hseq, hlen⟩ := Prod.mk.inj he
  obtain ⟨run, hr, hs⟩ := Option.map_eq_some_iff.mp hseq
  exact ⟨s, run, hreach, hr, hlen, hs⟩

end Calod.Ledger
