import Calod.Ledger.Decisions

/-!
# Invariants of the indexes

What one record preserves, and what a snapshot brings back.

* `Keyed` — every entry is stored under its own id; every record keeps this
* `Chained` — every timeline is a hash chain whose hashes recompute; every record keeps this,
  also one that was built on an old head, because `applyEvent` checks the link
* `HeadsValid` — every run names a head its timeline once had
* `Fits` — a record built on such heads; it applies without error (`Fits.apply_ok`), and goes on
  fitting while others are applied, unless its run is removed (`Fits.apply`)
* `timeline_load_collect` and its companions — a snapshot loads back what was collected
-/

namespace Calod.Ledger

open Lib

namespace Indexes

variable {idx : Indexes} {kind : RecordKind}

/-! ## Keys -/

structure Keyed (idx : Indexes) : Prop where
  runs : ∀ (k : Uuid) (run : RunRecord), idx.runs[k]? = some run → run.id = k
  effects : ∀ (k : Uuid) (effect : EffectRecord), idx.effectsById[k]? = some effect → effect.id = k
  events : ∀ (k : Uuid) (event : EventRecord), event ∈ idx.timeline k → event.runId = k
  checkpoints : ∀ (k : Uuid) (l : List CheckpointRecord), idx.checkpoints[k]? = some l →
    ∀ c ∈ l, c.runId = k

theorem keyed_empty : Keyed empty where
  runs k run h := by simp [empty] at h
  effects k effect h := by simp [empty] at h
  events k event h := by simp [empty, timeline] at h
  checkpoints k l h := by simp [empty] at h

/-- What a record does to the checkpoints: it stores one, or removes some runs', or nothing. -/
theorem checkpoints_apply (idx : Indexes) (kind : RecordKind) :
    (idx.apply kind).1.checkpoints = idx.checkpoints ∨
      (∃ checkpoint, kind = .checkpointCreated checkpoint ∧
        (idx.apply kind).1.checkpoints = (idx.putCheckpoint checkpoint).checkpoints) ∨
      (∃ cutoff runIds effectIds, kind = .retentionApplied cutoff runIds effectIds ∧
        (idx.apply kind).1.checkpoints = idx.checkpoints.eraseAll runIds) := by
  cases kind with
  | runCreated run => exact Or.inl rfl
  | runUpdated run => exact Or.inl rfl
  | checkpointCreated checkpoint => exact Or.inr (Or.inl ⟨checkpoint, rfl, rfl⟩)
  | eventAppended event => exact Or.inl (applyEvent_frame idx event).2.2
  | effectApplied effect event =>
    cases event with
    | none => exact Or.inl rfl
    | some event => exact Or.inl (applyEvent_frame (idx.putEffect effect) event).2.2
  | retentionApplied cutoff runIds effectIds =>
    exact Or.inr (Or.inr ⟨cutoff, runIds, effectIds, rfl,
      (removeEffects_frame effectIds (idx.removeRuns runIds)).2.2⟩)

theorem mem_putCheckpoint {checkpoint c : CheckpointRecord} {k : Uuid}
    {l : List CheckpointRecord} (h : (idx.putCheckpoint checkpoint).checkpoints[k]? = some l)
    (hc : c ∈ l) :
    (c = checkpoint ∧ checkpoint.runId = k) ∨ ∃ l', idx.checkpoints[k]? = some l' ∧ c ∈ l' := by
  unfold putCheckpoint at h
  simp only [] at h
  rw [Map.get_insert] at h
  split at h
  · next hk =>
    subst hk
    have hstored : c ∈ idx.checkpoints[checkpoint.runId]?.getD [] →
        ∃ l', idx.checkpoints[checkpoint.runId]? = some l' ∧ c ∈ l' := by
      intro hm
      cases he : idx.checkpoints[checkpoint.runId]? with
      | none => simp [he] at hm
      | some l' => exact ⟨l', rfl, by simpa [he] using hm⟩
    cases h
    split at hc
    · exact Or.inr (hstored hc)
    · rcases List.mem_append.mp hc with hc | hc
      · exact Or.inr (hstored hc)
      · exact Or.inl ⟨List.mem_singleton.mp hc, rfl⟩
  · exact Or.inr ⟨l, h, hc⟩

/-- **Every record keeps the keys right.** -/
theorem Keyed.apply (hk : Keyed idx) (kind : RecordKind) : Keyed (idx.apply kind).1 where
  runs k run h := by
    rcases apply_at idx kind k with ⟨hr, -⟩ | ⟨run', -, hid, hr, -⟩ | ⟨event, -, -, -, -, hr, -⟩ |
        ⟨_, _, _, -, -, hr, -⟩
    · exact hk.runs k run (hr ▸ h)
    · rw [hr] at h
      cases h
      exact hid
    · rw [hr] at h
      obtain ⟨old, hold, rfl⟩ := Option.map_eq_some_iff.mp h
      exact hk.runs k old hold
    · rw [hr] at h
      cases h
  effects k effect h := by
    rcases effects_apply idx kind with ⟨he, -⟩ | ⟨e, ev, -, he, -⟩ | ⟨_, runIds, ids, -, he⟩
    · exact hk.effects k effect (he ▸ h)
    · rw [he, Map.get_insert] at h
      split at h
      · next hid => cases h; exact hid
      · exact hk.effects k effect h
    · rw [he, effectsById_removeEffects] at h
      split at h
      · cases h
      · exact hk.effects k effect h
  events k event h := by
    rcases apply_at idx kind k with ⟨-, ht⟩ | ⟨_, -, -, -, ht⟩ | ⟨ev, -, hid, -, -, -, ht⟩ |
        ⟨_, _, _, -, -, -, ht⟩
    · exact hk.events k event (ht ▸ h)
    · exact hk.events k event (ht ▸ h)
    · rw [ht] at h
      rcases List.mem_append.mp h with h | h
      · exact hk.events k event h
      · rw [List.mem_singleton.mp h]
        exact hid
    · rw [ht] at h
      cases h
  checkpoints k l h c hc := by
    rcases checkpoints_apply idx kind with he | ⟨cp, -, he⟩ | ⟨_, runIds, _, -, he⟩
    · exact hk.checkpoints k l (he ▸ h) c hc
    · rw [he] at h
      rcases mem_putCheckpoint h hc with ⟨rfl, hid⟩ | ⟨l', hl', hc⟩
      · exact hid
      · exact hk.checkpoints k l' hl' c hc
    · rw [he, Map.get_eraseAll] at h
      split at h
      · cases h
      · exact hk.checkpoints k l h c hc

/-! ## Timelines are hash chains -/

/-- Every timeline is linked from the genesis hash, and its hashes recompute. -/
def Chained (crates : Crates) (idx : Indexes) : Prop :=
  ∀ r : Uuid, eventLinks.Linked (idx.timeline r) ∧
    ∀ event ∈ idx.timeline r, event.hash = computeEventHash crates event.view

variable {crates : Crates}

theorem chained_empty : Chained crates empty := by
  intro r
  refine ⟨Links.linked_nil, ?_⟩
  intro event h
  simp [empty, timeline] at h

/-- **Every record keeps the timelines chained**, whatever head its event was built on. -/
theorem Chained.apply (hc : Chained crates idx)
    (hhash : ∀ event, kind.event = some event → event.hash = computeEventHash crates event.view) :
    Chained crates (idx.apply kind).1 := by
  intro r
  obtain ⟨hl, hh⟩ := hc r
  rcases apply_at idx kind r with ⟨-, ht⟩ | ⟨_, -, -, -, ht⟩ | ⟨ev, hev, -, hseq, hprev, -, ht⟩ |
      ⟨_, _, _, -, -, -, ht⟩
  · rw [ht]; exact ⟨hl, hh⟩
  · rw [ht]; exact ⟨hl, hh⟩
  · rw [ht]
    refine ⟨hl.append hseq hprev, ?_⟩
    intro event h
    rcases List.mem_append.mp h with h | h
    · exact hh event h
    · rw [List.mem_singleton.mp h]
      exact hhash ev hev
  · rw [ht]
    refine ⟨Links.linked_nil, ?_⟩
    intro event h
    cases h

theorem verifyEventChainFrom_of_linked (l : List EventRecord)
    (hh : ∀ event ∈ l, event.hash = computeEventHash crates event.view) :
    ∀ done, eventLinks.Linked (done ++ l) →
      verifyEventChainFrom crates done.length (eventLinks.lastHash done)
        (l.map EventRecord.view) = true := by
  induction l with
  | nil => intro done _; rfl
  | cons event rest ih =>
    intro done hlinked
    have hat : (done ++ event :: rest)[done.length]? = some event := by simp
    obtain ⟨hseq, hprev⟩ := hlinked done.length event hat
    have hhead : eventLinks.headAt (done ++ event :: rest) done.length
        = eventLinks.lastHash done := by
      rw [Links.headAt, List.take_left' rfl]
    rw [hhead] at hprev
    have hrest := ih (fun e he => hh e (List.mem_cons_of_mem _ he)) (done ++ [event])
      (by rw [List.append_assoc]; exact hlinked)
    rw [Links.lastHash_append_singleton, List.length_append, List.length_singleton] at hrest
    rw [List.map_cons, verifyEventChainFrom]
    rw [if_neg (fun h => h hseq), if_neg (fun h => h hprev),
      if_neg (fun h => h (hh event List.mem_cons_self))]
    exact hrest

/-- **A chained timeline passes `verify_event_chain`.** -/
theorem Chained.verify (hc : Chained crates idx) (r : Uuid) :
    verifyEventChain crates ((idx.timeline r).map EventRecord.view) = true :=
  verifyEventChainFrom_of_linked (idx.timeline r) (hc r).2 [] (hc r).1

/-! ## Run heads -/

/-- Every run names the head of a prefix of its timeline. -/
def HeadsValid (idx : Indexes) : Prop :=
  ∀ (r : Uuid) (run : RunRecord), idx.runs[r]? = some run →
    eventLinks.IsHead (idx.timeline r) run.lastEventSequence run.headHash

theorem headsValid_empty : HeadsValid empty := by
  intro r run h
  simp [empty] at h

/-- An event built on a valid head follows its timeline. -/
theorem HeadsValid.follows {scope : Scope} {r : Uuid} {run : RunRecord} {event : EventRecord}
    (hv : HeadsValid idx) (hk : Keyed idx) (hr : idx.runs[r]? = some run)
    (he : EventOn crates scope run event) :
    event.runId = r ∧ eventLinks.Follows (idx.timeline r) event := by
  refine ⟨he.runId.trans (hk.runs r run hr), ?_⟩
  exact ⟨_, _, hv r run hr, he.sequence, he.previousHash⟩

/-- A record keeps the heads valid if the run it stores, if any, has a valid head. -/
theorem HeadsValid.apply (hv : HeadsValid idx)
    (hrun : ∀ run, (kind = .runCreated run ∨ kind = .runUpdated run) →
      eventLinks.IsHead (idx.timeline run.id) run.lastEventSequence run.headHash) :
    HeadsValid (idx.apply kind).1 := by
  intro r run h
  rcases apply_at idx kind r with ⟨hr, ht⟩ | ⟨run', hkind, hid, hr, ht⟩ |
      ⟨event, -, -, hseq, -, hr, ht⟩ | ⟨_, _, _, -, -, hr, -⟩
  · rw [ht]
    exact hv r run (hr ▸ h)
  · rw [hr] at h
    cases h
    rw [ht, ← hid]
    exact hrun run hkind
  · rw [hr] at h
    obtain ⟨old, -, rfl⟩ := Option.map_eq_some_iff.mp h
    -- the new head is the event itself, the last of the longer timeline
    have hlast := Links.isHead_last (c := eventLinks) (idx.timeline r ++ [event])
    rw [Links.lastHash_append_singleton, List.length_append, List.length_singleton] at hlast
    rw [ht]
    have hs : (old.moveHead event).lastEventSequence = ((idx.timeline r).length + 1 : Nat) := by
      exact hseq
    rw [hs]
    exact hlast
  · rw [hr] at h
    cases h

/-! ## Records that fit -/

/-- Every run and event stands on a head that its timeline has or had. -/
structure Fits (idx : Indexes) (kind : RecordKind) : Prop where
  event : ∀ event, kind.event = some event →
    eventLinks.Follows (idx.timeline event.runId) event
  create : ∀ run, kind = .runCreated run →
    run.lastEventSequence = 0 ∧ run.headHash = genesisHash
  update : ∀ run, kind = .runUpdated run →
    eventLinks.IsHead (idx.timeline run.id) run.lastEventSequence run.headHash

variable {env : Env} {scope : Scope}

/-- **A record that fits applies.** -/
theorem Fits.apply_ok (hf : Fits idx kind) : (idx.apply kind).2 = .ok () := by
  have hevent : ∀ {idx' : Indexes} {event},
      eventLinks.Follows (idx'.timeline event.runId) event →
        (idx'.applyEvent event).2 = .ok () := by
    intro idx' event hfollows
    rcases applyEvent_of_follows hfollows with ⟨-, h⟩ | ⟨-, -, h⟩ <;> rw [h]
  cases kind with
  | runCreated | runUpdated | checkpointCreated | retentionApplied => rfl
  | eventAppended event => exact hevent (hf.event event rfl)
  | effectApplied effect event =>
    cases event with
    | none => rfl
    | some event => exact hevent (hf.event event rfl)

/-- A record fits when it is built. -/
theorem HeadsValid.fits (hv : idx.HeadsValid) (hk : idx.Keyed)
    (hb : Built env idx scope kind) : Fits idx kind where
  event event he := by
    obtain ⟨r, run, hr, hon⟩ := hb.event_spec he
    obtain ⟨rfl, hfollows⟩ := hv.follows hk hr hon
    exact hfollows
  create run hkind := by
    rcases hb.run_spec (Or.inl hkind) with ⟨-, h⟩ | ⟨_, _, hc, -⟩
    · exact h
    · cases hkind.symm.trans hc
  update run hkind := by
    rcases hb.run_spec (Or.inr hkind) with ⟨hc, -⟩ | ⟨r, old, -, hr, hid, hseq, hhead⟩
    · cases hkind.symm.trans hc
    · rw [hid, hk.runs r old hr, hseq, hhead]
      exact hv r old hr

/-- Applying a record that fits keeps the heads valid. -/
theorem Fits.headsValid (hf : Fits idx kind) (hv : idx.HeadsValid) :
    (idx.apply kind).1.HeadsValid := by
  refine hv.apply fun run hkind => ?_
  rcases hkind with hkind | hkind
  · obtain ⟨hseq, hhead⟩ := hf.create run hkind
    rw [hseq, hhead]
    exact Links.isHead_genesis _
  · exact hf.update run hkind

/-- A pending record still fits after another one, unless its run was removed. -/
theorem Fits.apply {other : RecordKind} (ho : Fits idx other)
    (hremoved : ∀ cutoff runIds effectIds, kind = .retentionApplied cutoff runIds effectIds →
      ∀ r ∈ runIds, (∀ run, other = .runUpdated run → run.id ≠ r) ∧
        ∀ event, other.event = some event → event.runId ≠ r) :
    Fits (idx.apply kind).1 other where
  event event he := by
    have hf := ho.event event he
    rcases apply_at idx kind event.runId with ⟨-, ht⟩ | ⟨_, -, -, -, ht⟩ |
        ⟨pushed, -, -, -, -, -, ht⟩ | ⟨_, _, _, hk, hr, -⟩
    · rw [ht]
      exact hf
    · rw [ht]
      exact hf
    · rw [ht]
      exact hf.append pushed
    · exact absurd rfl ((hremoved _ _ _ hk _ hr).2 event he)
  create := ho.create
  update run hkind := by
    have hh := ho.update run hkind
    rcases apply_at idx kind run.id with ⟨-, ht⟩ | ⟨_, -, -, -, ht⟩ |
        ⟨pushed, -, -, -, -, -, ht⟩ | ⟨_, _, _, hk, hr, -⟩
    · rw [ht]
      exact hh
    · rw [ht]
      exact hh
    · rw [ht]
      exact hh.append pushed
    · exact absurd rfl ((hremoved _ _ _ hk _ hr).1 run hkind)

/-! ## Empty lists are not stored -/

theorem events_apply_ne_nil (hf : Fits idx kind) (hne : ∀ r : Uuid, idx.events[r]? ≠ some [])
    (r : Uuid) : (idx.apply kind).1.events[r]? ≠ some [] := by
  have hevent : ∀ {idx' : Indexes} {event}, (∀ r : Uuid, idx'.events[r]? ≠ some []) →
      eventLinks.Follows (idx'.timeline event.runId) event →
        (idx'.applyEvent event).1.events[r]? ≠ some [] := by
    intro idx' event hne' hfollows
    rcases applyEvent_of_follows hfollows with ⟨-, h⟩ | ⟨-, -, h⟩ <;> rw [h]
    · exact hne' r
    · rw [pushEvent, Map.get_insert]
      split
      · simp
      · exact hne' r
  cases kind with
  | runCreated | runUpdated | checkpointCreated => exact hne r
  | eventAppended event => exact hevent hne (hf.event event rfl)
  | effectApplied effect event =>
    cases event with
    | none => exact hne r
    | some event => exact hevent hne (hf.event event rfl)
  | retentionApplied cutoff runIds effectIds =>
    simp only [apply]
    rw [(removeEffects_frame effectIds _).2.1, removeRuns, Map.get_eraseAll]
    split
    · simp
    · exact hne r

theorem checkpoints_apply_ne_nil (hne : ∀ r : Uuid, idx.checkpoints[r]? ≠ some []) (r : Uuid) :
    (idx.apply kind).1.checkpoints[r]? ≠ some [] := by
  rcases checkpoints_apply idx kind with h | ⟨checkpoint, -, h⟩ | ⟨_, runIds, _, -, h⟩ <;> rw [h]
  · exact hne r
  · rw [putCheckpoint, Map.get_insert]
    split
    · split
      · -- the id was found, so the list has an entry
        next hany =>
        intro heq
        rw [Option.some.inj heq] at hany
        cases hany
      · simp
    · exact hne r
  · rw [Map.get_eraseAll]
    split
    · simp
    · exact hne r

/-! ## Snapshots load back -/

theorem timeline_of_get {r : Uuid} {l : List EventRecord} (h : idx.events[r]? = some l) :
    idx.timeline r = l := by
  rw [timeline, h, Option.getD_some]

theorem runs_load_collect (hk : Keyed idx) : (loadState idx.collectState).runs = idx.runs :=
  Map.byKey_values hk.runs

theorem effectsById_load_collect (hk : Keyed idx) :
    (loadState idx.collectState).effectsById = idx.effectsById :=
  Map.byKey_values hk.effects

/-- Sorting a linked timeline by sequence changes nothing. -/
theorem insertionSort_timeline {r : Uuid} (hl : eventLinks.Linked (idx.timeline r)) :
    ((idx.timeline r).insertionSort fun a b => a.sequence ≤ b.sequence) = idx.timeline r :=
  hl.sorted.insertionSort_eq

theorem events_load_collect_get (hk : Keyed idx) (r : Uuid) :
    (loadState idx.collectState).events[r]?
      = (Map.extend none (idx.timeline r)).map
          fun events => events.insertionSort fun a b => a.sequence ≤ b.sequence := by
  have hkey : ∀ k l, idx.events[k]? = some l → ∀ e ∈ l, EventRecord.runId e = k := by
    intro k l h e he
    exact hk.events k e (timeline_of_get h ▸ he)
  rw [loadState, Std.ExtTreeMap.getElem?_map, collectState, Map.groupBy_flatten_get hkey]
  rfl

/-- **A loaded snapshot has the timelines it was collected from.** -/
theorem timeline_load_collect (hk : Keyed idx) {r : Uuid}
    (hl : eventLinks.Linked (idx.timeline r)) :
    (loadState idx.collectState).timeline r = idx.timeline r := by
  have hsort := insertionSort_timeline hl
  rw [timeline, events_load_collect_get hk r]
  cases ht : idx.timeline r with
  | nil => rfl
  | cons event rest =>
    rw [ht] at hsort
    exact hsort

theorem events_load_collect (hk : Keyed idx) (hl : ∀ r, eventLinks.Linked (idx.timeline r))
    (hne : ∀ r : Uuid, idx.events[r]? ≠ some []) :
    (loadState idx.collectState).events = idx.events := by
  refine Map.ext_get fun r => ?_
  have hsort := insertionSort_timeline (hl r)
  rw [events_load_collect_get hk r]
  cases he : idx.events[r]? with
  | none =>
    rw [timeline, he]
    rfl
  | some l =>
    rw [timeline_of_get he] at hsort ⊢
    cases l with
    | nil => exact absurd he (hne r)
    | cons event rest => exact congrArg some hsort

theorem Keyed.load_collect (hk : Keyed idx) (hl : ∀ r, eventLinks.Linked (idx.timeline r)) :
    Keyed (loadState idx.collectState) where
  runs k run h := hk.runs k run (runs_load_collect hk ▸ h)
  effects k effect h := hk.effects k effect (effectsById_load_collect hk ▸ h)
  events k event h := hk.events k event (timeline_load_collect hk (hl k) ▸ h)
  checkpoints k l h c hc := by
    rw [loadState, collectState, Map.groupBy_flatten_get hk.checkpoints] at h
    cases hs : idx.checkpoints[k]? with
    | none =>
      rw [hs] at h
      cases h
    | some l' =>
      rw [hs, Option.getD_some] at h
      cases l' with
      | nil => cases h
      | cons c' rest =>
        cases h
        exact hk.checkpoints k _ hs c hc

theorem Chained.load_collect (hc : Chained crates idx) (hk : Keyed idx) :
    Chained crates (loadState idx.collectState) := by
  intro r
  rw [timeline_load_collect hk (hc r).1]
  exact hc r

end Indexes

end Calod.Ledger
