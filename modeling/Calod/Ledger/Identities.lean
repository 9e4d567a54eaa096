import Calod.Ledger.PartitionLock
import Calod.Ledger.Watermarks

/-!
# Effect identities through crashes and restarts

An effect keeps its id and its key for life, and no two effects share either: `Bound`, in memory.
After a crash, `open` rebuilds the lookup by key from what the disk holds: the state file of a
snapshot, and the records of the log that its watermark does not cover. Truncation may have
deleted records in between.

* `Within.replay` — replaying records of effects whose ids and keys are one to one keeps them so
* `Identities` — every effect that log or state file mentions is known in memory, so a new effect
  shares its id and key with none of them
* `lasting_of_reach` — the partition locks and the identities hold in every state that calls,
  snapshots, crashes and restarts reach without `apply_retention`
-/

namespace Calod.Ledger

open Calod.Core Calod.Storage Lib

variable {state : PersistedState} {watermark : Option WalPosition} {effect : EffectRecord}
  {ledger : Ledger}

/-! ## Identities in the indexes -/

/-- Among the effects of `K`, ids and keys are one to one. -/
def OneToOne (K : EffectRecord → Prop) : Prop :=
  ∀ e e', K e → K e' → (effectKeyOf e = effectKeyOf e' ↔ e.id = e'.id)

namespace Indexes

/-- An effect with this id and this key is stored. -/
def Knows (idx : Indexes) (effect : EffectRecord) : Prop :=
  ∃ stored, idx.effectsById[effect.id]? = some stored ∧ effectKeyOf stored = effectKeyOf effect

/-- Effects of `K` only, bound to their keys. -/
structure Within (K : EffectRecord → Prop) (idx : Indexes) : Prop where
  bound : idx.Bound
  ids : ∀ (id : Uuid) (effect : EffectRecord), idx.effectsById[id]? = some effect → effect.id = id
  among : ∀ (id : Uuid) (effect : EffectRecord), idx.effectsById[id]? = some effect → K effect

variable {K : EffectRecord → Prop} {idx idx' : Indexes} {effect : EffectRecord}

theorem within_empty : Within K empty where
  bound := bound_empty
  ids id effect h := by simp [empty] at h
  among id effect h := by simp [empty] at h

/-- Only the effects and their lookup matter. -/
theorem Within.congr (h : idx.Within K) (hbyId : idx'.effectsById = idx.effectsById)
    (hids : idx'.effectIds = idx.effectIds) : idx'.Within K where
  bound := by
    refine ⟨?_, ?_⟩
    · rw [hbyId, hids]
      exact h.bound.lookup
    · rw [hbyId, hids]
      exact h.bound.stored
  ids := by
    rw [hbyId]
    exact h.ids
  among := by
    rw [hbyId]
    exact h.among

theorem Knows.congr (h : idx.Knows effect) (hbyId : idx'.effectsById = idx.effectsById) :
    idx'.Knows effect := by
  unfold Knows
  rw [hbyId]
  exact h

theorem Within.puts (hK : OneToOne K) (h : idx.Within K) (he : K effect) : idx.Puts effect := by
  cases hstored : idx.effectsById[effect.id]? with
  | some old =>
    have hkey := (hK old effect (h.among _ old hstored) he).mpr (h.ids _ old hstored)
    exact Or.inr ⟨old, hstored, hkey⟩
  | none =>
    refine Or.inl ⟨hstored, ?_⟩
    cases hid : idx.effectIds (effectKeyOf effect) with
    | none => rfl
    | some id =>
      obtain ⟨old, hold, hkey⟩ := h.bound.lookup _ id hid
      have hsame := (hK old effect (h.among id old hold) he).mp hkey
      rw [← hsame, h.ids id old hold, hold] at hstored
      cases hstored

section

variable (hK : OneToOne K) (h : idx.Within K) (he : K effect)
  (hbyId : idx'.effectsById = idx.effectsById.insert effect.id effect)

include hK h he hbyId

theorem Within.put
    (hids : idx'.effectIds = Function.update idx.effectIds (effectKeyOf effect) (some effect.id)) :
    idx'.Within K where
  bound := h.bound.put (h.puts hK he) hbyId hids
  ids id e hstored := by
    rw [hbyId, Map.get_insert] at hstored
    split at hstored
    · next hid =>
      cases hstored
      exact hid
    · exact h.ids id e hstored
  among id e hstored := by
    rw [hbyId, Map.get_insert] at hstored
    split at hstored
    · cases hstored
      exact he
    · exact h.among id e hstored

omit h in
/-- What is known stays known. -/
theorem knows_of_put {known : EffectRecord} (hknown : K known) (hk : idx.Knows known) :
    idx'.Knows known := by
  obtain ⟨stored, hstored, hkey⟩ := hk
  unfold Knows
  rw [hbyId, Map.get_insert]
  split
  · next hid => exact ⟨effect, rfl, (hK effect known he hknown).mpr hid⟩
  · exact ⟨stored, hstored, hkey⟩

end

/-- Records that remove nothing, of effects of `K`. -/
def Among (K : EffectRecord → Prop) (kind : RecordKind) : Prop :=
  kind.isRetention = false ∧ ∀ effect, kind.effect = some effect → K effect

theorem knows_applied {kind : RecordKind} (h : kind.effect = some effect) :
    (idx.apply kind).1.Knows effect :=
  ⟨effect, by rw [(effects_apply_effect h).1, Map.get_insert, if_pos rfl], rfl⟩

/-- **A record of an effect of `K` keeps everything within `K`, and forgets nothing.** -/
theorem Within.apply (hK : OneToOne K) (h : idx.Within K) {kind : RecordKind}
    (hkind : Among K kind) :
    (idx.apply kind).1.Within K ∧
      ∀ known, K known → idx.Knows known → (idx.apply kind).1.Knows known := by
  obtain ⟨hret, hamong⟩ := hkind
  rcases effects_apply idx kind with ⟨hbyId, hids⟩ | ⟨effect, event, rfl, hbyId, hids⟩ |
      ⟨_, _, _, rfl, -⟩
  · exact ⟨h.congr hbyId hids, fun _ _ hk => hk.congr hbyId⟩
  · have he := hamong effect rfl
    exact ⟨h.put hK he hbyId hids, fun known hknown hk => knows_of_put hK he hbyId hknown hk⟩
  · cases hret

/-- **A replay keeps everything within `K`, and knows every effect of its records.** -/
theorem Within.replay (hK : OneToOne K) {kinds : List RecordKind}
    (hkinds : ∀ kind ∈ kinds, Among K kind) :
    ∀ {idx}, idx.Within K → Calod.Ledger.replay idx kinds = .ok idx' →
      idx'.Within K ∧ (∀ known, K known → idx.Knows known → idx'.Knows known) ∧
        ∀ kind ∈ kinds, ∀ effect, kind.effect = some effect → idx'.Knows effect := by
  induction kinds with
  | nil =>
    intro idx h hr
    cases hr
    exact ⟨h, fun _ _ hk => hk, fun _ hm => nomatch hm⟩
  | cons kind kinds ih =>
    intro idx h hr
    rw [Calod.Ledger.replay] at hr
    split at hr
    · next idx₁ hap =>
      have hkind := hkinds kind List.mem_cons_self
      obtain ⟨hwithin, hkept⟩ := h.apply hK hkind
      have hnow : ∀ e, kind.effect = some e → (idx.apply kind).1.Knows e :=
        fun e he => knows_applied he
      rw [hap] at hwithin hkept hnow
      obtain ⟨hwithin', hkept', hrest⟩ :=
        ih (fun k hk => hkinds k (List.mem_cons_of_mem _ hk)) hwithin hr
      refine ⟨hwithin', fun known hknown hk => hkept' known hknown (hkept known hknown hk), ?_⟩
      intro k hk e he
      rcases List.mem_cons.mp hk with rfl | hk
      · exact hkept' e (hkind.2 e he) (hnow e he)
      · exact hrest k hk e he
    · cases hr

/-- Loading the effects of a state file is replaying a record for each of them. -/
theorem replay_effects (effects : List EffectRecord) : ∀ idx,
    ∃ idx', Calod.Ledger.replay idx (effects.map fun effect => .effectApplied effect none)
        = .ok idx' ∧
      idx'.effectsById = Map.byKey EffectRecord.id idx.effectsById effects ∧
      idx'.effectIds = effects.foldl
        (fun ids effect => Function.update ids (effectKeyOf effect) (some effect.id))
        idx.effectIds := by
  induction effects with
  | nil => exact fun idx => ⟨idx, rfl, rfl, rfl⟩
  | cons effect effects ih => exact fun idx => ih (idx.putEffect effect)

theorem within_load (hK : OneToOne K) (h : ∀ effect ∈ state.effects, K effect) :
    (loadState state).Within K ∧ ∀ effect ∈ state.effects, (loadState state).Knows effect := by
  obtain ⟨idx, hreplay, hbyId, hids⟩ := replay_effects state.effects empty
  have hamong : ∀ kind ∈ state.effects.map fun effect => RecordKind.effectApplied effect none,
      Among K kind := by
    intro kind hk
    obtain ⟨effect, heffect, rfl⟩ := List.mem_map.mp hk
    refine ⟨rfl, fun e he => ?_⟩
    cases he
    exact h effect heffect
  obtain ⟨hwithin, -, hknown⟩ := within_empty.replay hK hamong hreplay
  refine ⟨hwithin.congr hbyId.symm hids.symm, fun effect heffect => ?_⟩
  exact (hknown _ (List.mem_map_of_mem heffect) effect rfl).congr hbyId.symm

end Indexes

/-! ## Identities in the system -/

/-- A state file that is there is what loads: without its manifest, `open` fails. -/
theorem loadIndexes_stateFile {env : Env} {disk : SnapshotDir} {idx : Indexes}
    (h : loadIndexes env disk = .ok (idx, watermark)) (hs : disk.stateFile = some state) :
    idx = .loadState state := by
  rcases loadIndexes_eq_ok h with ⟨hm, -, -⟩ | ⟨state', _, hs', -, rfl, -⟩
  · simp [loadIndexes, loadSnapshot, hm, hs, bind, Except.bind] at h
  · cases hs.symm.trans hs'
    rfl

/-- The call asks for retention. -/
def Request.isRetention : Request → Bool
  | .call _ c => c.isRetention
  | .snapshot => false

/-- The task neither asks for retention nor is about to apply it. -/
structure Task.Spares (task : Task) : Prop where
  call : task.request.isRetention = false
  pending : ∀ kind, task.pc.pending = some kind → kind.isRetention = false

theorem Task.Spares.idle {task task' : Task} (h : task.Spares)
    (hrequest : task'.request = task.request) (hpending : task'.pc.pending = none) :
    task'.Spares where
  call := hrequest ▸ h.call
  pending kind hk := by
    rw [hpending] at hk
    cases hk

/-- The state file has an effect with this id and this key. -/
def SnapshotDir.Holds (dir : SnapshotDir) (effect : EffectRecord) : Prop :=
  ∃ state, dir.stateFile = some state ∧
    ∃ saved ∈ state.effects, saved.id = effect.id ∧ effectKeyOf saved = effectKeyOf effect

namespace Sys

/-- `apply_retention` is never called, and effects get unused ids. Snapshots may be taken, and the
ledger may crash and be reopened. -/
def retentionFree (s : Sys) (action : Action) : Bool :=
  (match action with
    | .spawn request => !request.isRetention
    | _ => true) && s.freshId action

/-- The effect is stored, or about to be. -/
def Known (s : Sys) (effect : EffectRecord) : Prop :=
  s.ledger.indexes.Knows effect ∨
    ∃ (i : Nat) (task : Task) (next : EffectRecord) (response : Response),
      s.tasks[i]? = some task ∧ task.pc.carries = some (next, response) ∧ next.id = effect.id ∧
        effectKeyOf next = effectKeyOf effect

variable {env : Env} {s s' : Sys} {action : Action} {i : Nat} {task task' : Task}

/-- An effect that is about to be stored is stored already, or new in both respects. -/
theorem PartitionLock.known_cases (hl : PartitionLock env s) (hk : s.ledger.indexes.Keyed)
    (h : s.Known effect) :
    s.ledger.indexes.Knows effect ∨
      (s.ledger.indexes.effectOf (effectKeyOf effect) = none ∧
        s.ledger.indexes.effectsById[effect.id]? = none ∧
        ∃ (i : Nat) (task : Task) (next : EffectRecord) (response : Response),
          s.tasks[i]? = some task ∧ task.pc.carries = some (next, response) ∧
            next.id = effect.id ∧ effectKeyOf next = effectKeyOf effect) := by
  rcases h with h | ⟨i, task, next, response, hi, hc, hid, hkey⟩
  · exact Or.inl h
  · obtain ⟨scope, call, -, -, hstores, hnone⟩ := hl.carrying i task hi next response hc
    rw [← hid, ← hkey]
    rcases puts_of_stores hl.bound hk hstores hnone with ⟨hfree, hids⟩ | ⟨old, hold, hsame⟩
    · refine Or.inr ⟨?_, hfree, i, task, next, response, hi, hc, rfl, rfl⟩
      rw [Indexes.effectOf, hids]
      rfl
    · refine Or.inl ⟨old, ?_, ?_⟩
      · rw [← hid]
        exact hold
      · rw [hsame, hkey]

/-- **Under the partition locks, ids and keys are one to one**, effects in flight included. -/
theorem PartitionLock.oneToOne (hl : PartitionLock env s) (hk : s.ledger.indexes.Keyed) :
    OneToOne s.Known := by
  -- a stored effect shares neither id nor key with a new one
  have happart : ∀ {e e' : EffectRecord}, s.ledger.indexes.Knows e →
      s.ledger.indexes.effectOf (effectKeyOf e') = none →
      s.ledger.indexes.effectsById[e'.id]? = none →
      effectKeyOf e ≠ effectKeyOf e' ∧ e.id ≠ e'.id := by
    rintro e e' ⟨stored, hstored, hkey⟩ hof hid
    constructor
    · intro hsame
      rw [← hsame, hl.bound.effectOf_eq_some.mpr ⟨e.id, hstored, hkey⟩] at hof
      cases hof
    · intro hsame
      rw [← hsame, hstored] at hid
      cases hid
  intro e e' he he'
  rcases hl.known_cases hk he with hknown | ⟨hof, hid, i, task, next, r, hi, hc, hnid, hnkey⟩
  · rcases hl.known_cases hk he' with hknown' | ⟨hof', hid', -⟩
    · obtain ⟨stored, hstored, hkey⟩ := hknown
      obtain ⟨stored', hstored', hkey'⟩ := hknown'
      constructor
      · intro hsame
        have h₁ := hl.bound.stored e.id stored hstored
        have h₂ := hl.bound.stored e'.id stored' hstored'
        rw [hkey, hsame, ← hkey', h₂] at h₁
        exact (Option.some.inj h₁).symm
      · intro hsame
        rw [hsame, hstored'] at hstored
        cases hstored
        rw [← hkey, ← hkey']
    · obtain ⟨hkeys, hids⟩ := happart hknown hof' hid'
      exact ⟨fun h => absurd h hkeys, fun h => absurd h hids⟩
  · rcases hl.known_cases hk he' with
      hknown' | ⟨-, -, j, task', next', r', hj, hc', hnid', hnkey'⟩
    · obtain ⟨hkeys, hids⟩ := happart hknown' hof hid
      exact ⟨fun h => absurd h.symm hkeys, fun h => absurd h.symm hids⟩
    · rw [← hnid, ← hnkey, ← hnid', ← hnkey']
      by_cases hij : i = j
      · subst hij
        cases hi.symm.trans hj
        cases hc.symm.trans hc'
        exact ⟨fun _ => rfl, fun _ => rfl⟩
      · -- two tasks hold different partitions and store different effects
        have hapart := hl.apart i j task task' hij hi hj
        obtain ⟨-, -, -, hp, -⟩ := hl.carrying i task hi next r hc
        obtain ⟨-, -, -, hp', -⟩ := hl.carrying j task' hj next' r' hc'
        constructor
        · intro hsame
          rw [hsame] at hp
          exact absurd hp' (hapart.partition _ hp)
        · exact fun hsame => absurd hsame (hapart.ids next r next' r' hc hc')

/-! ## What the disk mentions is known -/

/-- Every effect that log or state file mentions is known in memory, and nothing is removed. -/
structure Identities (env : Env) (s : Sys) : Prop where
  spares : ∀ task ∈ s.tasks, task.Spares
  logged : ∀ r ∈ s.ledger.wal.records env.encodedLen, r.payload.isRetention = false
  settled : ∀ r ∈ s.settled.records env.encodedLen, ∀ effect, r.payload.effect = some effect →
    s.ledger.indexes.Knows effect
  saved : ∀ state, s.disk.stateFile = some state → ∀ effect ∈ state.effects,
    s.ledger.indexes.Knows effect
  /-- What the watermark covers is in the state file. -/
  covered : ∀ watermark, s.disk.watermark = some watermark →
    ∀ r ∈ s.ledger.wal.records env.encodedLen, r.position ≤ watermark →
    ∀ effect, r.payload.effect = some effect → s.disk.Holds effect
  /-- So is everything, when a snapshot is about to write its manifest. -/
  saving : ∀ task ∈ s.tasks, ∀ watermark state now, task.pc = .saving watermark state now →
    ∀ r ∈ s.ledger.wal.records env.encodedLen, ∀ effect, r.payload.effect = some effect →
    s.disk.Holds effect

theorem identities_init : Identities env init where
  spares _ h := nomatch h
  logged r hr := by
    simp [init, fresh, Wal.records, Wal.segments, replayAll, Segment.records, scanSegment] at hr
  settled r hr := by
    simp [init, settled, fresh, Wal.records, Wal.segments, replayAll, Segment.records,
      scanSegment] at hr
  saved _ h := nomatch h
  covered _ h := nomatch h
  saving _ h := nomatch h

theorem forall_set {P : Task → Prop} {l : List Task} (h : ∀ t ∈ l, P t) (hnew : P task') :
    ∀ t ∈ l.set i task', P t := by
  intro t ht
  rcases List.mem_or_eq_of_mem_set ht with hm | rfl
  · exact h t hm
  · exact hnew

/-- A step that moves one task and leaves indexes, disk and log alone. -/
theorem Identities.set (hd : Identities env s) (htasks : s'.tasks = s.tasks.set i task')
    (hledger : s'.ledger = s.ledger) (hdisk : s'.disk = s.disk) (hsettled : s'.settled = s.settled)
    (hspares : task'.Spares)
    (hsaving : ∀ watermark state now, task'.pc ≠ .saving watermark state now) :
    Identities env s' where
  spares := htasks ▸ forall_set hd.spares hspares
  logged := by
    rw [hledger]
    exact hd.logged
  settled := by
    rw [hsettled, hledger]
    exact hd.settled
  saved := by
    rw [hdisk, hledger]
    exact hd.saved
  covered := by
    rw [hdisk, hledger]
    exact hd.covered
  saving := by
    rw [hdisk, hledger, htasks]
    exact forall_set hd.saving fun watermark state now hpc =>
      absurd hpc (hsaving watermark state now)

variable (hd : Identities env s) (h : s.retentionFree action = true) (hc : CommitLock env s)
  (hw : Watermarks env s) (hl : PartitionLock env s) (hk : s.ledger.indexes.Keyed)
  (hi : s.tasks[i]? = some task)

include hl hk in
/-- What is stored is among what is known. -/
theorem PartitionLock.within : s.ledger.indexes.Within s.Known where
  bound := hl.bound
  ids := hk.effects
  among id effect hstored := by
    refine Or.inl ⟨effect, ?_, rfl⟩
    rw [hk.effects id effect hstored]
    exact hstored

theorem known_of_carries {response : Response} (hi : s.tasks[i]? = some task)
    (h : task.pc.carries = some (effect, response)) : s.Known effect :=
  Or.inr ⟨i, task, effect, response, hi, h, rfl, rfl⟩

section

variable {kind : RecordKind} {response : Response} {position : WalPosition}

theorem Identities.append (hd : Identities env s) (hw : Watermarks env s)
    (hi : s.tasks[i]? = some task) (hpc : task.pc = .waitCommit kind response)
    (hfree : s.commitFree = true) :
    Identities env { (s.append env task kind response).1 with
      tasks := s.tasks.set i (s.append env task kind response).2 } := by
  have htask := hd.spares task (List.mem_of_getElem? hi)
  have hkind : kind.isRetention = false := htask.pending kind (by rw [hpc]; rfl)
  have hsettled := settled_of_commitFree hfree
  have hrecords : (s.append env task kind response).1.ledger.wal.records env.encodedLen
      = s.ledger.wal.records env.encodedLen ++ [{
          position := (s.ledger.wal.handleAppend env.encodedLen env.config.maxSegmentSize kind).1
          payload := kind }] :=
    Wal.records_handleAppend ..
  -- the new record lies past every watermark
  have hpast : s.settled.endPosition env.encodedLen
      ≤ (s.ledger.wal.handleAppend env.encodedLen env.config.maxSegmentSize kind).1 := by
    rw [hsettled]
    rcases s.ledger.wal.handleAppend_cases env.encodedLen env.config.maxSegmentSize kind with h | h
    · rw [h]
      exact WalPosition.le_refl _
    · rw [h]
      exact Wal.endPosition_le_rollSegment _
  constructor
  case spares =>
    refine forall_set hd.spares ⟨htask.call, fun k hk => ?_⟩
    cases hk
    exact hkind
  case logged =>
    intro r hr
    rw [hrecords] at hr
    rcases List.mem_append.mp hr with hr | hr
    · exact hd.logged r hr
    · rw [List.mem_singleton.mp hr]
      exact hkind
  case settled =>
    intro r hr
    refine hd.settled r ?_
    rw [hsettled]
    rcases settled_append env kind response hi with h | h
    · rwa [h] at hr
    · rwa [h, Wal.records_rollSegment] at hr
  case saved => exact hd.saved
  case covered =>
    intro watermark hwatermark r hr hle
    rw [hrecords] at hr
    rcases List.mem_append.mp hr with hr | hr
    · exact hd.covered watermark hwatermark r hr hle
    · rw [List.mem_singleton.mp hr] at hle
      exact absurd hle (WalPosition.not_le_of_lt
        (WalPosition.lt_of_lt_of_le (hw.manifest watermark hwatermark) hpast))
  case saving =>
    intro t ht watermark state now hsaving
    rcases List.mem_or_eq_of_mem_set ht with hm | rfl
    · -- nobody saves while the commit lock is free
      obtain ⟨j, hj⟩ := List.mem_iff_getElem?.mp hm
      have hnot := commitFree_at hfree hj
      rw [hsaving] at hnot
      cases hnot
    · cases hsaving

theorem Identities.commit (hd : Identities env s) (hc : CommitLock env s)
    (hl : PartitionLock env s) (hk : s.ledger.indexes.Keyed) (hi : s.tasks[i]? = some task)
    (hpc : task.pc = .appended kind response position) {result : Except LedgerError Response}
    (htasks : s'.tasks = s.tasks.set i (task.finish result (some kind)))
    (hidx : s'.ledger.indexes = (s.ledger.indexes.apply kind).1)
    (hwal : s'.ledger.wal = s.ledger.wal) (hdisk : s'.disk = s.disk)
    (hsettled : s'.settled = s.ledger.wal) : Identities env s' := by
  have htask := hd.spares task (List.mem_of_getElem? hi)
  have hkind : kind.isRetention = false := htask.pending kind (by rw [hpc]; rfl)
  have hamong : Indexes.Among s.Known kind := by
    refine ⟨hkind, fun effect he => ?_⟩
    have hcarries : task.pc.carries = some (effect, response) := by
      rw [hpc, Pc.carries, he]
      rfl
    exact known_of_carries hi hcarries
  have hkept : ∀ effect, s.ledger.indexes.Knows effect → s'.ledger.indexes.Knows effect := by
    intro effect hknows
    rw [hidx]
    exact ((hl.within hk).apply (hl.oneToOne hk) hamong).2 effect (Or.inl hknows) hknows
  obtain ⟨hwritten, -⟩ := hc.settled_appended hi hpc
  constructor
  case spares => exact htasks ▸ forall_set hd.spares (htask.idle rfl rfl)
  case logged =>
    rw [hwal]
    exact hd.logged
  case settled =>
    intro r hr effect he
    rw [hsettled, hwritten, Wal.records_writeRecord] at hr
    rcases List.mem_append.mp hr with hr | hr
    · exact hkept effect (hd.settled r hr effect he)
    · rw [List.mem_singleton.mp hr] at he
      rw [hidx]
      exact Indexes.knows_applied he
  case saved =>
    rw [hdisk]
    exact fun state hstate effect he => hkept effect (hd.saved state hstate effect he)
  case covered =>
    rw [hdisk, hwal]
    exact hd.covered
  case saving =>
    rw [hdisk, hwal, htasks]
    exact forall_set hd.saving fun _ _ _ hsaving => by cases hsaving

end

include hd hk hi in
/-- A snapshot writes everything that is known to the state file. -/
theorem Identities.saveState (hpc : task.pc = .waitSnapshot) (hfree : s.commitFree = true)
    (now : Int) :
    Identities env { s with
      disk := s.disk.writeState s.ledger.indexes.collectState
      tasks := s.tasks.set i { task with
        pc := .saving s.ledger.lastWalPosition s.ledger.indexes.collectState now } } := by
  have hsettled : ({ s with
      disk := s.disk.writeState s.ledger.indexes.collectState
      tasks := s.tasks.set i { task with
        pc := .saving s.ledger.lastWalPosition s.ledger.indexes.collectState now } } : Sys).settled
      = s.settled :=
    settled_set hi rfl rfl (by rw [hpc]; rfl) rfl
  have hholds : ∀ r ∈ s.ledger.wal.records env.encodedLen, ∀ effect,
      r.payload.effect = some effect →
      (s.disk.writeState s.ledger.indexes.collectState).Holds effect := by
    intro r hr effect he
    rw [← settled_of_commitFree hfree] at hr
    obtain ⟨stored, hstored, hkey⟩ := hd.settled r hr effect he
    exact ⟨_, rfl, stored, Map.mem_values.mpr ⟨_, hstored⟩, hk.effects _ stored hstored, hkey⟩
  constructor
  case spares =>
    exact forall_set hd.spares ((hd.spares task (List.mem_of_getElem? hi)).idle rfl rfl)
  case logged => exact hd.logged
  case settled =>
    rw [hsettled]
    exact hd.settled
  case saved =>
    rintro state ⟨⟩ effect he
    obtain ⟨id, hstored⟩ := Map.mem_values.mp he
    exact ⟨effect, by rw [hk.effects id effect hstored]; exact hstored, rfl⟩
  case covered => exact fun _ _ r hr _ => hholds r hr
  case saving => exact fun _ _ _ _ _ _ => hholds

include hd hi in
theorem Identities.saveManifest {now : Int} (hpc : task.pc = .saving watermark state now) :
    Identities env { s with
      disk := s.disk.writeManifest (manifestFor env state watermark now)
      tasks := s.tasks.set i { task with pc := .afterSave watermark } } := by
  have hsaved := hd.saving task (List.mem_of_getElem? hi) watermark state now hpc
  constructor
  case spares =>
    refine forall_set hd.spares ((hd.spares task (List.mem_of_getElem? hi)).idle rfl ?_)
    cases watermark <;> rfl
  case logged => exact hd.logged
  case settled =>
    rw [settled_saveManifest env hi hpc]
    exact hd.settled
  case saved => exact hd.saved
  case covered => exact fun _ _ r hr _ => hsaved r hr
  case saving => exact fun _ _ _ _ _ _ => hsaved

include hd hi in
theorem Identities.remove {id : Nat} {ids : List Nat} (hpc : task.pc = .removing (id :: ids)) :
    Identities env { s with
      ledger := { s.ledger with wal := s.ledger.wal.removeSegment id }
      tasks := s.tasks.set i { task with pc := .removing ids } } := by
  have hsub : ∀ r ∈ (s.ledger.wal.removeSegment id).records env.encodedLen,
      r ∈ s.ledger.wal.records env.encodedLen :=
    fun r hr => (Wal.records_removeSegment_sublist _ _).subset hr
  constructor
  case spares =>
    exact forall_set hd.spares ((hd.spares task (List.mem_of_getElem? hi)).idle rfl rfl)
  case logged => exact fun r hr => hd.logged r (hsub r hr)
  case settled =>
    rw [settled_removeSegment hi hpc]
    exact fun r hr => hd.settled r ((Wal.records_removeSegment_sublist _ _).subset hr)
  case saved => exact hd.saved
  case covered => exact fun w hw r hr => hd.covered w hw r (hsub r hr)
  case saving =>
    refine forall_set ?_ fun _ _ _ hsaving => nomatch hsaving
    exact fun t ht w state now hsaving r hr => hd.saving t ht w state now hsaving r (hsub r hr)

/-! ## Restart -/

include hd hc in
/-- Everything in the log is known: it is settled, or the record of the task that appended it. -/
theorem Identities.known_of_logged {r : WalRecord RecordKind}
    (hr : r ∈ s.ledger.wal.records env.encodedLen) (he : r.payload.effect = some effect) :
    s.Known effect := by
  by_cases hfree : ∃ (i : Nat) (task : Task), s.tasks[i]? = some task ∧ task.pc.isAppended = true
  · obtain ⟨i, task, hi, happended⟩ := hfree
    cases hpc : task.pc with
    | appended kind response position =>
      rw [(hc.settled_appended hi hpc).1, Wal.records_writeRecord] at hr
      rcases List.mem_append.mp hr with hr | hr
      · exact Or.inl (hd.settled r hr effect he)
      · rw [List.mem_singleton.mp hr] at he
        have hcarries : task.pc.carries = some (effect, response) := by
          rw [hpc, Pc.carries, he]
          rfl
        exact known_of_carries hi hcarries
    | _ =>
      rw [hpc] at happended
      cases happended
  · rw [← settled_of_free fun i task hi => Bool.eq_false_iff.mpr fun h => hfree ⟨i, task, hi, h⟩]
      at hr
    exact Or.inl (hd.settled r hr effect he)

/-- What `open` rebuilds: effects that were known, bound to their keys, and among them all that
log and state file mention. -/
theorem Identities.opened {keepUnacked : Bool} (hd : Identities env s) (hc : CommitLock env s)
    (hl : PartitionLock env s) (hk : s.ledger.indexes.Keyed)
    (ho : Ledger.open env s.disk (s.crashDir keepUnacked) = .ok ledger) :
    ledger.indexes.Within s.Known ∧
      (∀ r ∈ replayAll env.encodedLen (s.crashDir keepUnacked).segments, ∀ effect,
        r.payload.effect = some effect → ledger.indexes.Knows effect) ∧
      ∀ state, s.disk.stateFile = some state → ∀ effect ∈ state.effects,
        ledger.indexes.Knows effect := by
  obtain ⟨idx, hload, hreplay, -, -⟩ := open_eq_ok ho
  have hone := hl.oneToOne hk
  have hlog := crashDir_records_sublist env s keepUnacked
  have hsaved : ∀ state, s.disk.stateFile = some state → ∀ effect ∈ state.effects,
      s.Known effect := fun state hs effect he => Or.inl (hd.saved state hs effect he)
  -- the state file, if there is one, loads within what was known
  have hloaded : idx.Within s.Known ∧ ∀ state, s.disk.stateFile = some state →
      ∀ effect ∈ state.effects, idx.Knows effect := by
    cases hstate : s.disk.stateFile with
    | some state =>
      rw [loadIndexes_stateFile hload hstate]
      obtain ⟨hwithin, hknows⟩ := Indexes.within_load hone (hsaved state hstate)
      refine ⟨hwithin, ?_⟩
      rintro _ ⟨⟩
      exact hknows
    | none =>
      rcases loadIndexes_eq_ok hload with ⟨-, rfl, -⟩ | ⟨state, _, hs, -⟩
      · exact ⟨Indexes.within_empty, fun _ h => nomatch h⟩
      · cases hstate.symm.trans hs
  obtain ⟨hwithin, hsavedKnown⟩ := hloaded
  have hamong : ∀ kind ∈ replayed env s.disk.watermark (s.crashDir keepUnacked),
      Indexes.Among s.Known kind := by
    intro kind hkind
    obtain ⟨r, hr, rfl⟩ := List.mem_map.mp hkind
    have hr := hlog.subset (List.mem_filter.mp hr).1
    exact ⟨hd.logged r hr, fun effect he => hd.known_of_logged hc hr he⟩
  obtain ⟨hwithin', hkept, hreplayed⟩ := hwithin.replay hone hamong hreplay
  have hstill : ∀ state, s.disk.stateFile = some state → ∀ effect ∈ state.effects,
      ledger.indexes.Knows effect := fun state hs effect he =>
    hkept effect (hsaved state hs effect he) (hsavedKnown state hs effect he)
  refine ⟨hwithin', fun r hr effect he => ?_, hstill⟩
  cases huncovered : uncovered s.disk.watermark r with
  | true =>
    exact hreplayed r.payload (List.mem_map_of_mem (List.mem_filter.mpr ⟨hr, huncovered⟩)) effect he
  | false =>
    -- a covered record is skipped; its effect is in the state file
    unfold uncovered at huncovered
    split at huncovered
    · cases huncovered
    · next watermark hwatermark =>
      have hle : r.position ≤ watermark := by simpa using huncovered
      obtain ⟨state, hs, saved, hmem, hid, hkey⟩ :=
        hd.covered watermark hwatermark r (hlog.subset hr) hle effect he
      obtain ⟨stored, hstored, hsame⟩ := hstill state hs saved hmem
      exact ⟨stored, hid ▸ hstored, hsame.trans hkey⟩

include hd hc hl hk in
theorem Identities.reopen {keepUnacked : Bool}
    (ho : Ledger.open env s.disk (s.crashDir keepUnacked) = .ok ledger) :
    Identities env { ledger, disk := s.disk, locks := .empty, tasks := [], acked := s.acked } := by
  obtain ⟨-, hlogged, hsaved⟩ := hd.opened hc hl hk ho
  obtain ⟨_, -, -, hwal, -⟩ := open_eq_ok ho
  have hrecords := Wal.records_open env.encodedLen hwal
  have hsub : ∀ r ∈ ledger.wal.records env.encodedLen, r ∈ s.ledger.wal.records env.encodedLen := by
    rw [hrecords]
    exact fun r hr => (crashDir_records_sublist env s keepUnacked).subset hr
  constructor
  case spares => exact fun _ h => nomatch h
  case logged => exact fun r hr => hd.logged r (hsub r hr)
  case settled =>
    change ∀ r ∈ ledger.wal.records env.encodedLen, _
    rw [hrecords]
    exact hlogged
  case saved => exact hsaved
  case covered => exact fun w hw r hr => hd.covered w hw r (hsub r hr)
  case saving => exact fun _ h => nomatch h

/-- After a restart no call is in progress. -/
theorem partitionLock_reopen (hbound : ledger.indexes.Bound) :
    PartitionLock env
      { ledger, disk := s.disk, locks := .empty, tasks := [], acked := s.acked } where
  bound := hbound
  located _ _ h := nomatch h
  carrying _ _ h := nomatch h
  apart _ _ _ _ _ h := nomatch h

/-! ## Runs -/

theorem retentionFree_fresh (h : s.retentionFree action = true) : s.freshId action = true :=
  (Bool.and_eq_true_iff.mp h).2

include hd h in
/-- While the ledger is open, nothing is removed. -/
theorem Identities.keepsEffects (hopen : action.isReopen = false) :
    s.keepsEffects action = true := by
  have hcommits : ((s.commits action).all fun p => !p.2.isRetention) = true := by
    cases hc : s.commits action with
    | none => rfl
    | some p =>
      obtain ⟨task, hi, hp⟩ := Option.bind_eq_some_iff.mp (commits_pending hc)
      have hkind := (hd.spares task (List.mem_of_getElem? hi)).pending p.2 hp
      rw [Option.all_some, hkind]
      rfl
  rw [Sys.keepsEffects, hopen, hcommits, retentionFree_fresh h]
  rfl

include hd hc hw hl hk in
/-- **Every step without retention keeps the identities.** -/
theorem Identities.step (hfree : s.retentionFree action = true) (h : s.step env action = some s') :
    Identities env s' := by
  have hplain : ∀ {i} {task task'} {locks}, s.tasks[i]? = some task →
      task.pc.holdsCommit = false → task'.pc.plain = true → task'.Spares →
      Identities env (s.withTask i task' locks) := by
    intro i task task' locks hi hbefore hpc hspares
    refine hd.set rfl rfl rfl (settled_withTask hi hbefore hpc) hspares fun _ _ _ hsaving => ?_
    rw [hsaving] at hpc
    cases hpc
  have hspares : ∀ {i} {task : Task}, s.tasks[i]? = some task → task.Spares :=
    fun hi => hd.spares _ (List.mem_of_getElem? hi)
  cases step_moves h with
  | spawn request =>
    refine ⟨fun t ht => ?_, hd.logged, ?_, hd.saved, hd.covered, fun t ht => ?_⟩
    · rcases List.mem_append.mp ht with hm | hm
      · exact hd.spares t hm
      · rw [List.mem_singleton.mp hm]
        exact ⟨by simpa [Task.new] using (Bool.and_eq_true_iff.mp hfree).1, fun _ hp => by cases hp⟩
    · rw [settled_spawn]
      exact hd.settled
    · rcases List.mem_append.mp ht with hm | hm
      · exact hd.saving t hm
      · rw [List.mem_singleton.mp hm]
        exact fun _ _ _ hpc => by cases hpc
  | quiet _ locks hi hrequest hpc hbefore =>
    exact hplain hi hbefore hpc.plain ((hspares hi).idle hrequest hpc.pending)
  | answer hi hrequest hu hbefore => exact hplain hi hbefore rfl ((hspares hi).idle rfl rfl)
  | persist hi hrequest hrequest' hpc hu hbefore =>
    refine hplain hi hbefore (by rw [hpc]; rfl) ⟨hrequest' ▸ (hspares hi).call, fun k hkind => ?_⟩
    rw [hpc] at hkind
    cases hkind
    -- only retention builds a record that removes anything
    refine Bool.eq_false_iff.mpr fun hret => ?_
    have hcall := (hspares hi).call
    rw [hrequest, Request.isRetention, (built_of_persist hu).2.2 hret] at hcall
    cases hcall
  | persistRunless hi hrequest hrequest' hpc hrun hu hbefore =>
    refine hplain hi hbefore (by rw [hpc]; rfl) ⟨hrequest' ▸ (hspares hi).call, fun k hkind => ?_⟩
    rw [hpc] at hkind
    cases hkind
    rfl
  | waitEffectRun locks hi hrequest hrequest' hpc hu hbefore =>
    exact hplain hi hbefore (by rw [hpc]; rfl) ((hspares hi).idle hrequest' (by rw [hpc]; rfl))
  | persistEffect hi hrequest hrequest' hold hpc hevent =>
    refine hplain hi (by rw [hold]; rfl) (by rw [hpc]; rfl)
      ⟨hrequest' ▸ (hspares hi).call, fun k hkind => ?_⟩
    rw [hpc] at hkind
    cases hkind
    rfl
  | append hi hpc hcommit hlen => exact hd.append hw hi hpc hcommit
  | commit hi hpc =>
    rename_i i task draws kind response position
    obtain ⟨result, hresult⟩ := finish_commit s task kind response position
    obtain ⟨hwal, hdisk⟩ := commit_frame s task kind response position
    exact hd.commit hc hl hk hi hpc (congrArg (s.tasks.set i) hresult) (indexes_commit ..) hwal
      hdisk (hc.settled_commit hi hpc)
  | saveState hi hrequest hpc hcommit => exact hd.saveState hk hi hpc hcommit _
  | saveManifest hi hrequest hpc => exact hd.saveManifest hi hpc
  | list hi hrequest hpc =>
    exact hd.set rfl rfl rfl (settled_set hi rfl rfl (by rw [hpc]; rfl) rfl)
      ((hspares hi).idle rfl rfl) fun _ _ _ h => by cases h
  | remove hi hrequest hpc => exact hd.remove hi hpc
  | reopen ho => exact hd.reopen hc hl hk ho

/--
**Partition locks and identities outlast crashes and restarts**, in every run of calls, snapshots,
crashes and restarts without retention.
-/
theorem lasting_of_reach
    (h : Reach (Sys.step env) (fun s a => s.retentionFree a = true) init s) :
    PartitionLock env s ∧ Identities env s := by
  refine h.invariant_of_reach (I := fun s => PartitionLock env s ∧ Identities env s)
    ⟨partitionLock_init, identities_init⟩ ?_
  rintro s action s' hreach ⟨hl, hd⟩ hfree hstep
  have hk := (Sound.of_reach hreach).keyed
  have hc := CommitLock.of_reach hreach
  refine ⟨?_, hd.step hc (.of_reach hreach) hl hk hfree hstep⟩
  cases hopen : action.isReopen with
  | false => exact hl.step hk (hd.keepsEffects hfree hopen) hstep
  | true =>
    cases step_moves hstep with
    | reopen ho => exact partitionLock_reopen (hd.opened hc hl hk ho).1.bound
    | quiet haction =>
      cases action with
      | reopen keep => cases haction
      | _ => cases hopen
    | _ => cases hopen

end Sys

end Calod.Ledger
