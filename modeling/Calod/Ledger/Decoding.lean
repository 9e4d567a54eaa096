import Calod.Ledger.Recovery

/-!
# Records as they are read back

`persist` writes a record with `serde_json::to_vec` and `open` reads it with
`serde_json::from_slice`; the state file of a snapshot likewise. Three things do not come back as
they were:

* a value that nests too deep is refused: `serde_json` opens at most 127 brackets inside each other;
* a float may come back as a neighbour, since `float_roundtrip` is off: what is read for the digits
  of a float is the parameter `rereadF64`;
* `Some(null)` in an optional field comes back as `None`.

`openFiles` is `Ledger::open` with this decoding.

* `openFiles_eq_open` — it makes no difference if all values are read back as they were
* `replayFiles_ok` — it makes no difference to whether the replay succeeds, as long as no value
  nests too deep
* `meets_persist`, `meets_effect`, `Indexes.Meets.apply` — what is asked of the values that calls
  bring along holds of all that is stored
-/

namespace Calod.Serde

/-! ## Values -/

/-- What is read back of a value, with `n` brackets left to open. -/
def Value.reread (rereadF64 : UInt64 → UInt64) : Nat → Value → Option Value
  | _, .number (.float bits) => some (.number (.float (rereadF64 bits)))
  | 0, .array _ | 0, .object _ => none
  | n + 1, .array items => (items.mapM (Value.reread rereadF64 n)).map .array
  | n + 1, .object entries =>
    (entries.mapM fun e => (Value.reread rereadF64 n e.2).map fun v => (e.1, v)).map .object
  | _, v => some v

/-- Is the value read back as it was? With `id` for the floats: does it nest at most `n` deep? -/
def Value.readsBack (rereadF64 : UInt64 → UInt64) : Nat → Value → Bool
  | _, .number (.float bits) => rereadF64 bits = bits
  | 0, .array _ | 0, .object _ => false
  | n + 1, .array items => items.all (Value.readsBack rereadF64 n)
  | n + 1, .object entries => entries.all fun e => Value.readsBack rereadF64 n e.2
  | _, _ => true

/-- An optional field. -/
def rereadOption (rereadF64 : UInt64 → UInt64) (n : Nat) : Option Value → Option (Option Value)
  | none | some .null => some none
  | some v => (v.reread rereadF64 n).map some

def optionReadsBack (rereadF64 : UInt64 → UInt64) (n : Nat) : Option Value → Bool
  | none => true
  | some .null => false
  | some v => v.readsBack rereadF64 n

section

variable {f g : UInt64 → UInt64} {n m : Nat} {v : Value}

theorem mapM_eq_self {α : Type} {h : α → Option α} : ∀ {l : List α}, (∀ a ∈ l, h a = some a) →
    l.mapM h = some l
  | [], _ => rfl
  | a :: l, hl => by
    rw [List.mapM_cons, hl a List.mem_cons_self,
      mapM_eq_self fun b hb => hl b (List.mem_cons_of_mem a hb)]
    rfl

theorem mapM_isSome {α β : Type} {h : α → Option β} : ∀ {l : List α},
    (∀ a ∈ l, (h a).isSome = true) → (l.mapM h).isSome = true
  | [], _ => rfl
  | a :: l, hl => by
    obtain ⟨b, hb⟩ := Option.isSome_iff_exists.mp (hl a List.mem_cons_self)
    obtain ⟨bs, hbs⟩ := Option.isSome_iff_exists.mp
      (mapM_isSome fun c hc => hl c (List.mem_cons_of_mem a hc))
    rw [List.mapM_cons, hb, hbs]
    rfl

theorem Value.reread_of_readsBack :
    ∀ {n : Nat} {v : Value}, v.readsBack f n = true → v.reread f n = some v
  | n, .number (.float bits), h => by
    cases n <;> exact congrArg (fun b => some (Value.number (.float b))) (of_decide_eq_true h)
  | n, .null, _ | n, .bool _, _ | n, .string _, _ | n, .number (.posInt _), _
  | n, .number (.negInt _), _ => by cases n <;> rfl
  | 0, .array _, h | 0, .object _, h => by cases h
  | n + 1, .array items, h => by
    rw [Value.reread, mapM_eq_self fun v hv =>
      reread_of_readsBack (List.all_eq_true.mp h v hv)]
    rfl
  | n + 1, .object entries, h => by
    rw [Value.reread, mapM_eq_self fun e he => by
      rw [reread_of_readsBack (List.all_eq_true.mp h e he)]; rfl]
    rfl

theorem Value.reread_isSome :
    ∀ {n : Nat} {v : Value}, v.readsBack id n = true → (v.reread f n).isSome = true
  | n, .null, _ | n, .bool _, _ | n, .string _, _ | n, .number (.posInt _), _
  | n, .number (.negInt _), _ | n, .number (.float _), _ => by cases n <;> rfl
  | 0, .array _, h | 0, .object _, h => by cases h
  | n + 1, .array items, h => by
    rw [Value.reread, Option.isSome_map]
    exact mapM_isSome fun v hv => reread_isSome (List.all_eq_true.mp h v hv)
  | n + 1, .object entries, h => by
    rw [Value.reread, Option.isSome_map]
    refine mapM_isSome fun e he => ?_
    rw [Option.isSome_map]
    exact reread_isSome (List.all_eq_true.mp h e he)

/-- More brackets are left elsewhere. -/
theorem Value.readsBack_mono :
    ∀ {n m : Nat} {v : Value}, n ≤ m → v.readsBack f n = true → v.readsBack f m = true
  | n, m, .number (.float bits), _, h => by cases n <;> cases m <;> exact h
  | n, m, .null, _, _ | n, m, .bool _, _, _ | n, m, .string _, _, _
  | n, m, .number (.posInt _), _, _ | n, m, .number (.negInt _), _, _ => by cases m <;> rfl
  | 0, _, .array _, _, h | 0, _, .object _, _, h => by cases h
  | n + 1, m + 1, .array items, hle, h =>
    List.all_eq_true.mpr fun v hv =>
      readsBack_mono (Nat.le_of_succ_le_succ hle) (List.all_eq_true.mp h v hv)
  | n + 1, m + 1, .object entries, hle, h =>
    List.all_eq_true.mpr fun e he =>
      readsBack_mono (Nat.le_of_succ_le_succ hle) (List.all_eq_true.mp h e he)

/-- A `json!` object reads back if its values do. -/
theorem Value.readsBack_json {entries : List (String × Value)}
    (h : ∀ e ∈ entries, e.2.readsBack f n = true) :
    (Value.json entries).readsBack f (n + 1) = true :=
  List.all_eq_true.mpr fun e he =>
    h e ((List.perm_insertionSort (fun a b : String × Value => a.1 ≤ b.1) entries).mem_iff.mp he)

@[simp] theorem Value.readsBack_null : Value.null.readsBack f n = true := by
  cases n <;> rfl

@[simp] theorem Value.readsBack_string (text : String) :
    (Value.string text).readsBack f n = true := by
  cases n <;> rfl

@[simp] theorem Value.readsBack_ofInt (i : Int) : (Value.ofInt i).readsBack f n = true := by
  unfold Value.ofInt
  split <;> cases n <;> rfl

theorem rereadOption_eq_self {o : Option Value} (h : optionReadsBack f n o = true) :
    rereadOption f n o = some o := by
  cases o with
  | none => rfl
  | some v =>
    cases v with
    | null => cases h
    | _ =>
      show (Value.reread f n _).map some = _
      rw [Value.reread_of_readsBack h]
      rfl

theorem rereadOption_isSome {o : Option Value} (h : o.all (Value.readsBack id n) = true) :
    (rereadOption f n o).isSome = true := by
  cases o with
  | none => rfl
  | some v =>
    cases v with
    | null => rfl
    | _ =>
      show (Option.map some (Value.reread f n _)).isSome = true
      rw [Option.isSome_map]
      exact Value.reread_isSome h

end

end Calod.Serde

namespace Calod.Ledger

open Calod.Core Calod.Storage Calod.Serde Lib

/-! ## What is asked of the values in records -/

/-- Of a value that has to be there, of one that may be missing, and of the metadata of a receipt,
which stand one bracket deeper. -/
structure Standard where
  required : Value → Bool
  optional : Option Value → Bool
  nested : Option Value → Bool

namespace Standard

/-- All are read back as they were. -/
def exact (rereadF64 : UInt64 → UInt64) (n : Nat) : Standard where
  required := Value.readsBack rereadF64 n
  optional := optionReadsBack rereadF64 n
  nested := optionReadsBack rereadF64 (n - 1)

/-- None nests too deep. -/
def readable (n : Nat) : Standard where
  required := Value.readsBack id n
  optional o := o.all (Value.readsBack id n)
  nested o := o.all (Value.readsBack id (n - 1))

/-- Met by what the ledger builds itself: missing values, and two levels of texts and integers. -/
structure Plain (t : Standard) : Prop where
  missing : t.optional none = true
  shallow : ∀ v : Value, (∀ f, v.readsBack f 2 = true) → t.required v = true

theorem plain_exact (rereadF64 : UInt64 → UInt64) {n : Nat} (h : 2 ≤ n) :
    (exact rereadF64 n).Plain where
  missing := rfl
  shallow _ hv := Value.readsBack_mono h (hv rereadF64)

theorem plain_readable {n : Nat} (h : 2 ≤ n) : (readable n).Plain where
  missing := rfl
  shallow _ hv := Value.readsBack_mono h (hv id)

end Standard

def EffectRecord.meets (t : Standard) (effect : EffectRecord) : Bool :=
  t.optional effect.result && effect.externalReceipt.all fun receipt => t.nested receipt.metadata

def RecordKind.meets (t : Standard) : RecordKind → Bool
  | .runCreated run | .runUpdated run => t.optional run.metadata
  | .effectApplied effect event => effect.meets t && event.all fun e => t.required e.payload
  | .eventAppended event => t.required event.payload
  | .checkpointCreated checkpoint => t.required checkpoint.state
  | .retentionApplied _ _ _ => true

def PersistedState.meets (t : Standard) (state : PersistedState) : Bool :=
  state.runs.all (fun run => t.optional run.metadata) && state.effects.all (EffectRecord.meets t) &&
    state.events.all (fun event => t.required event.payload) &&
    state.checkpoints.all fun checkpoint => t.required checkpoint.state

/-- The values that a call brings along to be stored. -/
def Call.meets (t : Standard) : Call → Bool
  | .createRun req => t.optional req.metadata
  | .forkRun _ req => t.optional req.metadata
  | .appendEvent _ req => t.required req.payload
  | .createCheckpoint _ req _ => t.required req.state
  | .transition _ req _ =>
    t.optional req.result && req.externalReceipt.all fun receipt => t.nested receipt.metadata
  | _ => true

/-! ## Decoding -/

/-- Brackets left for the values in a record of the log: it and its run, effect, event or
checkpoint have taken two of 127. -/
def walDepth : Nat := 125

/-- Brackets left for the values in a state file: it, its list and the entry have taken three. -/
def stateDepth : Nat := 124

section

variable (rereadF64 : UInt64 → UInt64) (n : Nat)

def RunRecord.reread (run : RunRecord) : Option RunRecord :=
  (rereadOption rereadF64 n run.metadata).map fun metadata => { run with metadata }

def ExternalReceipt.reread (receipt : ExternalReceipt) : Option ExternalReceipt :=
  (rereadOption rereadF64 (n - 1) receipt.metadata).map fun metadata => { receipt with metadata }

def EffectRecord.reread (effect : EffectRecord) : Option EffectRecord := do
  let result ← rereadOption rereadF64 n effect.result
  let externalReceipt ← effect.externalReceipt.mapM (ExternalReceipt.reread rereadF64 n)
  return { effect with result, externalReceipt }

def EventRecord.reread (event : EventRecord) : Option EventRecord :=
  (event.payload.reread rereadF64 n).map fun payload => { event with payload }

def CheckpointRecord.reread (checkpoint : CheckpointRecord) : Option CheckpointRecord :=
  (checkpoint.state.reread rereadF64 n).map fun state => { checkpoint with state }

def RecordKind.reread : RecordKind → Option RecordKind
  | .runCreated run => (run.reread rereadF64 n).map .runCreated
  | .runUpdated run => (run.reread rereadF64 n).map .runUpdated
  | .effectApplied effect event => do
    let effect ← effect.reread rereadF64 n
    let event ← event.mapM (EventRecord.reread rereadF64 n)
    return .effectApplied effect event
  | .eventAppended event => (event.reread rereadF64 n).map .eventAppended
  | .checkpointCreated checkpoint => (checkpoint.reread rereadF64 n).map .checkpointCreated
  | kind => some kind

def PersistedState.reread (state : PersistedState) : Option PersistedState := do
  let runs ← state.runs.mapM (RunRecord.reread rereadF64 n)
  let effects ← state.effects.mapM (EffectRecord.reread rereadF64 n)
  let events ← state.events.mapM (EventRecord.reread rereadF64 n)
  let checkpoints ← state.checkpoints.mapM (CheckpointRecord.reread rereadF64 n)
  return { state with runs, effects, events, checkpoints }

end

section

variable (rereadF64 : UInt64 → UInt64)

/-- `record::decode` of what `record::encode` wrote; where in the text the limit was met is left
out of the message. -/
def decode (kind : RecordKind) : Except PersistenceError RecordKind :=
  match kind.reread rereadF64 walDepth with
  | some kind => .ok kind
  | none => .error (.corruption "undecodable ledger WAL record: recursion limit exceeded")

/-- The replay loop of `open`. -/
def replayFiles : Indexes → List RecordKind → Except PersistenceError Indexes
  | idx, [] => .ok idx
  | idx, kind :: rest =>
    match decode rereadF64 kind with
    | .error error => .error error
    | .ok kind =>
      match idx.apply kind with
      | (idx, .ok ()) => replayFiles idx rest
      | (_, .error error) => .error error

/-- Load the verified snapshot, or start empty. -/
def loadFiles (env : Env) (disk : SnapshotDir) :
    Except PersistenceError (Indexes × Option WalPosition) := do
  match ← loadSnapshot env disk with
  | none => return (.empty, none)
  | some (state, manifest) =>
    match state.reread rereadF64 stateDepth with
    | none => .error (.corruption "undecodable ledger snapshot state: recursion limit exceeded")
    | some state =>
      if state.schemaVersion ≠ schemaVersion then
        .error (.corruption ("snapshot schema version " ++ toString state.schemaVersion
          ++ " (expected " ++ toString schemaVersion ++ ")"))
      else return (.loadState state, manifest.walWatermark)

/-- `Ledger::open`, from the bytes. -/
def openFiles (env : Env) (disk : SnapshotDir) (dir : WalDir RecordKind) :
    Except PersistenceError Ledger := do
  let (indexes, watermark) ← loadFiles rereadF64 env disk
  let indexes ← replayFiles rereadF64 indexes (replayed env watermark dir)
  let wal ← Wal.open env.encodedLen env.config.maxSegmentSize dir
  return { indexes, wal, lastWalPosition := watermark }

end

/-! ## What is read back as it was -/

section

variable {rereadF64 : UInt64 → UInt64} {n : Nat}

theorem RunRecord.reread_eq_self {run : RunRecord}
    (h : (Standard.exact rereadF64 n).optional run.metadata = true) :
    run.reread rereadF64 n = some run := by
  rw [RunRecord.reread, rereadOption_eq_self h]
  rfl

theorem EffectRecord.reread_eq_self {effect : EffectRecord}
    (h : effect.meets (.exact rereadF64 n) = true) : effect.reread rereadF64 n = some effect := by
  obtain ⟨hresult, hreceipt⟩ := Bool.and_eq_true_iff.mp h
  have hmap : effect.externalReceipt.mapM (ExternalReceipt.reread rereadF64 n)
      = some effect.externalReceipt := by
    cases he : effect.externalReceipt with
    | none => rfl
    | some receipt =>
      rw [he] at hreceipt
      show Option.map some (Option.map _ _) = _
      rw [rereadOption_eq_self hreceipt]
      rfl
  rw [EffectRecord.reread, rereadOption_eq_self hresult, hmap]
  rfl

theorem EventRecord.reread_eq_self {event : EventRecord}
    (h : event.payload.readsBack rereadF64 n = true) : event.reread rereadF64 n = some event := by
  rw [EventRecord.reread, Value.reread_of_readsBack h]
  rfl

theorem CheckpointRecord.reread_eq_self {checkpoint : CheckpointRecord}
    (h : checkpoint.state.readsBack rereadF64 n = true) :
    checkpoint.reread rereadF64 n = some checkpoint := by
  rw [CheckpointRecord.reread, Value.reread_of_readsBack h]
  rfl

theorem RecordKind.reread_eq_self {kind : RecordKind}
    (h : kind.meets (.exact rereadF64 n) = true) : kind.reread rereadF64 n = some kind := by
  cases kind with
  | runCreated run | runUpdated run =>
    rw [RecordKind.reread, RunRecord.reread_eq_self h]
    rfl
  | effectApplied effect event =>
    obtain ⟨heffect, hevent⟩ := Bool.and_eq_true_iff.mp h
    rw [RecordKind.reread, EffectRecord.reread_eq_self heffect]
    cases event with
    | none => rfl
    | some event =>
      show Option.bind (Option.map some (EventRecord.reread rereadF64 n event)) _ = _
      rw [EventRecord.reread_eq_self hevent]
      rfl
  | eventAppended event =>
    rw [RecordKind.reread, EventRecord.reread_eq_self h]
    rfl
  | checkpointCreated checkpoint =>
    rw [RecordKind.reread, CheckpointRecord.reread_eq_self h]
    rfl
  | retentionApplied => rfl

theorem PersistedState.reread_eq_self {state : PersistedState}
    (h : state.meets (.exact rereadF64 n) = true) : state.reread rereadF64 n = some state := by
  simp only [PersistedState.meets, Bool.and_eq_true, List.all_eq_true] at h
  obtain ⟨⟨⟨hruns, heffects⟩, hevents⟩, hcheckpoints⟩ := h
  rw [PersistedState.reread,
    mapM_eq_self fun run hr => RunRecord.reread_eq_self (hruns run hr),
    mapM_eq_self fun effect he => EffectRecord.reread_eq_self (heffects effect he),
    mapM_eq_self fun event he => EventRecord.reread_eq_self (hevents event he),
    mapM_eq_self fun c hc => CheckpointRecord.reread_eq_self (hcheckpoints c hc)]
  rfl

theorem replayFiles_eq_replay : ∀ {kinds : List RecordKind} {idx : Indexes},
    (∀ kind ∈ kinds, kind.meets (.exact rereadF64 walDepth) = true) →
    replayFiles rereadF64 idx kinds = replay idx kinds
  | [], _, _ => rfl
  | kind :: rest, idx, h => by
    rw [replayFiles, replay, decode, RecordKind.reread_eq_self (h kind List.mem_cons_self)]
    simp only []
    cases idx.apply kind with
    | mk idx result =>
      cases result with
      | ok => exact replayFiles_eq_replay fun k hk => h k (List.mem_cons_of_mem kind hk)
      | error => rfl

/-- **What is read back as it was makes no difference.** -/
theorem openFiles_eq_open {env : Env} {disk : SnapshotDir} {dir : WalDir RecordKind}
    (hstate : ∀ state, disk.stateFile = some state →
      state.meets (.exact rereadF64 stateDepth) = true)
    (hlog : ∀ r ∈ replayAll env.encodedLen dir.segments,
      r.payload.meets (.exact rereadF64 walDepth) = true) :
    openFiles rereadF64 env disk dir = Ledger.open env disk dir := by
  have hload : loadFiles rereadF64 env disk = loadIndexes env disk := by
    unfold loadFiles loadIndexes
    cases hsnapshot : loadSnapshot env disk with
    | error error => rfl
    | ok loaded =>
      cases loaded with
      | none => rfl
      | some p =>
        obtain ⟨state, manifest⟩ := p
        have hfile := (loadSnapshot_eq_some hsnapshot).1
        simp only [bind, Except.bind, PersistedState.reread_eq_self (hstate state hfile)]
  have hreplay : ∀ idx watermark, replayFiles rereadF64 idx (replayed env watermark dir)
      = replay idx (replayed env watermark dir) := by
    intro idx watermark
    refine replayFiles_eq_replay fun kind hkind => ?_
    obtain ⟨r, hr, rfl⟩ := List.mem_map.mp hkind
    exact hlog r (List.mem_filter.mp hr).1
  unfold openFiles Ledger.open
  rw [hload]
  simp only [hreplay]

end

/-! ## What does not nest too deep

Floats and missing values may come back changed. Whether a replay succeeds does not depend on
them. -/

/-- What the replay reads of an event: its place in the chain. -/
def EventRecord.link (event : EventRecord) : Int × String × String :=
  (event.sequence, event.previousHash, event.hash)

namespace Indexes

/-- Timelines with the same links. -/
def Alike (a b : Indexes) : Prop :=
  ∀ r, (a.timeline r).map EventRecord.link = (b.timeline r).map EventRecord.link

variable {a b : Indexes}

theorem Alike.length_eq (h : Alike a b) (r : Uuid) :
    (a.timeline r).length = (b.timeline r).length := by
  have hlen := congrArg List.length (h r)
  rwa [List.length_map, List.length_map] at hlen

theorem Alike.lastHash_eq (h : Alike a b) (r : Uuid) :
    eventLinks.lastHash (a.timeline r) = eventLinks.lastHash (b.timeline r) := by
  have hlink : ∀ l : List EventRecord, eventLinks.lastHash l
      = (((l.map EventRecord.link).getLast?.map fun link => link.2.2)).getD genesisHash := by
    intro l
    rw [List.getLast?_map, Option.map_map]
    rfl
  rw [hlink, hlink, h r]

theorem Alike.applyEvent (h : Alike a b) (event : EventRecord) (payload : Value) :
    Alike (a.applyEvent event).1 (b.applyEvent { event with payload }).1 ∧
      (a.applyEvent event).2 = (b.applyEvent { event with payload }).2 := by
  have htouch : Alike (a.touch event.runId) (b.touch event.runId) := by
    intro r
    rw [timeline_touch, timeline_touch]
    exact h r
  have hpush : Alike (a.pushEvent event) (b.pushEvent { event with payload }) := by
    intro r
    rw [timeline_pushEvent, timeline_pushEvent]
    split
    · rw [List.map_append, List.map_append, h r]
      rfl
    · exact h r
  unfold Indexes.applyEvent
  simp only [h.length_eq, h.lastHash_eq]
  split
  · exact ⟨htouch, rfl⟩
  · split
    · exact ⟨htouch, rfl⟩
    · split
      · exact ⟨htouch, rfl⟩
      · exact ⟨hpush, rfl⟩

/-- **What a record does to the links, what is read back of it does.** -/
theorem Alike.apply {rereadF64 : UInt64 → UInt64} {n : Nat} {kind kind' : RecordKind}
    (h : Alike a b) (hkind : kind.reread rereadF64 n = some kind') :
    Alike (a.apply kind).1 (b.apply kind').1 ∧ (a.apply kind).2 = (b.apply kind').2 := by
  cases kind with
  | runCreated run | runUpdated run =>
    obtain ⟨run', -, rfl⟩ := Option.map_eq_some_iff.mp hkind
    exact ⟨h, rfl⟩
  | effectApplied effect event =>
    obtain ⟨effect', -, hkind⟩ := Option.bind_eq_some_iff.mp hkind
    obtain ⟨event', hevent, hkind⟩ := Option.bind_eq_some_iff.mp hkind
    cases hkind
    have hput : Alike (a.putEffect effect) (b.putEffect effect') := h
    cases event with
    | none =>
      cases hevent
      exact ⟨hput, rfl⟩
    | some event =>
      obtain ⟨_, hpayload, rfl⟩ := Option.map_eq_some_iff.mp hevent
      obtain ⟨payload, -, rfl⟩ := Option.map_eq_some_iff.mp hpayload
      exact hput.applyEvent event payload
  | eventAppended event =>
    obtain ⟨_, hevent, rfl⟩ := Option.map_eq_some_iff.mp hkind
    obtain ⟨payload, -, rfl⟩ := Option.map_eq_some_iff.mp hevent
    exact h.applyEvent event payload
  | checkpointCreated checkpoint =>
    obtain ⟨checkpoint', -, rfl⟩ := Option.map_eq_some_iff.mp hkind
    exact ⟨h, rfl⟩
  | retentionApplied cutoff runIds effectIds =>
    cases hkind
    refine ⟨fun r => ?_, rfl⟩
    have hevents : ∀ idx : Indexes,
        timeline (idx.apply (.retentionApplied cutoff runIds effectIds)).1 r
          = if r ∈ runIds then [] else idx.timeline r := by
      intro idx
      show Option.getD (effectIds.foldl removeEffect (idx.removeRuns runIds)).events[r]? [] = _
      rw [(removeEffects_frame effectIds _).2.1, removeRuns, Map.get_eraseAll]
      split <;> rfl
    rw [hevents, hevents]
    split
    · rfl
    · exact h r

end Indexes

section

variable (rereadF64 : UInt64 → UInt64) {n : Nat}

theorem EffectRecord.reread_isSome {effect : EffectRecord}
    (h : effect.meets (.readable n) = true) : (effect.reread rereadF64 n).isSome = true := by
  obtain ⟨hresult, hreceipt⟩ := Bool.and_eq_true_iff.mp h
  obtain ⟨result, hr⟩ := Option.isSome_iff_exists.mp (rereadOption_isSome (f := rereadF64) hresult)
  rw [EffectRecord.reread, hr]
  cases he : effect.externalReceipt with
  | none => rfl
  | some receipt =>
    rw [he] at hreceipt
    obtain ⟨metadata, hm⟩ :=
      Option.isSome_iff_exists.mp (rereadOption_isSome (f := rereadF64) hreceipt)
    have hmap : Option.mapM (ExternalReceipt.reread rereadF64 n) (some receipt)
        = some (some { receipt with metadata }) := by
      show Option.map some (Option.map _ _) = _
      rw [hm]
      rfl
    rw [hmap]
    rfl

theorem RecordKind.reread_isSome {kind : RecordKind} (h : kind.meets (.readable n) = true) :
    (kind.reread rereadF64 n).isSome = true := by
  cases kind with
  | runCreated run | runUpdated run =>
    rw [RecordKind.reread, Option.isSome_map, RunRecord.reread, Option.isSome_map]
    exact rereadOption_isSome h
  | effectApplied effect event =>
    obtain ⟨heffect, hevent⟩ := Bool.and_eq_true_iff.mp h
    obtain ⟨effect', he⟩ := Option.isSome_iff_exists.mp
      (EffectRecord.reread_isSome rereadF64 heffect)
    rw [RecordKind.reread, he]
    cases event with
    | none => rfl
    | some event =>
      obtain ⟨payload, hp⟩ := Option.isSome_iff_exists.mp
        (Value.reread_isSome (f := rereadF64) hevent)
      have hmap : Option.mapM (EventRecord.reread rereadF64 n) (some event)
          = some (some { event with payload }) := by
        show Option.map some (Option.map _ _) = _
        rw [hp]
        rfl
      rw [hmap]
      rfl
  | eventAppended event =>
    rw [RecordKind.reread, Option.isSome_map, EventRecord.reread, Option.isSome_map]
    exact Value.reread_isSome h
  | checkpointCreated checkpoint =>
    rw [RecordKind.reread, Option.isSome_map, CheckpointRecord.reread, Option.isSome_map]
    exact Value.reread_isSome h
  | retentionApplied => rfl

/-- **A log that replays also replays from its bytes**, as long as no value nests too deep. -/
theorem replayFiles_ok : ∀ {kinds : List RecordKind} {a b idx : Indexes}, a.Alike b →
    (∀ kind ∈ kinds, kind.meets (.readable walDepth) = true) → replay a kinds = .ok idx →
      ∃ idx', replayFiles rereadF64 b kinds = .ok idx'
  | [], _, b, _, _, _, _ => ⟨b, rfl⟩
  | kind :: rest, a, b, idx, halike, h, hr => by
    obtain ⟨kind', hk⟩ := Option.isSome_iff_exists.mp
      (RecordKind.reread_isSome rereadF64 (h kind List.mem_cons_self))
    obtain ⟨hafter, hresult⟩ := halike.apply hk
    rw [replay] at hr
    rw [replayFiles, decode, hk]
    simp only []
    cases hb : b.apply kind' with
    | mk b' result =>
      cases ha : a.apply kind with
      | mk a' result' =>
        rw [ha, hb] at hafter hresult
        rw [ha] at hr
        obtain rfl : result' = result := hresult
        cases result' with
        | ok => exact replayFiles_ok hafter (fun k hm => h k (List.mem_cons_of_mem kind hm)) hr
        | error => cases hr

end

/-! ## What calls store -/

/-- A change of an effect: what it stores, and a flat detail for the timeline. -/
structure EffectChange.Meets (t : Standard) (change : EffectChange) : Prop where
  effect : change.effect.meets t = true
  detail : ∀ rereadF64, change.detail.readsBack rereadF64 1 = true

/-- The values that later records take over from the indexes. -/
structure Indexes.Meets (t : Standard) (idx : Indexes) : Prop where
  runs : ∀ (r : Uuid) (run : RunRecord), idx.runs[r]? = some run → t.optional run.metadata = true
  effects : ∀ (id : Uuid) (effect : EffectRecord), idx.effectsById[id]? = some effect →
    effect.meets t = true

section

variable {t : Standard} {env : Env} {idx : Indexes} {scope : Scope} {draws : Draws}
  {kind : RecordKind} {change : EffectChange} {response : Response} {call : Call}

namespace Indexes

theorem meets_empty : Meets t empty where
  runs r run h := by simp [empty] at h
  effects id effect h := by simp [empty] at h

/-- **Records that meet a standard keep the indexes to it.** -/
theorem Meets.apply (hm : idx.Meets t) (hkind : kind.meets t = true) :
    (idx.apply kind).1.Meets t where
  runs r run h := by
    rcases apply_at idx kind r with ⟨hr, -⟩ | ⟨run', hrun, -, hr, -⟩ | ⟨event, -, -, -, -, hr, -⟩ |
        ⟨_, _, _, -, -, hr, -⟩
    · exact hm.runs r run (hr ▸ h)
    · cases hr.symm.trans h
      rcases hrun with rfl | rfl <;> exact hkind
    · rw [hr] at h
      obtain ⟨old, hold, rfl⟩ := Option.map_eq_some_iff.mp h
      exact hm.runs r old hold
    · cases hr.symm.trans h
  effects id effect h := by
    rcases effects_apply idx kind with ⟨he, -⟩ | ⟨e, event, rfl, he, -⟩ | ⟨_, runIds, ids, -, he⟩
    · exact hm.effects id effect (he ▸ h)
    · rw [he, Map.get_insert] at h
      split at h
      · cases h
        exact (Bool.and_eq_true_iff.mp hkind).1
      · exact hm.effects id effect h
    · rw [he, effectsById_removeEffects] at h
      split at h
      · cases h
      · exact hm.effects id effect h

end Indexes

theorem meets_nextEffect {effect next : EffectRecord} {req : UpdateEffectRequest} {now : Int}
    {eventType : String} {id : Uuid} {caps : CallerCapabilities} (he : effect.meets t = true)
    (hreq : (Call.transition id req caps).meets t = true)
    (h : nextEffect env effect req now = .ok (next, eventType)) : next.meets t = true := by
  unfold nextEffect at h
  cases ht : req.transition <;> rw [ht] at h
  case renew =>
    obtain ⟨_, -, h⟩ := bind_eq_ok.mp h
    cases pure_eq_ok.mp h
    exact he
  case commit | reconcileCommitted =>
    cases h
    exact hreq
  all_goals
    cases h
    exact he

variable (hp : t.Plain) (hm : idx.Meets t)

include hp hm

theorem meets_acquire {key : String} {req : AcquireEffectRequest} {decision : EffectDecisionType}
    {token : Option String}
    (h : acquirePlan env idx scope key req draws = .ok (.apply change decision token)) :
    change.Meets t := by
  unfold acquirePlan at h
  obtain ⟨leaseMs, -, h⟩ := bind_eq_ok.mp h
  simp only [] at h
  split at h
  · -- the first acquire of the key
    obtain ⟨_, -, h⟩ := bind_eq_ok.mp h
    cases pure_eq_ok.mp h
    exact ⟨Bool.and_eq_true_iff.mpr ⟨hp.missing, rfl⟩, fun f => Value.readsBack_json (by simp)⟩
  · next effect hof =>
    obtain ⟨id, -, hstored⟩ := Option.bind_eq_some_iff.mp hof
    have he := hm.effects id effect hstored
    split at h
    · cases h
    · have hexisting := pure_eq_ok.mp h
      unfold acquireExisting at hexisting
      simp only [] at hexisting
      split at hexisting
      case h_7 | h_8 =>
        split at hexisting
        · cases hexisting
        · cases hexisting
          exact ⟨he, fun f => Value.readsBack_json (by simp)⟩
      case h_6 =>
        cases hexisting
        exact ⟨he, fun f => Value.readsBack_json (by simp)⟩
      all_goals cases hexisting

theorem meets_effect (hcall : call.meets t = true)
    (h : call.underLock env idx scope draws = .ok (.effect change response)) :
    change.Meets t := by
  cases call with
  | acquire key req =>
    obtain ⟨plan, hplan, he⟩ := map_eq_ok.mp h
    cases plan with
    | decide decision => cases he
    | apply change' decision token =>
      cases he
      exact meets_acquire hp hm hplan
  | transition id req caps =>
    simp only [Call.underLock] at h
    split at h
    · cases h
    · next effect hstored =>
      obtain ⟨change', hplan, he⟩ := map_eq_ok.mp h
      cases he
      unfold transitionPlan at hplan
      split at hplan
      · cases hplan
      · split at hplan
        · cases hplan
        · obtain ⟨_, -, hplan⟩ := bind_eq_ok.mp hplan
          obtain ⟨⟨next, eventType⟩, hnext, hplan⟩ := bind_eq_ok.mp hplan
          cases pure_eq_ok.mp hplan
          exact ⟨meets_nextEffect (hm.effects id effect hstored) hcall hnext,
            fun f => Value.readsBack_json (by simp)⟩
  | applyRetention policy =>
    simp only [Call.underLock] at h
    split at h <;> cases h
  | _ =>
    obtain ⟨_, -, he⟩ := map_eq_ok.mp h
    cases he

omit hm in
theorem meets_buildEffectEvent {now : Int} {eventId : Uuid} {event : Option EventRecord}
    (hchange : change.Meets t)
    (h : buildEffectEvent env.crates idx scope change now eventId = .ok event) :
    (RecordKind.effectApplied change.effect event).meets t = true := by
  refine Bool.and_eq_true_iff.mpr ⟨hchange.effect, ?_⟩
  unfold buildEffectEvent at h
  split at h
  · cases h
    rfl
  · obtain ⟨run, -, h⟩ := bind_eq_ok.mp h
    cases pure_eq_ok.mp h
    exact hp.shallow _ fun f => Value.readsBack_json (by simp [hchange.detail f])

omit hp in
theorem meets_persist (hcall : call.meets t = true)
    (h : call.underLock env idx scope draws = .ok (.persist kind response)) :
    kind.meets t = true := by
  cases persists_of_underLock h with
  | createRun req hrun | forkRun req sequence hparent hrun =>
    subst hrun
    exact hcall
  | updateRun req hrun =>
    have hstored := hm.runs _ _ (runInScope_ok.mp hrun).1
    exact hstored
  | appendEvent req hrun hevent =>
    subst hevent
    exact hcall
  | createCheckpoint req expected hrun hrunId hid htenant hstate =>
    show t.required _ = true
    rw [hstate]
    exact hcall
  | applyRetention hr =>
    rw [applyRetention_kind hr]
    rfl

/-- **A call that brings along what meets a standard decides on a record that meets it.** -/
theorem meets_decide (hcall : call.meets t = true)
    (h : call.decide env idx scope draws = .ok (some kind, response)) : kind.meets t = true := by
  unfold Call.decide at h
  obtain ⟨_, -, h⟩ := bind_eq_ok.mp h
  obtain ⟨next, hnext, h⟩ := bind_eq_ok.mp h
  cases next with
  | answer => cases pure_eq_ok.mp h
  | persist k r =>
    cases pure_eq_ok.mp h
    exact meets_persist hm hcall hnext
  | effect change r =>
    obtain ⟨event, hevent, h⟩ := bind_eq_ok.mp h
    cases pure_eq_ok.mp h
    exact meets_buildEffectEvent hp (meets_effect hp hm hcall hnext) hevent

end

end Calod.Ledger
