import Calod.Ledger.Identities
import Calod.Ledger.Ownership

/-!
# Histories of one caller

The ledger and its files through a sequence of calls, snapshots and reopens, none of them
overlapping and none failing on I/O.

`open` seeds `last_wal_position` with the watermark of the snapshot, not with the position of the
last record it replayed. A snapshot that is taken before the next write therefore stores a later
state under an earlier watermark, and the `open` after it replays run records over that state
(`recovery_resets_head`). And what is stored is not always read back as it was
(`Calod/Ledger/Decoding.lean`).

* `recovery_exact` — as long as no snapshot is taken while the log has records past
  `last_wal_position`, the values that calls bring along are read back as they were, and new
  effects get unused ids, `open` succeeds and gives back the indexes.
-/

namespace Calod.Ledger

open Calod.Core Calod.Storage Lib

/-! ## Indexes up to the key lookup -/

namespace Indexes

/-- The same runs, effects, events and checkpoints. -/
structure Same (a b : Indexes) : Prop where
  runs : a.runs = b.runs
  effectsById : a.effectsById = b.effectsById
  events : a.events = b.events
  checkpoints : a.checkpoints = b.checkpoints

variable {a b c : Indexes}

theorem Same.refl (a : Indexes) : Same a a := ⟨rfl, rfl, rfl, rfl⟩

theorem Same.timeline (h : Same a b) (r : Uuid) : a.timeline r = b.timeline r := by
  unfold Indexes.timeline
  rw [h.events]

theorem Same.applyEvent (h : Same a b) (event : EventRecord) :
    Same (a.applyEvent event).1 (b.applyEvent event).1 ∧
      (a.applyEvent event).2 = (b.applyEvent event).2 := by
  have htouch : Same (a.touch event.runId) (b.touch event.runId) :=
    ⟨h.runs, h.effectsById, by simp only [touch, h.timeline, h.events], h.checkpoints⟩
  have hpush : Same (a.pushEvent event) (b.pushEvent event) :=
    ⟨by simp only [pushEvent, h.runs], h.effectsById,
      by simp only [pushEvent, h.timeline, h.events], h.checkpoints⟩
  unfold Indexes.applyEvent
  simp only [h.timeline]
  split
  · exact ⟨htouch, rfl⟩
  · split
    · exact ⟨htouch, rfl⟩
    · split
      · exact ⟨htouch, rfl⟩
      · exact ⟨hpush, rfl⟩

theorem Same.removeEffect (h : Same a b) (id : Uuid) :
    Same (a.removeEffect id) (b.removeEffect id) := by
  unfold Indexes.removeEffect
  rw [h.effectsById]
  split
  · exact ⟨h.runs, rfl, h.events, h.checkpoints⟩
  · exact h

theorem Same.removeEffects (ids : List Uuid) : ∀ {a b}, Same a b →
    Same (ids.foldl Indexes.removeEffect a) (ids.foldl Indexes.removeEffect b) := by
  induction ids with
  | nil => exact fun h => h
  | cons id ids ih => exact fun h => ih (h.removeEffect id)

/-- **What a record does to these four does not depend on the key lookup.** -/
theorem Same.apply (h : Same a b) (kind : RecordKind) :
    Same (a.apply kind).1 (b.apply kind).1 ∧ (a.apply kind).2 = (b.apply kind).2 := by
  have hput : ∀ effect, Same (a.putEffect effect) (b.putEffect effect) := fun effect =>
    ⟨h.runs, by simp only [putEffect, h.effectsById], h.events, h.checkpoints⟩
  cases kind with
  | runCreated | runUpdated =>
    exact ⟨⟨by simp only [Indexes.apply, h.runs], h.effectsById, h.events, h.checkpoints⟩, rfl⟩
  | effectApplied effect event =>
    cases event with
    | none => exact ⟨hput effect, rfl⟩
    | some event => exact (hput effect).applyEvent event
  | eventAppended event => exact h.applyEvent event
  | checkpointCreated checkpoint =>
    exact ⟨⟨h.runs, h.effectsById, h.events, by simp only [Indexes.apply, putCheckpoint,
      h.checkpoints]⟩, rfl⟩
  | retentionApplied cutoff runIds effectIds =>
    have hruns : Same (a.removeRuns runIds) (b.removeRuns runIds) :=
      ⟨by simp only [removeRuns, h.runs], h.effectsById, by simp only [removeRuns, h.events],
        by simp only [removeRuns, h.checkpoints]⟩
    exact ⟨Same.removeEffects effectIds hruns, rfl⟩

end Indexes

/-! ## The history of one ledger -/

/-- An open ledger and its snapshot directory; its WAL files are those of `ledger.wal`. -/
structure Host where
  ledger : Ledger
  disk : SnapshotDir

inductive Op where
  | call (scope : Scope) (draws : Draws) (call : Call)
  | snapshot (now : Int)
  /-- Close or crash, then `open`. -/
  | reopen

namespace Host

def init : Host := { ledger := fresh, disk := .empty }

/-- One operation; `rereadF64` is what is read back for a float. -/
def step (rereadF64 : UInt64 → UInt64) (env : Env) (host : Host) : Op → Option Host
  | .call scope draws call =>
    some { host with ledger := (host.ledger.call env scope draws none call).1 }
  | .snapshot now =>
    let (ledger, disk) := host.ledger.snapshot env now host.disk
    some { ledger, disk }
  | .reopen =>
    (openFiles rereadF64 env host.disk host.ledger.wal.dir).toOption.map fun ledger =>
      { host with ledger }

/-- No record of the log is past `last_wal_position`. -/
def exactWatermark (env : Env) (host : Host) : Bool :=
  (host.ledger.wal.records env.encodedLen).all fun r => !uncovered host.ledger.lastWalPosition r

/--
Calls bring along what the log gives back as it was, and draw ids that no effect has; snapshots are
taken of what the state file gives back, when no record is past `last_wal_position`.
-/
def readsBack (rereadF64 : UInt64 → UInt64) (env : Env) (host : Host) : Op → Bool
  | .call _ draws call =>
    call.meets (.exact rereadF64 walDepth) && host.ledger.indexes.effectsById[draws.id]?.isNone
  | .snapshot _ =>
    host.exactWatermark env &&
      host.ledger.indexes.collectState.meets (.exact rereadF64 stateDepth)
  | .reopen => true

end Host

/-! ## Well-formed indexes and snapshots -/

namespace Indexes

variable {a b idx : Indexes} {crates : Crates}

/-- **A snapshot of well-formed indexes loads back.** -/
theorem WellFormed.load_collect (hw : idx.WellFormed crates) :
    Same (loadState idx.collectState) idx where
  runs := runs_load_collect hw.keyed
  effectsById := effectsById_load_collect hw.keyed
  events := events_load_collect hw.keyed (fun r => (hw.chained r).1) hw.events
  checkpoints := Map.groupBy_flatten hw.checkpoints hw.keyed.checkpoints

end Indexes

/-! ## The key lookup -/

namespace Indexes

variable {a b idx : Indexes} {crates : Crates} {kind : RecordKind} {env : Env} {scope : Scope}
  {draws : Draws} {call : Call} {response : Response}

/-- The key lookup is determined by the effects that are bound. -/
theorem Bound.effectIds_eq (ha : a.Bound) (hb : b.Bound) (h : a.effectsById = b.effectsById) :
    a.effectIds = b.effectIds := by
  have hle : ∀ {a b : Indexes}, a.Bound → b.Bound → a.effectsById = b.effectsById →
      ∀ key id, a.effectIds key = some id → b.effectIds key = some id := by
    intro a b ha hb h key id hid
    obtain ⟨effect, hstored, rfl⟩ := ha.lookup key id hid
    exact hb.stored id effect (h ▸ hstored)
  funext key
  exact Option.ext fun id => ⟨hle ha hb h key id, hle hb ha h.symm key id⟩

theorem Bound.removeEffect (hb : idx.Bound) (id : Uuid) : (idx.removeEffect id).Bound := by
  unfold Indexes.removeEffect
  split
  · next effect hstored =>
    refine ⟨fun key i h => ?_, fun i e h => ?_⟩
    · change Function.update idx.effectIds (effectKeyOf effect) none key = some i at h
      by_cases hkey : key = effectKeyOf effect
      · rw [hkey, Function.update_self] at h
        cases h
      · rw [Function.update_of_ne hkey] at h
        obtain ⟨e, he, rfl⟩ := hb.lookup key i h
        refine ⟨e, ?_, rfl⟩
        rw [Map.get_erase, if_neg ?_]
        · exact he
        · rintro rfl
          cases hstored.symm.trans he
          exact hkey rfl
    · rw [Map.get_erase] at h
      split at h
      · cases h
      · next hne =>
        show Function.update idx.effectIds (effectKeyOf effect) none (effectKeyOf e) = some i
        rw [Function.update_of_ne]
        · exact hb.stored i e h
        · -- two effects of one key would have the same id
          intro hkey
          have hsame := hb.stored i e h
          rw [hkey, hb.stored id effect hstored] at hsame
          exact hne (Option.some.inj hsame)
  · exact hb

theorem Bound.removeEffects (ids : List Uuid) : ∀ {idx : Indexes}, idx.Bound →
    (ids.foldl Indexes.removeEffect idx).Bound := by
  induction ids with
  | nil => exact fun h => h
  | cons id ids ih => exact fun h => ih (h.removeEffect id)

/-- **Every call keeps keys and effects bound**, if the id it draws is unused. -/
theorem Bound.decide (hb : idx.Bound) (hk : idx.Keyed)
    (hfresh : idx.effectsById[draws.id]? = none)
    (h : call.decide env idx scope draws = .ok (some kind, response)) :
    (idx.apply kind).1.Bound := by
  rcases effects_apply idx kind with ⟨hbyId, hids⟩ | ⟨effect, event, rfl, hbyId, hids⟩ |
      ⟨cutoff, runIds, effectIds, rfl, -⟩
  · exact ⟨by rw [hbyId, hids]; exact hb.lookup, by rw [hbyId, hids]; exact hb.stored⟩
  · have hret : call.isRetention = false := by
      cases call with
      | applyRetention policy =>
        simp only [Call.decide, Call.check, Call.underLock, bind, Except.bind] at h
        split at h
        · cases h
        · next hnext =>
          split at hnext <;> cases hnext
          · next hr => cases h; cases applyRetention_kind hr
          · cases h
      | _ => rfl
    cases writes_of_decide hb hk hret h with
    | effectApplied howner hstores hnew hevent =>
      refine hb.put (puts_of_stores hb hk hstores fun hnone => ?_) hbyId hids
      rw [hnew hnone]
      exact hfresh
  · have hruns : (idx.removeRuns runIds).Bound := ⟨hb.lookup, hb.stored⟩
    exact hruns.removeEffects effectIds

theorem Bound.load_collect (hb : idx.Bound) (hk : idx.Keyed) :
    (loadState idx.collectState).Bound := by
  refine (within_load (K := fun effect => idx.effectsById[effect.id]? = some effect) ?_ ?_).1.bound
  · intro e e' he he'
    constructor
    · intro hkey
      have hid := hb.stored e.id e he
      rw [hkey, hb.stored e'.id e' he'] at hid
      exact (Option.some.inj hid).symm
    · intro hid
      rw [hid, he'] at he
      rw [Option.some.inj he]
  · intro effect heffect
    obtain ⟨id, hid⟩ := Map.mem_values.mp heffect
    rw [hk.effects id effect hid]
    exact hid

/-- **A snapshot gives back the indexes**, the key lookup included. -/
theorem WellFormed.loadState_collect (hw : idx.WellFormed crates) (hb : idx.Bound) :
    loadState idx.collectState = idx := by
  have hsame := hw.load_collect
  have hids := (hb.load_collect hw.keyed).effectIds_eq hb hsame.effectsById
  have hall : ∀ {a b : Indexes}, Same a b → a.effectIds = b.effectIds → a = b := by
    rintro ⟨⟩ ⟨⟩ ⟨rfl, rfl, rfl, rfl⟩ rfl
    rfl
  exact hall hsame hids

end Indexes

/-! ## Recovery gives back the indexes -/

namespace Host

variable {rereadF64 : UInt64 → UInt64} {env : Env} {host host' : Host}

/--
The snapshot and the records past its watermark give the indexes; positions are in order; and all
that is stored is read back as it was.
-/
structure Recovers (rereadF64 : UInt64 → UInt64) (env : Env) (host : Host) : Prop where
  wellFormed : host.ledger.indexes.WellFormed env.crates
  bound : host.ledger.indexes.Bound
  recover : ∃ base, loadIndexes env host.disk = .ok (base, host.disk.watermark) ∧
    replay base (replayed env host.disk.watermark host.ledger.wal.dir) = .ok host.ledger.indexes
  last : ∀ position, host.ledger.lastWalPosition = some position →
    position < host.ledger.wal.endPosition env.encodedLen
  manifest : ∀ watermark, host.disk.watermark = some watermark →
    ∃ position, host.ledger.lastWalPosition = some position ∧ watermark ≤ position
  meets : host.ledger.indexes.Meets (.exact rereadF64 walDepth)
  log : ∀ r ∈ host.ledger.wal.records env.encodedLen,
    r.payload.meets (.exact rereadF64 walDepth) = true
  state : ∀ state, host.disk.stateFile = some state →
    state.meets (.exact rereadF64 stateDepth) = true

theorem recovers_init : Recovers rereadF64 env init where
  wellFormed := Indexes.wellFormed_empty
  bound := Indexes.bound_empty
  recover := ⟨.empty, rfl, rfl⟩
  last position h := by cases h
  manifest watermark h := by cases h
  meets := Indexes.meets_empty
  log r h := by cases h
  state state h := by cases h

section

variable (hr : Recovers rereadF64 env host)

include hr

/-- A new record goes past the watermark of the snapshot. -/
theorem Recovers.watermark_lt_append (kind : RecordKind) {watermark : WalPosition}
    (hw : host.disk.watermark = some watermark) :
    watermark < (host.ledger.wal.handleAppend env.encodedLen env.config.maxSegmentSize kind).1 := by
  obtain ⟨p, hp, hle⟩ := hr.manifest watermark hw
  have hlt := WalPosition.lt_of_le_of_lt hle (hr.last p hp)
  obtain ⟨hd | hd, -, hpos⟩ := host.ledger.wal.handleAppend_dropLast env.encodedLen
    env.config.maxSegmentSize kind <;> rw [hpos, hd]
  · exact hlt
  · exact WalPosition.lt_of_lt_of_le hlt (Wal.endPosition_le_rollSegment _)

/-- So it is replayed, after all others. -/
theorem Recovers.replayed_append (kind : RecordKind) :
    replayed env host.disk.watermark (host.ledger.wal.handleAppend env.encodedLen
        env.config.maxSegmentSize kind).2.dir
      = replayed env host.disk.watermark host.ledger.wal.dir ++ [kind] := by
  have huncovered : uncovered host.disk.watermark { position := (host.ledger.wal.handleAppend
      env.encodedLen env.config.maxSegmentSize kind).1, payload := kind } = true := by
    unfold uncovered
    cases hw : host.disk.watermark with
    | none => rfl
    | some w => simp [WalPosition.not_le_of_lt (hr.watermark_lt_append kind hw)]
  unfold replayed
  change ((Wal.records env.encodedLen _).filter _).map _ = _
  rw [Wal.records_handleAppend, List.filter_append, List.map_append,
    List.filter_cons_of_pos huncovered]
  rfl

theorem Recovers.persist {scope : Scope} {kind : RecordKind}
    (hb : Built env host.ledger.indexes scope kind)
    (hbound : (host.ledger.indexes.apply kind).1.Bound)
    (hmeets : kind.meets (.exact rereadF64 walDepth) = true) :
    Recovers rereadF64 env { host with ledger := (host.ledger.persist env none kind).1 } := by
  unfold Ledger.persist
  split
  · exact hr
  have hok := (hr.wellFormed.heads.fits hr.wellFormed.keyed hb).apply_ok
  obtain ⟨applied, happly⟩ : ∃ applied, host.ledger.indexes.apply kind = (applied, .ok ()) :=
    ⟨_, Prod.ext rfl hok⟩
  have happlied : applied = (host.ledger.indexes.apply kind).1 := by rw [happly]
  simp only [happly]
  subst happlied
  obtain ⟨base, hload, hreplay⟩ := hr.recover
  have hrecords : (host.ledger.wal.handleAppend env.encodedLen env.config.maxSegmentSize
      kind).2.records env.encodedLen = _ := Wal.records_handleAppend ..
  refine ⟨hr.wellFormed.apply hb, hbound, ⟨base, hload, ?_⟩, fun p hp => ?_,
    fun w hw => ⟨_, rfl, WalPosition.le_of_lt (hr.watermark_lt_append kind hw)⟩,
    hr.meets.apply hmeets, fun r hm => ?_, hr.state⟩
  · rw [hr.replayed_append kind, replay_append kind hreplay, replay_singleton hok]
  · cases hp
    refine Wal.position_lt_endPosition env.encodedLen (r := ⟨_, kind⟩) ?_
    rw [hrecords]
    exact List.mem_append_right _ (List.mem_singleton.mpr rfl)
  · rw [hrecords] at hm
    rcases List.mem_append.mp hm with hm | hm
    · exact hr.log r hm
    · rw [List.mem_singleton.mp hm]
      exact hmeets

theorem Recovers.call {scope : Scope} {draws : Draws} {call : Call}
    (hreads : host.readsBack rereadF64 env (.call scope draws call) = true) :
    Recovers rereadF64 env
      { host with ledger := (host.ledger.call env scope draws none call).1 } := by
  obtain ⟨hmeets, hfresh⟩ := Bool.and_eq_true_iff.mp hreads
  unfold Ledger.call
  split
  · exact hr
  · exact hr
  · next kind response hdecide =>
    have hplain := Standard.plain_exact rereadF64 (show 2 ≤ walDepth by decide)
    have hpersist := hr.persist (built_of_decide hdecide)
      (hr.bound.decide hr.wellFormed.keyed (Option.isNone_iff_eq_none.mp hfresh) hdecide)
      (meets_decide hplain hr.meets hmeets hdecide)
    split <;> next he => rw [he] at hpersist; exact hpersist

theorem Recovers.snapshot {now : Int}
    (hreads : host.readsBack rereadF64 env (.snapshot now) = true) :
    Recovers rereadF64 env { ledger := (host.ledger.snapshot env now host.disk).1,
                             disk := (host.ledger.snapshot env now host.disk).2 } := by
  obtain ⟨hexact, hstate⟩ := Bool.and_eq_true_iff.mp hreads
  -- whatever truncation leaves is covered
  have hnone : ∀ wal : Wal RecordKind,
      (wal.records env.encodedLen).Sublist (host.ledger.wal.records env.encodedLen) →
        replayed env host.ledger.lastWalPosition wal.dir = [] := by
    intro wal hsub
    unfold replayed
    rw [List.map_eq_nil_iff, List.filter_eq_nil_iff]
    intro r hm
    have := List.all_eq_true.mp hexact r (hsub.subset hm)
    simpa using this
  have hload := loadIndexes_saved env host.disk host.ledger.indexes host.ledger.lastWalPosition now
  rw [hr.wellFormed.loadState_collect hr.bound] at hload
  have hsaved : ∀ state, some host.ledger.indexes.collectState = some state →
      state.meets (.exact rereadF64 stateDepth) = true := by
    intro state h
    cases h
    exact hstate
  unfold Ledger.snapshot
  cases hlast : host.ledger.lastWalPosition with
  | none =>
    rw [hlast] at hload
    refine ⟨hr.wellFormed, hr.bound, ⟨_, hload, ?_⟩, hr.last, fun w hw => (by cases hw), hr.meets,
      hr.log, hsaved⟩
    have h := hnone host.ledger.wal (List.Sublist.refl _)
    rw [hlast] at h
    change replay _ (replayed env none _) = _
    rw [h]
    rfl
  | some last =>
    rw [hlast] at hload
    have hsub : ((host.ledger.wal.truncateBefore (last.segmentId + 1)).records
        env.encodedLen).Sublist _ := Wal.records_truncateBefore_sublist ..
    refine ⟨hr.wellFormed, hr.bound, ⟨_, hload, ?_⟩, fun p hp => ?_, fun w hw => ?_, hr.meets,
      fun r hm => hr.log r (hsub.subset hm), hsaved⟩
    · have h := hnone _ hsub
      rw [hlast] at h
      change replay _ (replayed env (some last) _) = _
      rw [h]
      rfl
    · have hlt := hr.last p (hlast ▸ hp)
      unfold Wal.endPosition at hlt ⊢
      rw [Wal.truncateBefore_active]
      exact hlt
    · obtain rfl : last = w := Option.some.inj hw
      exact ⟨last, rfl, WalPosition.le_refl last⟩

/-- Decoding makes no difference here. -/
theorem Recovers.openFiles_eq :
    openFiles rereadF64 env host.disk host.ledger.wal.dir
      = Ledger.open env host.disk host.ledger.wal.dir :=
  openFiles_eq_open hr.state hr.log

/-- **Opening gives back the indexes.** -/
theorem Recovers.opens (hmax : headerLen < env.config.maxSegmentSize) :
    ∃ ledger, openFiles rereadF64 env host.disk host.ledger.wal.dir = .ok ledger ∧
      ledger.indexes = host.ledger.indexes := by
  obtain ⟨base, hload, hreplay⟩ := hr.recover
  obtain ⟨wal, hwal⟩ := Wal.open_ok env.encodedLen host.ledger.wal.dir hmax
  rw [hr.openFiles_eq]
  exact ⟨_, open_of_parts hload hreplay hwal, rfl⟩

theorem Recovers.reopen {ledger : Ledger}
    (h : openFiles rereadF64 env host.disk host.ledger.wal.dir = .ok ledger) :
    Recovers rereadF64 env { host with ledger } := by
  obtain ⟨base, hload, hreplay⟩ := hr.recover
  rw [hr.openFiles_eq] at h
  obtain ⟨base', hload', hreplay', hwal, hlast⟩ := open_eq_ok h
  cases hload.symm.trans hload'
  have hindexes : ledger.indexes = host.ledger.indexes :=
    Except.ok.inj (hreplay'.symm.trans hreplay)
  have hrecords := Wal.records_open env.encodedLen hwal
  have hdir : replayed env host.disk.watermark ledger.wal.dir
      = replayed env host.disk.watermark host.ledger.wal.dir := by
    unfold replayed
    change ((ledger.wal.records env.encodedLen).filter _).map _ = _
    rw [hrecords]
  refine ⟨hindexes ▸ hr.wellFormed, hindexes ▸ hr.bound, ⟨base, hload, ?_⟩, fun p hp => ?_,
    fun w hw => ⟨w, hlast.trans hw, WalPosition.le_refl w⟩, hindexes ▸ hr.meets,
    fun r hm => hr.log r (show r ∈ replayAll _ _ from hrecords ▸ hm), hr.state⟩
  · rw [hdir]
    exact hreplay'
  · obtain ⟨q, hq, hle⟩ := hr.manifest p (hlast.symm.trans hp)
    exact WalPosition.lt_of_le_of_lt hle
      (WalPosition.lt_of_lt_of_le (hr.last q hq) (Wal.endPosition_open _ hwal))

end

theorem recovers_of_reach
    (h : Reach (Host.step rereadF64 env) (fun host op => host.readsBack rereadF64 env op = true)
      Host.init host) : Recovers rereadF64 env host := by
  refine h.invariant recovers_init ?_
  intro host op host' hr hreads hstep
  cases op with
  | call scope draws call =>
    cases hstep
    exact hr.call hreads
  | snapshot now =>
    cases hstep
    exact hr.snapshot hreads
  | reopen =>
    obtain ⟨ledger, ho, rfl⟩ := Option.map_eq_some_iff.mp hstep
    exact hr.reopen (toOption_eq_some.mp ho)

end Host

/--
**Recovery is exact** over every history of calls, snapshots and reopens, as long as no snapshot
is taken while the log has records past `last_wal_position`, the stored values are read back as
they were, and new effects get unused ids: `open` succeeds, and runs (heads included), effects and
their keys, events and checkpoints are what they were.
-/
theorem recovery_exact (rereadF64 : UInt64 → UInt64) (env : Env)
    (hmax : headerLen < env.config.maxSegmentSize) {host : Host}
    (h : Reach (Host.step rereadF64 env) (fun host op => host.readsBack rereadF64 env op = true)
      Host.init host) :
    ∃ ledger, openFiles rereadF64 env host.disk host.ledger.wal.dir = .ok ledger ∧
      ledger.indexes = host.ledger.indexes :=
  (Host.recovers_of_reach h).opens hmax

namespace Sample

/-- A call of the sample scope, with the `n`th draw. -/
def op (n : Nat) (call : Call) : Op := .call scope (draws n) call

def billingRun : Call :=
  .createRun
    { externalId := "run-1", agentName := "agent"
      metadata := some (.json [("team", .string "billing")]) }

def nestedEvent (runId : Uuid) : Call :=
  .appendEvent runId
    { eventType := "note", occurredAtMs := 1700000000000
      payload := .array [.null, .array [.ofInt 1]] }

end Sample

/--
A run with metadata, an event with a nested payload, an effect of the run, a snapshot, a reopen and
one more event, where every float would come back changed: all is given back.
-/
theorem recovery_exact_after_snapshot :
    ∃ host ledger, Reach (Host.step (· + 1) Sample.env)
        (fun host op => host.readsBack (· + 1) Sample.env op = true) Host.init host ∧
      openFiles (· + 1) Sample.env host.disk host.ledger.wal.dir = .ok ledger ∧
      (host.ledger.indexes.timeline 1).length = 3 ∧
      (host.ledger.indexes.effectsById[(3 : Uuid)]?.map EffectRecord.runId) = some (some 1) ∧
      ledger.indexes = host.ledger.indexes := by
  have hrun : ((Lib.run (Host.step (· + 1) Sample.env) (Host.readsBack (· + 1) Sample.env)
      Host.init
      [Sample.op 1 Sample.billingRun, Sample.op 2 (Sample.nestedEvent 1),
        Sample.op 3 (Sample.acquire "payment-1" (some 1)), .snapshot 0, .reopen,
        Sample.op 4 (Sample.appendEvent 1)]).map fun host =>
          ((host.ledger.indexes.timeline 1).length,
            host.ledger.indexes.effectsById[(3 : Uuid)]?.map EffectRecord.runId))
      = some (3, some (some 1)) := by
    decide +kernel
  obtain ⟨host, hreach, he⟩ := exists_reach_of_run hrun
  obtain ⟨hlen, heffect⟩ := Prod.mk.inj he
  obtain ⟨ledger, ho, hindexes⟩ := recovery_exact (· + 1) Sample.env (by decide) hreach
  exact ⟨host, ledger, hreach, ho, hlen, heffect, hindexes⟩

/--
**Open, snapshot, open resets the head of a run.** The snapshot stores the run at head 1 under no
watermark. The second `open` replays `run_created`, which puts head 0 back, and takes the event
as covered. All values are read back as they were.
-/
theorem recovery_resets_head :
    ∃ host ledger, Reach (Host.step id Sample.env) (fun _ _ => True) Host.init host ∧
      openFiles id Sample.env host.disk host.ledger.wal.dir = .ok ledger ∧
      host.ledger.indexes.runs[(1 : Uuid)]?.map RunRecord.lastEventSequence = some 1 ∧
      ledger.indexes.runs[(1 : Uuid)]?.map RunRecord.lastEventSequence = some 0 ∧
      (ledger.indexes.timeline 1).length = 1 := by
  have hrun : ((Lib.run (Host.step id Sample.env) (fun _ _ => true) Host.init
      [Sample.op 1 Sample.createRun, Sample.op 2 (Sample.appendEvent 1), .reopen,
        .snapshot 0]).map fun host =>
          (host.ledger.indexes.runs[(1 : Uuid)]?.map RunRecord.lastEventSequence,
            (openFiles id Sample.env host.disk host.ledger.wal.dir).toOption.map fun ledger =>
              (ledger.indexes.runs[(1 : Uuid)]?.map RunRecord.lastEventSequence,
                (ledger.indexes.timeline 1).length))) = some (some 1, some (some 0, 1)) := by
    decide +kernel
  obtain ⟨host, hreach, he⟩ := exists_reach_of_run hrun
  obtain ⟨hbefore, hopen⟩ := Prod.mk.inj he
  obtain ⟨ledger, ho, hafter⟩ := Option.map_eq_some_iff.mp hopen
  obtain ⟨hhead, hlen⟩ := Prod.mk.inj hafter
  exact ⟨host, ledger, hreach.mono fun _ _ _ => trivial, toOption_eq_some.mp ho, hbefore, hhead,
    hlen⟩

end Calod.Ledger
