import Calod.Lib.Transition
import Calod.Server.Replay

/-!
# Snapshots and restarts

A server with `enable_aof` over its whole life: `build_from_config` and `recover_persistence` at the
start, logged commands, `SAVE` (`Snapshotter::snapshot`) and the next start. The position of the
last record is kept in memory only; a snapshot stores it as its watermark. As in the replay, logged
frames read back as their commands.

* `restart_exact` — when a restart changes nothing
* `interrupted_save_iff` — **when a crash during `SAVE` loses nothing**
* `fresh_start_exact` — when a server that had to start empty recovers its later commands
-/

namespace Calod.Server

open Lib Store Store.Handler Calod.Core Calod.Storage Store.Sample Server.Sample

variable {draws : WalPosition → Draw} {p : WalPosition}

variable {env : Env} {F : Type}

/-! ## Starting -/

structure Config where
  enableSnapshot : Bool
  allowDataLoss : Bool
  payloadLen : Payload → Nat
  maxSegmentSize : Nat
  segmentFits : headerLen < maxSegmentSize

/-- The files of a server. `log` is the error of `Replay::open` if that refuses the segments. -/
structure PersistenceDir (F : Type) where
  log : Except PersistenceError (WalDir Payload)
  snapshots : SnapshotDir F

/-- `ServedCalodStore`, as far as its data is persistent. -/
structure ServedStore (env : Env) (F : Type) where
  dbs : Dbs env
  wal : Wal Payload
  lastWalPosition : Option WalPosition
  snapshots : SnapshotDir F

section

variable (config : Config) (bin : Bincode F)

/-- The first half of `recover_persistence`. -/
def loadSnapshot (snapshots : SnapshotDir F) :
    Except PersistenceError (Option SnapshotManifest) × Dbs env :=
  if config.enableSnapshot then loadVerified bin snapshots Dbs.fresh else (.ok none, Dbs.fresh)

def watermarkOf (manifest : Option SnapshotManifest) : Option WalPosition :=
  manifest.bind SnapshotManifest.walWatermark

/-- The records that `Replay` reads. -/
def PersistenceDir.records (dir : PersistenceDir F) :
    Except PersistenceError (List (WalRecord Payload)) :=
  dir.log.map fun log => replayAll config.payloadLen log.segments

/-- `recover_persistence`; `draws` are the clock and the map orders of the replay. -/
def recoverPersistence (draws : WalPosition → Draw) (dir : PersistenceDir F) :
    Except Interrupt (Dbs env) :=
  match loadSnapshot config bin dir.snapshots with
  | (.error e, _) => .error (.persistence e)
  | (.ok manifest, dbs) =>
    match dir.records config with
    | .error e => .error (.persistence e)
    | .ok records => replayWal applyReplayCommand draws (watermarkOf manifest) records dbs

/-- `quarantine_wal_segments`: the segments are moved out of the way. -/
def PersistenceDir.quarantineWalSegments (dir : PersistenceDir F) : PersistenceDir F :=
  { dir with log := .ok ⟨[], List.Pairwise.nil⟩ }

/-- `create_wal_writer`, and the server over the stores it was given. -/
def serve (dbs : Dbs env) (dir : PersistenceDir F) : Except Interrupt (ServedStore env F) :=
  match dir.log.bind (Wal.open config.payloadLen config.maxSegmentSize) with
  | .error e => .error (.persistence e)
  | .ok wal => .ok ⟨dbs, wal, none, dir.snapshots⟩

/-- `build_from_config`. -/
def buildFromConfig (draws : WalPosition → Draw) (dir : PersistenceDir F) :
    Except Interrupt (ServedStore env F) :=
  match recoverPersistence config bin draws dir with
  | .ok dbs => serve config dbs dir
  | .error .panicked => .error .panicked
  | .error (.persistence e) =>
    if config.allowDataLoss then serve config Dbs.fresh dir.quarantineWalSegments
    else .error (.persistence e)

/-! ## Running -/

namespace ServedStore

/-- A logged command on database 0; `none` if it panics. -/
def write (server : ServedStore env F) (cmd : WriteCommand) (draw : Draw) :
    Option (ServedStore env F) :=
  let appended := server.wal.handleAppend config.payloadLen config.maxSegmentSize (walPayload 0 cmd)
  if panics (cmd.run 0 draw server.dbs).1 then none
  else some { server with
    dbs := (cmd.run 0 draw server.dbs).2, wal := appended.2, lastWalPosition := some appended.1 }

/-- `Snapshotter::snapshot`. -/
def save (server : ServedStore env F) : ServedStore env F :=
  { server with
    snapshots := saveVerified bin server.dbs server.lastWalPosition server.snapshots
    wal := match server.lastWalPosition with
      | none => server.wal
      | some position => server.wal.truncateBefore position.segmentId }

/-- What a server leaves behind. -/
def files (server : ServedStore env F) : PersistenceDir F := ⟨.ok server.wal.dir, server.snapshots⟩

inductive Action where
  | write (cmd : WriteCommand) (draw : Draw)
  | save
  | restart (draws : WalPosition → Draw)

def step (server : ServedStore env F) : Action → Option (ServedStore env F)
  | .write cmd draw => server.write config cmd draw
  | .save => some (server.save bin)
  | .restart draws => (buildFromConfig config bin draws server.files).toOption

/-- A server that starts without files. -/
def start (path : String) : ServedStore env F := ⟨Dbs.fresh, newWal, none, ⟨path, none, []⟩⟩

end ServedStore

end

/-! ## What the files say about the store -/

section

variable {config : Config} {bin : Bincode F} {server server' : ServedStore env F}
  {base s t : Dbs env} {watermark : Option WalPosition} {wal : Wal Payload}

/--
The records that the watermark does not cover lead from `base` to `s`. The run that they describe
is one of stores that agree with these two.
-/
def Rebuilds (config : Config) (base : Dbs env) (watermark : Option WalPosition) (wal : Wal Payload)
    (s : Dbs env) : Prop :=
  ∃ cmds s₀ s₁, Holds (uncovered watermark (wal.records config.payloadLen))
      (cmds.map fun x => (0, x.1)) ∧
    Repeatable cmds ∧ s₀.Agree base ∧ runAll 0 cmds s₀ = some s₁ ∧ s₁.Agree s

namespace Rebuilds

theorem of_covered (h : uncovered watermark (wal.records config.payloadLen) = [])
    (hs : s.Agree base) : Rebuilds config base watermark wal s := by
  refine ⟨[], s, s, ?_, fun x hx => (List.not_mem_nil hx).elim, hs, rfl, hs.refl_left⟩
  rw [h]
  rfl

theorem trans (h : Rebuilds config base watermark wal s) (hs : s.Agree t) :
    Rebuilds config base watermark wal t := by
  obtain ⟨cmds, s₀, s₁, hholds, hcmds, hbase, hrun, hlive⟩ := h
  exact ⟨cmds, s₀, s₁, hholds, hcmds, hbase, hrun, hlive.trans hs⟩

theorem agree_self (h : Rebuilds config base watermark wal s) : s.Agree s := by
  obtain ⟨_, _, _, _, _, _, _, hlive⟩ := h
  exact hlive.symm.trans hlive

theorem replay (h : Rebuilds config base watermark wal s) (hdraws : ∀ p, (draws p).Evictionless) :
    ∃ t, replayWal applyReplayCommand draws watermark (wal.records config.payloadLen) base = .ok t ∧
      s.Agree t := by
  obtain ⟨cmds, s₀, s₁, hholds, hcmds, hbase, hrun, hlive⟩ := h
  obtain ⟨t, ht, hagree⟩ := replayWal_agrees hdraws hholds hcmds hbase hrun
  exact ⟨t, ht, hlive.symm.trans hagree⟩

end Rebuilds

/--
The files hold the store: the snapshot loads, and what it does not cover leads to the store. The
last position is that of the last record.
-/
structure ServedStore.Kept (config : Config) (bin : Bincode F) (server : ServedStore env F) :
    Prop where
  snapshot : ∃ manifest base, loadSnapshot config bin server.snapshots = (.ok manifest, base) ∧
    (∀ w, watermarkOf manifest = some w → w < server.wal.endPosition config.payloadLen) ∧
    Rebuilds config base (watermarkOf manifest) server.wal server.dbs
  last : ∀ p, server.lastWalPosition = some p → p < server.wal.endPosition config.payloadLen ∧
    ∀ r ∈ server.wal.records config.payloadLen, r.position ≤ p

theorem uncovered_of_le {records : List (WalRecord Payload)} (h : ∀ r ∈ records, r.position ≤ p) :
    uncovered (some p) records = [] := by
  refine List.filter_eq_nil_iff.mpr fun r hr => ?_
  have hle : decide (r.position ≤ p) = true := decide_eq_true (h r hr)
  rw [covered, Option.any_some, hle]
  exact Bool.false_ne_true

theorem uncovered_append (records : List (WalRecord Payload)) {record : WalRecord Payload}
    (h : ∀ w, watermark = some w → w < record.position) :
    uncovered watermark (records ++ [record]) = uncovered watermark records ++ [record] := by
  have hcov : covered watermark record = false := by
    cases watermark with
    | none => rfl
    | some w => exact decide_eq_false (WalPosition.not_le_of_lt (h w rfl))
  rw [uncovered, List.filter_append, List.filter_singleton, hcov]
  rfl

theorem Rebuilds.write (h : Rebuilds config base watermark wal s)
    (hw : ∀ w, watermark = some w → w < wal.endPosition config.payloadLen) {cmd : WriteCommand}
    {draw : Draw} (hlog : cmd.shouldLogToWal = true) (hcmd : cmd.Steady) (hd : draw.Evictionless)
    (hrun : ¬ panics (cmd.run 0 draw s).1 = true) :
    Rebuilds config base watermark
      (wal.handleAppend config.payloadLen config.maxSegmentSize (walPayload 0 cmd)).2
      (cmd.run 0 draw s).2 := by
  obtain ⟨cmds, s₀, s₁, hholds, hcmds, hbase, hcmdsRun, hlive⟩ := h
  obtain ⟨hreply, hstate⟩ :=
    (cmd.uses_run 0).agree hcmd.1 hcmd.2.1 hcmd.2.2 hd hd hlive
  refine ⟨cmds ++ [(cmd, draw)], s₀, (cmd.run 0 draw s₁).2, ?_, ?_, hbase, ?_, hstate⟩
  · rw [Wal.records_handleAppend, uncovered_append]
    · rw [List.map_append]
      unfold Holds at hholds ⊢
      rw [List.map_append, List.map_append, hholds]
      rfl
    · intro w hwm
      exact WalPosition.lt_of_lt_of_le (hw w hwm)
        (Wal.endPosition_le_handleAppend config.payloadLen config.maxSegmentSize _)
  · intro x hx
    rcases List.mem_append.mp hx with hx | hx
    · exact hcmds x hx
    · rw [List.mem_singleton.mp hx]
      exact ⟨hlog, hcmd, hd⟩
  · rw [runAll_append, hcmdsRun, Option.bind_some, runAll, if_neg (by rw [hreply]; exact hrun)]
    rfl

theorem serve_eq (dbs : Dbs env) (snapshots : SnapshotDir F) {log : WalDir Payload}
    (h : Wal.open config.payloadLen config.maxSegmentSize log = .ok wal) :
    serve config dbs ⟨.ok log, snapshots⟩ = .ok ⟨dbs, wal, none, snapshots⟩ := by
  unfold serve
  rw [Except.bind, h]

/-- An append is the last record of the log. -/
theorem appended_last (config : Config) (wal : Wal Payload) (payload : Payload) :
    (wal.handleAppend config.payloadLen config.maxSegmentSize payload).1
        < (wal.handleAppend config.payloadLen config.maxSegmentSize payload).2.endPosition
          config.payloadLen ∧
      ∀ r ∈ (wal.handleAppend config.payloadLen config.maxSegmentSize payload).2.records
          config.payloadLen,
        r.position ≤ (wal.handleAppend config.payloadLen config.maxSegmentSize payload).1 := by
  have hrecords : _ = wal.records config.payloadLen ++ [_] :=
    Wal.records_handleAppend config.payloadLen config.maxSegmentSize payload
  constructor
  · refine Wal.position_lt_endPosition config.payloadLen (r := ⟨_, payload⟩) ?_
    rw [hrecords]
    exact List.mem_append_right _ (List.mem_singleton_self _)
  · intro r hr
    rw [hrecords] at hr
    rcases List.mem_append.mp hr with hr | hr
    · exact WalPosition.le_of_lt
        (Wal.position_lt_handleAppend config.payloadLen config.maxSegmentSize payload hr)
    · rw [List.mem_singleton.mp hr]
      exact WalPosition.le_refl _

/-- A position before the end of the log is before the end of a longer one. -/
theorem lt_endPosition_append (h : p < wal.endPosition config.payloadLen) (payload : Payload) :
    p < (wal.handleAppend config.payloadLen config.maxSegmentSize payload).2.endPosition
      config.payloadLen := by
  obtain ⟨hend, -⟩ := appended_last config wal payload
  have hle : wal.endPosition config.payloadLen ≤ _ :=
    Wal.endPosition_le_handleAppend config.payloadLen config.maxSegmentSize payload
  exact WalPosition.lt_of_lt_of_le h (WalPosition.le_of_lt (WalPosition.lt_of_le_of_lt hle hend))

namespace ServedStore

/--
When `SAVE` is safe. A snapshot that will be loaded has to hold the whole store and, unless nothing
was ever logged, needs a watermark, so a command logged since the start. If snapshots are not
loaded, the log must not be cut.
-/
def SafeSave (config : Config) (server : ServedStore env F) : Prop :=
  if config.enableSnapshot then server.dbs.Saveable ∧
    (server.lastWalPosition = none → server.wal.records config.payloadLen = [])
  else server.wal.closed = []

/-- Steady commands, safe saves and no eviction. -/
def Proper (config : Config) (server : ServedStore env F) : Action → Prop
  | .write cmd draw => cmd.shouldLogToWal = true ∧ cmd.Steady ∧ draw.Evictionless
  | .save => server.SafeSave config
  | .restart draws => ∀ p, (draws p).Evictionless

theorem Kept.start (config : Config) (bin : Bincode F) (path : String) :
    (start path : ServedStore env F).Kept config bin where
  snapshot := by
    refine ⟨none, Dbs.fresh, ?_, fun w hw => (Option.some_ne_none w hw.symm).elim, ?_⟩
    · unfold loadSnapshot
      split <;> rfl
    · exact .of_covered rfl Dbs.Agree.fresh
  last p hp := by cases hp

theorem Kept.write (h : server.Kept config bin) {cmd : WriteCommand} {draw : Draw}
    (hp : server.Proper config (.write cmd draw))
    (hs : server.write config cmd draw = some server') : server'.Kept config bin := by
  obtain ⟨hlog, hcmd, hd⟩ := hp
  obtain ⟨manifest, base, hload, hw, hrebuilds⟩ := h.snapshot
  unfold ServedStore.write at hs
  dsimp only at hs
  split at hs
  · cases hs
  · next hpanics =>
    cases hs
    obtain ⟨hend, hlast⟩ := appended_last config server.wal (walPayload 0 cmd)
    refine ⟨⟨manifest, base, hload, ?_, hrebuilds.write hw hlog hcmd hd hpanics⟩, ?_⟩
    · exact fun w hwm => lt_endPosition_append (hw w hwm) (walPayload 0 cmd)
    · intro p hp
      cases hp
      exact ⟨hend, hlast⟩

/-- The log of a server after `SAVE`. -/
theorem save_wal (server : ServedStore env F) (hp : server.lastWalPosition = some p) :
    (server.save bin).wal = server.wal.truncateBefore p.segmentId := by
  unfold ServedStore.save
  rw [hp]

theorem save_wal_of_closed (h : server.wal.closed = []) : (server.save bin).wal = server.wal := by
  cases hp : server.lastWalPosition with
  | none =>
    unfold ServedStore.save
    rw [hp]
  | some p =>
    rw [save_wal server hp]
    have htargets : server.wal.truncateTargets p.segmentId = [] := by
      unfold Wal.truncateTargets Wal.segments
      rw [h]
      refine List.filter_eq_nil_iff.mpr fun id hid => ?_
      rw [List.mem_singleton.mp hid, decide_eq_true_iff]
      exact Nat.not_lt.mpr (Nat.min_le_right _ _)
    rw [Wal.truncateBefore, htargets]
    rfl

theorem Kept.save_last (h : server.Kept config bin) (hp : server.lastWalPosition = some p) :
    p < (server.save bin).wal.endPosition config.payloadLen ∧
      ∀ r ∈ (server.save bin).wal.records config.payloadLen, r.position ≤ p := by
  obtain ⟨hlt, hle⟩ := h.last p hp
  rw [save_wal server hp, Wal.endPosition_truncateBefore]
  refine ⟨hlt, fun r hr => hle r ?_⟩
  exact (Wal.records_truncateBefore_sublist config.payloadLen p.segmentId).subset hr

/-- After a safe `SAVE` the watermark covers the whole log. -/
theorem Kept.save_covers (h : server.Kept config bin)
    (hnone : server.lastWalPosition = none → server.wal.records config.payloadLen = []) :
    uncovered server.lastWalPosition ((server.save bin).wal.records config.payloadLen) = [] := by
  cases hp : server.lastWalPosition with
  | none =>
    have hwal : (server.save bin).wal = server.wal := by
      unfold ServedStore.save
      rw [hp]
    rw [hwal, hnone hp]
    rfl
  | some p => exact uncovered_of_le (h.save_last hp).2

theorem Kept.save (hb : bin.Lawful) (h : server.Kept config bin) (hsafe : server.SafeSave config) :
    (server.save bin).Kept config bin := by
  obtain ⟨manifest, base, hload, hw, hrebuilds⟩ := h.snapshot
  refine ⟨?_, fun p hp => h.save_last hp⟩
  unfold SafeSave at hsafe
  split at hsafe
  · next hsnap =>
    obtain ⟨hsaveable, hnone⟩ := hsafe
    obtain ⟨t, ht, hsame⟩ := hsaveable.load hb server.lastWalPosition server.snapshots
    refine ⟨some (manifestFor bin server.dbs server.lastWalPosition), t, ?_, ?_, ?_⟩
    · rw [loadSnapshot, if_pos hsnap]
      exact ht
    · exact fun w hwm => (h.save_last hwm).1
    · refine .of_covered (h.save_covers hnone) ?_
      exact ⟨fun a k => (hsame a k).symm, hrebuilds.agree_self.steady⟩
  · next hsnap =>
    refine ⟨manifest, base, ?_, ?_, ?_⟩
    · rw [← hload, loadSnapshot, loadSnapshot, if_neg hsnap, if_neg hsnap]
    · rw [save_wal_of_closed hsafe]
      exact hw
    · rw [save_wal_of_closed hsafe]
      exact hrebuilds

/-- **What is kept is recovered.** -/
theorem Kept.recover (h : server.Kept config bin) (hdraws : ∀ p, (draws p).Evictionless) :
    ∃ t, recoverPersistence config bin draws server.files = .ok t ∧ server.dbs.Agree t := by
  obtain ⟨manifest, base, hload, -, hrebuilds⟩ := h.snapshot
  obtain ⟨t, ht, hagree⟩ := hrebuilds.replay hdraws
  refine ⟨t, ?_, hagree⟩
  unfold recoverPersistence
  rw [show server.files.snapshots = server.snapshots from rfl, hload]
  exact ht

theorem Kept.restart (h : server.Kept config bin) (hdraws : ∀ p, (draws p).Evictionless) :
    ∃ server', buildFromConfig config bin draws server.files = .ok server' ∧
      server'.Kept config bin ∧ server.dbs.Agree server'.dbs := by
  obtain ⟨t, hrecover, hagree⟩ := h.recover hdraws
  obtain ⟨manifest, base, hload, hw, hrebuilds⟩ := h.snapshot
  obtain ⟨wal, hopen⟩ := Wal.open_ok config.payloadLen server.wal.dir config.segmentFits
  have hrecords : wal.records config.payloadLen = server.wal.records config.payloadLen :=
    Wal.records_open config.payloadLen hopen
  refine ⟨⟨t, wal, none, server.snapshots⟩, ?_, ⟨⟨manifest, base, hload, ?_, ?_⟩, ?_⟩, hagree⟩
  · rw [buildFromConfig, hrecover]
    exact serve_eq t server.snapshots hopen
  · intro w hwm
    exact WalPosition.lt_of_lt_of_le (hw w hwm) (Wal.endPosition_open config.payloadLen hopen)
  · unfold Rebuilds
    rw [hrecords]
    exact hrebuilds.trans hagree
  · intro p hp
    cases hp

theorem Kept.step (hb : bin.Lawful) (h : server.Kept config bin) {action : Action}
    (hp : server.Proper config action) (hs : server.step config bin action = some server') :
    server'.Kept config bin := by
  cases action with
  | write cmd draw => exact h.write hp hs
  | save =>
    cases hs
    exact h.save hb hp
  | restart draws =>
    obtain ⟨next, hnext, hkept, -⟩ := h.restart hp
    rw [ServedStore.step, hnext] at hs
    cases hs
    exact hkept

theorem Kept.restart_step (h : server.Kept config bin) (hdraws : ∀ p, (draws p).Evictionless) :
    ∃ server', server.step config bin (.restart draws) = some server' ∧
      server.dbs.Agree server'.dbs := by
  obtain ⟨server', hbuild, -, hagree⟩ := h.restart hdraws
  refine ⟨server', ?_, hagree⟩
  rw [ServedStore.step, hbuild]
  rfl

/--
**A restart changes nothing**, whatever steady commands, safe saves and restarts came before: it
succeeds, and every key has the value it had.
-/
theorem restart_exact (hb : bin.Lawful) (path : String)
    (h : Reach (ServedStore.step config bin) (Proper config) (start path) server)
    {draws : WalPosition → Draw} (hdraws : ∀ p, (draws p).Evictionless) :
    ∃ server', server.step config bin (.restart draws) = some server' ∧
      server.dbs.Agree server'.dbs := by
  have hkept : server.Kept config bin :=
    h.invariant (Kept.start config bin path) fun _ _ _ hk hp hs => hk.step hb hp hs
  exact hkept.restart_step hdraws

end ServedStore

end

namespace Sample

/-- A segment holds one record. -/
def config : Config where
  enableSnapshot := true
  allowDataLoss := true
  payloadLen _ := 30
  maxSegmentSize := 50
  segmentFits := by decide

abbrev Served := ServedStore Store.Sample.env (List (Key × CacheEntry))

/-- Perform actions, starting from a given server. -/
def served (server : Served) (actions : List ServedStore.Action) : Option Served :=
  run (ServedStore.step config Store.Sample.bincode) (fun _ _ => true) server actions

/-- The number under a key of database 0. -/
def counter (key : Key) (s : Dbs Store.Sample.env) : Option Int :=
  (s.entry (Store.Sample.env.addr 0 key) key).bind fun e => (counterOf key e.value).toOption

/-- The server after `SET a 1`. -/
def afterSet : Served where
  dbs := ((set "a").run 0 (Store.Sample.draw 0) Dbs.fresh).2
  wal := (newWal.handleAppend config.payloadLen config.maxSegmentSize (walPayload 0 (set "a"))).2
  lastWalPosition :=
    some (newWal.handleAppend config.payloadLen config.maxSegmentSize (walPayload 0 (set "a"))).1
  snapshots := ⟨"snapshots", none, []⟩

def incr (key : Key) : ServedStore.Action := .write (.key (.incr key)) (Store.Sample.draw 0)

def write (key : Key) : ServedStore.Action := .write (set key) (Store.Sample.draw 0)

def restart : ServedStore.Action := .restart fun _ => Store.Sample.draw 0

theorem set_proper (server : Served) (key : Key) : server.Proper config (write key) :=
  ⟨rfl, ⟨rfl, rfl, rfl⟩, draw_evictionless 0⟩

theorem step_set :
    ServedStore.step config bincode (.start "snapshots") (write "a")
      = some afterSet := by
  have hruns : ¬ panics ((set "a").run 0 (Store.Sample.draw 0)
      (Dbs.fresh : Dbs Store.Sample.env)).1 = true := by decide +kernel
  rw [write, ServedStore.step, ServedStore.write]
  exact if_neg hruns

theorem afterSet_saveable : afterSet.dbs.Saveable where
  complete a ha k := by
    have hempty : ∀ db shard,
        db ∉ afterSet.dbs.saved → (afterSet.dbs ⟨db, shard⟩).data.isEmpty = true := by
      decide +kernel
    have hdata : (afterSet.dbs a).data = ∅ :=
      Std.ExtTreeMap.isEmpty_iff.mp (hempty a.db a.shard ha)
    rw [Dbs.entry, hdata]
    exact Map.get_empty k
  decodable a ha := by
    have hplain : ∀ db shard,
        (afterSet.dbs ⟨db, shard⟩).data.toList.all fun kv => kv.2.value.selfContained := by
      decide +kernel
    exact fun kv hkv => List.all_eq_true.mp (hplain a.db a.shard) kv hkv

theorem afterSet_safe : afterSet.SafeSave config := by
  refine ⟨afterSet_saveable, fun h => ?_⟩
  cases h

end Sample

/-- `SET a 1`, `SAVE` and then restarts. -/
theorem restart_exact_after_save :
    ∃ server', ServedStore.step Sample.config bincode
        (afterSet.save bincode) Sample.restart = some server' ∧
      (afterSet.save bincode).dbs.Agree server'.dbs := by
  have hset : Reach (ServedStore.step Sample.config bincode)
      (ServedStore.Proper Sample.config) (.start "snapshots") afterSet :=
    Reach.init.step (set_proper _ "a") step_set
  exact ServedStore.restart_exact bincode_lawful "snapshots"
    (hset.step (a := .save) afterSet_safe rfl) fun _ => draw_evictionless 0

/-- `INCR a`, restart, `SAVE`, restart: the increment is counted twice. -/
theorem incr_replayed_twice :
    (served (.start "snapshots") [incr "a", Sample.restart, .save]).map
        (fun server => counter "a" server.dbs) = some (some 1) ∧
      (served (.start "snapshots")
        [incr "a", Sample.restart, .save, Sample.restart]).map
        (fun server => counter "a" server.dbs) = some (some 2) := by
  decide +kernel

/-! ## Stopping during `SAVE` -/

section

variable {config : Config} {bin : Bincode F} {server : ServedStore env F}

/-- The snapshot directory if `SAVE` stops after `k` file operations. -/
def ServedStore.interrupted (bin : Bincode F) (server : ServedStore env F) (k : Nat) :
    SnapshotDir F :=
  ((saveOps bin server.dbs server.lastWalPosition server.snapshots).take k).foldl FileOp.apply
    server.snapshots

theorem loadVerified_no_manifest (bin : Bincode F) {dir : SnapshotDir F}
    (hm : dir.manifest = none) (he : dir.entries ≠ []) (s : Dbs env) :
    ∃ text, loadVerified bin dir s = (.error (.corruption text), s) := by
  obtain ⟨entry, rest, hentries⟩ := List.exists_cons_of_ne_nil he
  unfold loadVerified verify
  rw [hm, hentries]
  exact ⟨_, rfl⟩

/-- The files of a server with another snapshot directory. -/
theorem recoverPersistence_files (hsnap : config.enableSnapshot = true)
    (draws : WalPosition → Draw) (dir : SnapshotDir F) :
    recoverPersistence config bin draws ⟨.ok server.wal.dir, dir⟩ =
      match (loadVerified bin dir (Dbs.fresh : Dbs env)) with
      | (.error e, _) => .error (.persistence e)
      | (.ok manifest, dbs) => replayWal applyReplayCommand draws (watermarkOf manifest)
          (server.wal.records config.payloadLen) dbs := by
  rw [recoverPersistence, loadSnapshot, if_pos hsnap]
  rfl

/-- Replaying the log over `base` gives back every entry of the store, or is refused. -/
def ServedStore.Restores (config : Config) (draws : WalPosition → Draw) (server : ServedStore env F)
    (watermark : Option WalPosition) (base : Dbs env) : Prop :=
  (∃ t, replayWal applyReplayCommand draws watermark (server.wal.records config.payloadLen) base
      = .ok t ∧ ∀ a key, t.entry a key = server.dbs.entry a key) ∨
    ∃ text, replayWal applyReplayCommand draws watermark (server.wal.records config.payloadLen) base
      = .error (.persistence (.corruption text))

/-- If `SAVE` stops after `k` operations, recovery gives back every entry of the store, or is
refused. -/
def ServedStore.SurvivesStop (config : Config) (bin : Bincode F) (draws : WalPosition → Draw)
    (server : ServedStore env F) (k : Nat) : Prop :=
  (∃ t, recoverPersistence config bin draws ⟨.ok server.wal.dir, server.interrupted bin k⟩ = .ok t ∧
      ∀ a key, t.entry a key = server.dbs.entry a key) ∨
    ∃ text, (recoverPersistence config bin draws ⟨.ok server.wal.dir, server.interrupted bin k⟩ :
      Except Interrupt (Dbs env)) = .error (.persistence (.corruption text))

/--
**A crash during `SAVE`**, if the files held the store before. While there is an old or a new
database directory recovery is refused. In between the log alone has to give back the store. With
the manifest written, the snapshot has to load, and the records past its watermark have to lead
from it to the store.
-/
theorem interrupted_save_iff (hb : bin.Lawful) (hsnap : config.enableSnapshot = true)
    {draws : WalPosition → Draw} {t : Dbs env}
    (hbefore : recoverPersistence config bin draws server.files = .ok t)
    (hsame : ∀ a key, t.entry a key = server.dbs.entry a key) (k : Nat) :
    server.SurvivesStop config bin draws k ↔
      if k = 0 then True
      else if k < (saveOps bin server.dbs server.lastWalPosition server.snapshots).length then
        k = server.snapshots.entries.length + 1 → server.Restores config draws none Dbs.fresh
      else (∀ a : Addr env, a.db ∈ server.dbs.saved → (server.dbs a).SelfContained) ∧
        server.Restores config draws server.lastWalPosition server.dbs.reloaded := by
  by_cases h0 : k = 0
  · subst h0
    rw [if_pos rfl]
    exact iff_of_true (.inl ⟨t, hbefore, hsame⟩) trivial
  rw [if_neg h0]
  have h0 : 0 < k := Nat.pos_of_ne_zero h0
  unfold ServedStore.SurvivesStop
  rw [recoverPersistence_files hsnap]
  by_cases hlen : k < (saveOps bin server.dbs server.lastWalPosition server.snapshots).length
  · rw [if_pos hlen]
    have hnone : (server.interrupted bin k).manifest = none := manifest_take h0 hlen
    have hempty : (server.interrupted bin k).entries = [] ↔ _ := entries_take h0 hlen
    by_cases hk : k = server.snapshots.entries.length + 1
    · -- the directory is taken for one without a snapshot
      have hload : loadVerified bin (server.interrupted bin k) (Dbs.fresh : Dbs env)
          = (.ok none, Dbs.fresh) := by
        unfold loadVerified verify
        rw [hnone, hempty.mpr hk]
      rw [hload]
      exact ⟨fun h _ => h, fun h => h hk⟩
    · obtain ⟨text, htext⟩ := loadVerified_no_manifest bin hnone
        (fun he => hk (hempty.mp he)) (Dbs.fresh : Dbs env)
      rw [htext]
      exact iff_of_true (.inr ⟨text, rfl⟩) fun he => absurd he hk
  · rw [if_neg hlen]
    have hall : server.interrupted bin k
        = saveVerified bin server.dbs server.lastWalPosition server.snapshots := by
      rw [ServedStore.interrupted, List.take_of_length_le (Nat.not_lt.mp hlen)]
      rfl
    rw [hall]
    by_cases hdec : ∀ a : Addr env, a.db ∈ server.dbs.saved → (server.dbs a).SelfContained
    · rw [loadVerified_reloaded hb server.lastWalPosition hdec, and_iff_right hdec]
      rfl
    · -- a document cannot be loaded, and that is no corruption
      refine iff_of_false ?_ fun h => hdec h.1
      push Not at hdec
      obtain ⟨a, ha, hs⟩ := hdec
      obtain ⟨e, he⟩ := loadVerified_undecodable hb server.lastWalPosition ha hs Dbs.fresh
      have hnot := loadVerified_saved_error server.lastWalPosition _ he
      revert he
      rcases loadVerified bin (saveVerified bin server.dbs server.lastWalPosition
        server.snapshots) Dbs.fresh with ⟨r, u⟩
      rintro rfl
      rintro (⟨_, h, -⟩ | ⟨text, h⟩)
      · cases h
      · cases h
        exact hnot text rfl

end

namespace Sample

/-- The files of `afterSet` are complete, so its `SAVE` may stop. -/
theorem afterSet_kept : afterSet.Kept config bincode :=
  (ServedStore.Kept.start config bincode "snapshots").step bincode_lawful
    (set_proper _ "a") step_set

end Sample

/-- `SET a 1` and `SAVE`, then a second `SAVE` that stops with the directory empty: the log has the
key. -/
theorem interrupted_save_iff_second :
    (afterSet.save bincode).snapshots.entries.length = 1 ∧
      (afterSet.save bincode).SurvivesStop Sample.config bincode
        (fun _ => Store.Sample.draw 0) 2 := by
  have hsaved := afterSet_kept.save bincode_lawful afterSet_safe
  obtain ⟨t, ht, hagree⟩ := hsaved.recover fun _ => draw_evictionless 0
  refine ⟨by decide +kernel, (interrupted_save_iff bincode_lawful rfl ht
    (fun a key => (hagree.same a key).symm) 2).mpr ?_⟩
  rw [if_neg (by decide), if_pos (by decide +kernel)]
  intro _
  -- the log was not cut by the first `SAVE`
  obtain ⟨manifest, base, hload, -, hrebuilds⟩ := afterSet_kept.snapshot
  cases hload
  obtain ⟨u, hu, hlive⟩ := hrebuilds.replay fun _ => draw_evictionless 0
  refine .inl ⟨u, ?_, fun a key => (hlive.same a key).symm⟩
  rw [ServedStore.save_wal_of_closed rfl]
  exact hu

/--
`SET a 1`, `SET b 1`, `SAVE`, and then a `SAVE` that stops after the second operation: manifest and
database directory are gone, the first segment of the log has been gone since the first `SAVE`, and
recovery succeeds without `a`.
-/
theorem interrupted_save_loses :
    (served (.start "snapshots") [Sample.write "a", Sample.write "b", .save]).map
        (fun server => (counter "a" server.dbs, counter "b" server.dbs))
      = some (some 1, some 1) ∧
    ((served (.start "snapshots") [Sample.write "a", Sample.write "b", .save]).bind
        fun server => (recoverPersistence Sample.config bincode
          (fun _ => Store.Sample.draw 0)
          ⟨.ok server.wal.dir, server.interrupted bincode 2⟩).toOption).map
        (fun s => (counter "a" s, counter "b" s))
      = some (none, some 1) := by
  decide +kernel

/-! ## Starting over -/

section

variable {config : Config} {bin : Bincode F}

/-- Starting over: the stores are empty and the log is new, the snapshots are left as they are. -/
theorem buildFromConfig_of_loss {draws : WalPosition → Draw} {dir : PersistenceDir F}
    {e : PersistenceError}
    (hfail : (recoverPersistence config bin draws dir : Except Interrupt (Dbs env))
      = .error (.persistence e)) (hloss : config.allowDataLoss = true) :
    buildFromConfig config bin draws dir
      = .ok (⟨Dbs.fresh, newWal, none, dir.snapshots⟩ : ServedStore env F) := by
  have hopen : Wal.open config.payloadLen config.maxSegmentSize ⟨[], List.Pairwise.nil⟩
      = .ok newWal := by
    rw [Wal.open, if_neg (Nat.not_le.mpr config.segmentFits)]
    rfl
  rw [buildFromConfig, hfail]
  dsimp only
  rw [if_pos hloss]
  exact serve_eq Dbs.fresh dir.snapshots hopen

/--
**Starting over after data loss.** If what is left of the snapshots loads as an empty store without
a watermark, then the new server recovers its later commands, and nothing else, at every restart.
-/
theorem fresh_start_exact (hb : bin.Lawful) {draws : WalPosition → Draw} {dir : PersistenceDir F}
    {e : PersistenceError}
    (hfail : (recoverPersistence config bin draws dir : Except Interrupt (Dbs env))
      = .error (.persistence e)) (hloss : config.allowDataLoss = true)
    {manifest : Option SnapshotManifest} {base : Dbs env}
    (hload : loadSnapshot config bin dir.snapshots = (.ok manifest, base))
    (hempty : ∀ a key, base.entry a key = none) (hwatermark : watermarkOf manifest = none) :
    ∃ first : ServedStore env F, buildFromConfig config bin draws dir = .ok first ∧
      first.dbs = Dbs.fresh ∧
      ∀ server, Reach (ServedStore.step config bin) (ServedStore.Proper config) first server →
        ∀ draws' : WalPosition → Draw, (∀ p, (draws' p).Evictionless) →
          ∃ server', server.step config bin (.restart draws') = some server' ∧
            server.dbs.Agree server'.dbs := by
  refine ⟨_, buildFromConfig_of_loss hfail hloss, rfl, fun server hreach draws' hdraws => ?_⟩
  have hfirst : (⟨Dbs.fresh, newWal, none, dir.snapshots⟩ : ServedStore env F).Kept config bin := by
    refine ⟨⟨manifest, base, hload, fun w hw => ?_, .of_covered ?_ ⟨fun a key => ?_, ?_⟩⟩, ?_⟩
    · rw [hwatermark] at hw
      cases hw
    · rw [hwatermark]
      rfl
    · rw [hempty]
      exact Dbs.entry_fresh a key
    · exact Dbs.Agree.fresh.steady
    · intro p hp
      cases hp
  have hkept : server.Kept config bin :=
    hreach.invariant hfirst fun _ _ _ hk hp hs => hk.step hb hp hs
  exact hkept.restart_step hdraws

end

namespace Sample

/-- The log is damaged; an older snapshot is there, with the watermark `(5, 0)`. -/
def damaged : PersistenceDir (List (Key × CacheEntry)) where
  log := .error (.corruption "bad record checksum")
  snapshots :=
    saveVerified Store.Sample.bincode afterSet.dbs (some ⟨5, 0⟩) ⟨"snapshots", none, []⟩

/-- The log is damaged, and there is no snapshot. -/
def damagedLog : PersistenceDir (List (Key × CacheEntry)) where
  log := .error (.corruption "bad record checksum")
  snapshots := ⟨"snapshots", none, []⟩

/-- Start in a directory and perform actions. -/
def startIn (dir : PersistenceDir (List (Key × CacheEntry))) (actions : List ServedStore.Action) :
    Option Served :=
  (buildFromConfig config Store.Sample.bincode (fun _ => Store.Sample.draw 0) dir).toOption.bind
    fun server => served server actions

end Sample

/-- Without a snapshot the new server recovers what it does. -/
theorem fresh_start_exact_without_snapshot :
    ∃ first : Sample.Served, buildFromConfig Sample.config bincode
        (fun _ => Store.Sample.draw 0) damagedLog = .ok first ∧ first.dbs = Dbs.fresh ∧
      ∀ server, Reach (ServedStore.step Sample.config bincode)
          (ServedStore.Proper Sample.config) first server →
        ∀ draws' : WalPosition → Draw, (∀ p, (draws' p).Evictionless) →
          ∃ server', server.step Sample.config bincode (.restart draws')
              = some server' ∧ server.dbs.Agree server'.dbs :=
  fresh_start_exact bincode_lawful rfl rfl rfl Dbs.entry_fresh rfl

/--
A server started over beside an old snapshot: after `SET b 1` and a restart, `b` is gone and the `a`
of the snapshot is back.
-/
theorem fresh_start_reverts :
    (startIn damaged [Sample.write "b"]).map
        (fun server => (counter "a" server.dbs, counter "b" server.dbs))
      = some (none, some 1) ∧
    (startIn damaged [Sample.write "b", Sample.restart]).map
        (fun server => (counter "a" server.dbs, counter "b" server.dbs))
      = some (some 1, none) := by
  decide +kernel

end Calod.Server
