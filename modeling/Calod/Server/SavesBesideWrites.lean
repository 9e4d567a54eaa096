import Calod.Server.Restarts

/-!
# Snapshots beside writes

Commands and `SAVE` as they interleave on a running server. A logged command takes three steps: its
record is appended, `last_wal_position` is set, and it is applied, after which it is acknowledged.
`Snapshotter::snapshot` reads the last position, saves the shards one after the other while commands
go on, writes the manifest and deletes the segments below the watermark.

* `saves_beside_writes` — when a crash loses and repeats nothing
* `save_races` — what happens otherwise
-/

namespace Calod.Server

open Lib Store Store.Handler Calod.Core Calod.Storage Server.Sample Store.Sample

variable {cmd : WriteCommand} {draw : Draw}

variable {env : Env} {F : Type}

/-! ## Steps -/

/-- A command whose record is in the log and which has not been applied. -/
structure InFlight where
  cmd : WriteCommand
  /-- The clock and the orders with which it is going to be applied. -/
  draw : Draw
  position : WalPosition
  /-- Has it set `last_wal_position`? -/
  noted : Bool

/-- A step of `save_verified` before the manifest is written. -/
inductive SaveStep (env : Env) where
  | removeManifest
  | removeEntry
  | database (db : Fin numDatabases)
  | shard (a : Addr env)

inductive Phase (env : Env) where
  | idle
  | saving (watermark : Option WalPosition) (files : List SnapshotFileEntry)
    (todo : List (SaveStep env))
  /-- The manifest is written; the log has not been cut. -/
  | saved (watermark : Option WalPosition)

/-- Not in the middle of a save. -/
def Phase.Complete : Phase env → Prop
  | .saving .. => False
  | _ => True

structure Racing (env : Env) (F : Type) where
  server : ServedStore env F
  /-- In the order of the log. -/
  inFlight : List InFlight
  /-- In the order in which they took effect. -/
  acknowledged : List (WriteCommand × Draw)
  phase : Phase env

namespace SaveStep

variable (bin : Bincode F) (s : Dbs env)

/-- The file operation of a step, the file it lists in the manifest, and what it adds to do. -/
def perform : SaveStep env → List (FileOp F) × List SnapshotFileEntry × List (SaveStep env)
  | .removeManifest => ([.removeManifest], [], [])
  | .removeEntry => ([.removeEntry], [], [])
  | .database db =>
    if s.dbsize db = 0 then ([], [], [])
    else ([.createDbDir db], [], (List.finRange env.numShards).map fun i => .shard ⟨db, i⟩)
  | .shard a => ([.writeShard (shardPath a) (shardFile bin s a)], [fileEntry bin s a], [])

end SaveStep

namespace Racing

variable (config : Config) (bin : Bincode F)

def start (server : ServedStore env F) : Racing env F := ⟨server, [], [], .idle⟩

/-- The commands that are logged and not applied. -/
def pending (racing : Racing env F) : List (WriteCommand × Draw) :=
  racing.inFlight.map fun w => (w.cmd, w.draw)

/-- The first step of a command: `wal.append`. -/
def append (racing : Racing env F) (cmd : WriteCommand) (draw : Draw) : Racing env F :=
  let appended := racing.server.wal.handleAppend config.payloadLen config.maxSegmentSize
    (walPayload 0 cmd)
  { racing with
    server := { racing.server with wal := appended.2 }
    inFlight := racing.inFlight ++ [⟨cmd, draw, appended.1, false⟩] }

/-- The second step: `last_wal_position` is set. -/
def note (racing : Racing env F) (i : Nat) : Option (Racing env F) :=
  match racing.inFlight[i]? with
  | some w =>
    if w.noted then none
    else some { racing with
      server := { racing.server with lastWalPosition := some w.position }
      inFlight := racing.inFlight.set i { w with noted := true } }
  | none => none

/-- The third step; `none` if the command panics. -/
def apply (racing : Racing env F) (i : Nat) : Option (Racing env F) :=
  match racing.inFlight[i]? with
  | some w =>
    if w.noted ∧ ¬ panics (w.cmd.run 0 w.draw racing.server.dbs).1 then
      some { racing with
        server := { racing.server with dbs := (w.cmd.run 0 w.draw racing.server.dbs).2 }
        inFlight := racing.inFlight.eraseIdx i
        acknowledged := racing.acknowledged ++ [(w.cmd, w.draw)] }
    else none
  | none => none

/-- `snapshot` reads the last position, and `save_verified` begins. -/
def beginSave (racing : Racing env F) : Option (Racing env F) :=
  match racing.phase with
  | .idle => some { racing with
      phase := .saving racing.server.lastWalPosition []
        (.removeManifest :: racing.server.snapshots.entries.map (fun _ => .removeEntry)
          ++ (List.finRange numDatabases).map .database) }
  | _ => none

/-- The next step of `save_verified`; the manifest comes last. -/
def saveNext (racing : Racing env F) : Option (Racing env F) :=
  match racing.phase with
  | .saving watermark files (step :: todo) =>
    let (ops, listed, more) := step.perform bin racing.server.dbs
    some { racing with
      server := { racing.server with
        snapshots := ops.foldl FileOp.apply racing.server.snapshots }
      phase := .saving watermark (files ++ listed) (more ++ todo) }
  | .saving watermark files [] =>
    some { racing with
      server := { racing.server with
        snapshots := FileOp.apply racing.server.snapshots
          (.writeManifest ⟨snapshotFormatVersion, env.numShards, watermark, files⟩) }
      phase := .saved watermark }
  | _ => none

/-- `truncate_before`. -/
def truncate (racing : Racing env F) : Option (Racing env F) :=
  match racing.phase with
  | .saved watermark => some { racing with
      server := { racing.server with
        wal := match watermark with
          | none => racing.server.wal
          | some position => racing.server.wal.truncateBefore position.segmentId }
      phase := .idle }
  | _ => none

inductive Action where
  | append (cmd : WriteCommand) (draw : Draw)
  | note (i : Nat)
  | apply (i : Nat)
  | beginSave
  | saveNext
  | truncate

def step (racing : Racing env F) : Action → Option (Racing env F)
  | .append cmd draw => some (racing.append config cmd draw)
  | .note i => racing.note i
  | .apply i => racing.apply i
  | .beginSave => racing.beginSave
  | .saveNext => racing.saveNext bin
  | .truncate => racing.truncate

/--
The steps without a race. Commands are applied in the order of the log, and none during a save. When
a save begins, nothing is in flight and the last position is that of the last record, if there is
one; the store can be saved.
-/
def Proper (racing : Racing env F) : Action → Prop
  | .append cmd draw => cmd.shouldLogToWal = true ∧ cmd.Steady ∧ draw.Evictionless
  | .apply i => i = 0 ∧ racing.phase.Complete
  | .beginSave => racing.inFlight = [] ∧ racing.server.dbs.Saveable ∧
    uncovered racing.server.lastWalPosition (racing.server.wal.records config.payloadLen) = []
  | .note _ | .saveNext | .truncate => True

end Racing

/-! ## Saving an unchanged store -/

section

variable {bin : Bincode F} {s : Dbs env}

namespace SaveStep

/-- The file operations of a step and of what it adds to do, if the store does not change. -/
def ops (bin : Bincode F) (s : Dbs env) : SaveStep env → List (FileOp F)
  | .removeManifest => [.removeManifest]
  | .removeEntry => [.removeEntry]
  | .database db => if s.dbsize db = 0 then [] else saveDbOps bin s db
  | .shard a => [.writeShard (shardPath a) (shardFile bin s a)]

/-- The files that a step and what it adds to do list. -/
def listed (bin : Bincode F) (s : Dbs env) : SaveStep env → List SnapshotFileEntry
  | .removeManifest | .removeEntry => []
  | .database db =>
    if s.dbsize db = 0 then []
    else (List.finRange env.numShards).map fun i => fileEntry bin s ⟨db, i⟩
  | .shard a => [fileEntry bin s a]

theorem ops_perform (step : SaveStep env) :
    (step.perform bin s).1 ++ (step.perform bin s).2.2.flatMap (ops bin s) = step.ops bin s := by
  cases step with
  | database db =>
    by_cases h : s.dbsize db = 0
    · rw [perform, ops, if_pos h, if_pos h]
      rfl
    · rw [perform, ops, if_neg h, if_neg h, List.flatMap_map, saveDbOps]
      dsimp only
      rw [List.map_eq_flatMap]
      rfl
  | _ => rfl

theorem listed_perform (step : SaveStep env) :
    (step.perform bin s).2.1 ++ (step.perform bin s).2.2.flatMap (listed bin s)
      = step.listed bin s := by
  cases step with
  | database db =>
    by_cases h : s.dbsize db = 0
    · rw [perform, listed, if_pos h, if_pos h]
      rfl
    · rw [perform, listed, if_neg h, if_neg h, List.flatMap_map]
      dsimp only
      rw [List.map_eq_flatMap]
      rfl
  | _ => rfl

end SaveStep

theorem flatMap_saved {α : Type} (f : Fin numDatabases → List α) :
    (List.finRange numDatabases).flatMap (fun db => if s.dbsize db = 0 then [] else f db)
      = s.saved.flatMap f := by
  unfold Dbs.saved
  generalize List.finRange numDatabases = dbs
  induction dbs with
  | nil => rfl
  | cons db rest ih =>
    rw [List.flatMap_cons, ih, List.filter_cons]
    by_cases h : s.dbsize db = 0 <;> simp [h]

/-- What is to do, in a directory, completes a save of `s` with this watermark. -/
structure Completes (bin : Bincode F) (s : Dbs env) (watermark : Option WalPosition)
    (dir : SnapshotDir F) (files : List SnapshotFileEntry) (todo : List (SaveStep env)) : Prop where
  data : ∃ dir₀, (todo.flatMap (SaveStep.ops bin s)).foldl FileOp.apply dir
    = (saveDataOps bin s dir₀).foldl FileOp.apply dir₀
  files : files ++ todo.flatMap (SaveStep.listed bin s) = (manifestFor bin s watermark).files

namespace Completes

variable {watermark : Option WalPosition} {dir : SnapshotDir F} {files : List SnapshotFileEntry}
  {todo : List (SaveStep env)}

theorem begin (bin : Bincode F) (s : Dbs env) (watermark : Option WalPosition)
    (dir : SnapshotDir F) :
    Completes bin s watermark dir [] (.removeManifest :: dir.entries.map (fun _ => .removeEntry)
      ++ (List.finRange numDatabases).map .database) where
  data := by
    have hclear : (dir.entries.map fun _ => (.removeEntry : SaveStep env)).flatMap
        (SaveStep.ops bin s) = dir.entries.map fun _ => .removeEntry := by
      rw [List.flatMap_map, List.map_eq_flatMap]
      rfl
    have hdbs : ((List.finRange numDatabases).map SaveStep.database).flatMap (SaveStep.ops bin s)
        = s.saved.flatMap (saveDbOps bin s) := by
      rw [List.flatMap_map, ← flatMap_saved]
      rfl
    refine ⟨dir, congrArg (List.foldl FileOp.apply dir) ?_⟩
    rw [List.cons_append, List.flatMap_cons, List.flatMap_append, hclear, hdbs]
    rfl
  files := by
    have hclear : (dir.entries.map fun _ => (.removeEntry : SaveStep env)).flatMap
        (SaveStep.listed bin s) = [] := by
      rw [List.flatMap_map]
      exact List.flatMap_eq_nil_iff.mpr fun _ _ => rfl
    have hdbs : ((List.finRange numDatabases).map SaveStep.database).flatMap
        (SaveStep.listed bin s) = (manifestFor bin s watermark).files := by
      rw [List.flatMap_map, manifestFor, ← flatMap_saved]
      rfl
    rw [List.cons_append, List.flatMap_cons, List.flatMap_append, hclear, hdbs]
    rfl

theorem next {step : SaveStep env} (h : Completes bin s watermark dir files (step :: todo)) :
    Completes bin s watermark ((step.perform bin s).1.foldl FileOp.apply dir)
      (files ++ (step.perform bin s).2.1) ((step.perform bin s).2.2 ++ todo) where
  data := by
    obtain ⟨dir₀, hdata⟩ := h.data
    refine ⟨dir₀, ?_⟩
    rw [← hdata, List.flatMap_append, List.flatMap_cons, ← step.ops_perform, ← List.foldl_append,
      List.append_assoc]
  files := by
    rw [← h.files, List.flatMap_append, List.flatMap_cons, ← step.listed_perform,
      List.append_assoc, List.append_assoc]

/-- With nothing left to do, the manifest completes `save_verified`. -/
theorem manifest (h : Completes bin s watermark dir files []) :
    ∃ dir₀, FileOp.apply dir
        (.writeManifest ⟨snapshotFormatVersion, env.numShards, watermark, files⟩)
      = saveVerified bin s watermark dir₀ := by
  obtain ⟨dir₀, hdata⟩ := h.data
  have hfiles : files = (manifestFor bin s watermark).files := by
    rw [← h.files, List.flatMap_nil, List.append_nil]
  refine ⟨dir₀, ?_⟩
  rw [saveVerified, saveOps, List.foldl_append, ← hdata, hfiles]
  rfl

end Completes

end

/-! ## What the files hold -/

section

variable {config : Config} {bin : Bincode F} {server server' : ServedStore env F}
  {base s t : Dbs env} {watermark : Option WalPosition} {wal wal' : Wal Payload}
  {pending pending' : List (WriteCommand × Draw)}

theorem uncovered_removeSegment {p : WalPosition} {id : Nat} (hp : id < p.segmentId)
    (ha : id ≠ wal.active.id) :
    uncovered (some p) ((wal.removeSegment id).records config.payloadLen)
      = uncovered (some p) (wal.records config.payloadLen) := by
  rw [Wal.records_removeSegment config.payloadLen ha, uncovered, uncovered, List.filter_filter]
  refine List.filter_congr fun r _ => ?_
  by_cases hid : r.position.segmentId = id
  · have hle : r.position ≤ p := WalPosition.le_def.mpr (.inl (hid ▸ hp))
    simp [covered, hle]
  · simp [hid]

/-- The records that `truncate_before` removes are covered. -/
theorem uncovered_truncateBefore (p : WalPosition) :
    uncovered (some p) ((wal.truncateBefore p.segmentId).records config.payloadLen)
      = uncovered (some p) (wal.records config.payloadLen) := by
  have htargets : ∀ id ∈ wal.truncateTargets p.segmentId,
      id < p.segmentId ∧ id < wal.active.id := by
    intro id hid
    exact Nat.lt_min.mp (of_decide_eq_true (List.mem_filter.mp hid).2)
  unfold Wal.truncateBefore
  generalize wal.truncateTargets p.segmentId = ids at htargets
  induction ids generalizing wal with
  | nil => rfl
  | cons id ids ih =>
    obtain ⟨hp, ha⟩ := htargets id List.mem_cons_self
    have hrest : ∀ id' ∈ ids, id' < p.segmentId ∧ id' < (wal.removeSegment id).active.id :=
      fun id' hid => htargets id' (List.mem_cons_of_mem _ hid)
    exact (ih hrest).trans (uncovered_removeSegment hp (Nat.ne_of_lt ha))

namespace Rebuilds

theorem of_base (h : Rebuilds config base watermark wal s)
    (hsame : ∀ a key, t.entry a key = base.entry a key) :
    Rebuilds config t watermark wal s := by
  obtain ⟨cmds, s₀, s₁, hholds, hcmds, hbase, hrun, hlive⟩ := h
  refine ⟨cmds, s₀, s₁, hholds, hcmds, ⟨fun a key => ?_, hbase.steady⟩, hrun, hlive⟩
  rw [hbase.same, hsame]

end Rebuilds

/-- The uncovered records lead from `base` to what the store is when `pending` is applied. -/
structure Owes (config : Config) (base : Dbs env) (watermark : Option WalPosition)
    (server : ServedStore env F) (pending : List (WriteCommand × Draw)) : Prop where
  watermark_lt : ∀ w, watermark = some w → w < server.wal.endPosition config.payloadLen
  rebuilds : ∀ final, runAll 0 pending server.dbs = some final →
    Rebuilds config base watermark server.wal final

namespace Owes

theorem append (h : Owes config base watermark server pending) (hlog : cmd.shouldLogToWal = true)
    (hcmd : cmd.Steady) (hd : draw.Evictionless) :
    Owes config base watermark { server with
        wal := (server.wal.handleAppend config.payloadLen config.maxSegmentSize
          (walPayload 0 cmd)).2 } (pending ++ [(cmd, draw)]) where
  watermark_lt w hw := lt_endPosition_append (h.watermark_lt w hw) (walPayload 0 cmd)
  rebuilds final hrun := by
    rw [runAll_append] at hrun
    obtain ⟨mid, hmid, hlast⟩ := Option.bind_eq_some_iff.mp hrun
    rw [runAll] at hlast
    split at hlast
    · cases hlast
    · next hpanics =>
      cases hlast
      -- the new record is behind those of all commands in flight, as its effect will be
      exact (h.rebuilds mid hmid).write h.watermark_lt hlog hcmd hd hpanics

theorem apply (h : Owes config base watermark server ((cmd, draw) :: pending))
    (hpanics : ¬ panics (cmd.run 0 draw server.dbs).1 = true) :
    Owes config base watermark { server with dbs := (cmd.run 0 draw server.dbs).2 } pending where
  watermark_lt := h.watermark_lt
  rebuilds final hrun := by
    refine h.rebuilds final ?_
    rw [runAll, if_neg hpanics]
    exact hrun

/-- With nothing in flight and a watermark that covers the log, the store is its own base. -/
theorem begin (h : Owes config base watermark server [])
    {last : Option WalPosition}
    (hlast : ∀ p, last = some p → p < server.wal.endPosition config.payloadLen)
    (hcovers : uncovered last (server.wal.records config.payloadLen) = []) :
    Owes config server.dbs last server [] where
  watermark_lt := hlast
  rebuilds final hrun := by
    have hself : server.dbs.Agree server.dbs := (h.rebuilds server.dbs rfl).agree_self
    cases hrun
    exact .of_covered hcovers hself

theorem of_base (h : Owes config base watermark server pending)
    (hsame : ∀ a key, t.entry a key = base.entry a key) :
    Owes config t watermark server pending where
  watermark_lt := h.watermark_lt
  rebuilds final hrun := (h.rebuilds final hrun).of_base hsame

theorem truncate {p : WalPosition} (h : Owes config base (some p) server pending) :
    Owes config base (some p)
      { server with wal := server.wal.truncateBefore p.segmentId } pending where
  watermark_lt w hw := by
    rw [Wal.endPosition_truncateBefore]
    exact h.watermark_lt w hw
  rebuilds final hrun := by
    unfold Rebuilds
    rw [uncovered_truncateBefore p]
    exact h.rebuilds final hrun

end Owes

/-- The snapshot loads, or will when the save is done, and the log has what it lacks. -/
def Phase.Safe (config : Config) (bin : Bincode F) (server : ServedStore env F)
    (pending : List (WriteCommand × Draw)) : Phase env → Prop
  | .idle => ∃ manifest base, loadSnapshot config bin server.snapshots = (.ok manifest, base) ∧
    Owes config base (watermarkOf manifest) server pending
  | .saving watermark files todo => server.dbs.Saveable ∧
    Completes bin server.dbs watermark server.snapshots files todo ∧
    Owes config server.dbs watermark server pending
  | .saved watermark => ∃ manifest base,
    loadSnapshot config bin server.snapshots = (.ok manifest, base) ∧
    watermarkOf manifest = watermark ∧ Owes config base watermark server pending

/-- A step of a command leaves the snapshots alone, and during a save also the store. -/
theorem Phase.Safe.update {phase : Phase env} (h : phase.Safe config bin server pending)
    (hsnapshots : server'.snapshots = server.snapshots)
    (hdbs : phase.Complete ∨ server'.dbs = server.dbs)
    (howes : ∀ base watermark, Owes config base watermark server pending →
      Owes config base watermark server' pending') : phase.Safe config bin server' pending' := by
  cases phase with
  | idle =>
    obtain ⟨manifest, base, hload, ho⟩ := h
    exact ⟨manifest, base, hsnapshots ▸ hload, howes _ _ ho⟩
  | saved watermark =>
    obtain ⟨manifest, base, hload, hw, ho⟩ := h
    exact ⟨manifest, base, hsnapshots ▸ hload, hw, howes _ _ ho⟩
  | saving watermark files todo =>
    obtain ⟨hsaveable, hcompletes, ho⟩ := h
    have hs : server'.dbs = server.dbs := hdbs.resolve_left id
    unfold Phase.Safe
    rw [hs, hsnapshots]
    exact ⟨hsaveable, hcompletes, howes _ _ ho⟩

namespace Racing

variable {racing racing' : Racing env F} {s₀ : Dbs env}

/-- The invariant: `s₀` is the store before the first command. -/
structure Safe (config : Config) (bin : Bincode F) (s₀ : Dbs env) (racing : Racing env F) :
    Prop where
  acknowledged : runAll 0 racing.acknowledged s₀ = some racing.server.dbs
  positions : ∀ w ∈ racing.inFlight, w.position < racing.server.wal.endPosition config.payloadLen
  last : ∀ p, racing.server.lastWalPosition = some p →
    p < racing.server.wal.endPosition config.payloadLen
  phase : racing.phase.Safe config bin racing.server racing.pending

theorem Safe.start (h : server.Kept config bin) : (start server).Safe config bin server.dbs where
  acknowledged := rfl
  positions w hw := (List.not_mem_nil hw).elim
  last p hp := (h.last p hp).1
  phase := by
    obtain ⟨manifest, base, hload, hw, hrebuilds⟩ := h.snapshot
    refine ⟨manifest, base, hload, hw, fun final hrun => ?_⟩
    cases hrun
    exact hrebuilds

theorem Safe.append (h : racing.Safe config bin s₀) (hp : racing.Proper config (.append cmd draw)) :
    (racing.append config cmd draw).Safe config bin s₀ := by
  obtain ⟨hlog, hcmd, hd⟩ := hp
  obtain ⟨hend, -⟩ := appended_last config racing.server.wal (walPayload 0 cmd)
  refine ⟨h.acknowledged, fun w hw => ?_,
    fun p hp => lt_endPosition_append (h.last p hp) (walPayload 0 cmd), ?_⟩
  · rcases List.mem_append.mp hw with hw | hw
    · exact lt_endPosition_append (h.positions w hw) (walPayload 0 cmd)
    · rw [List.mem_singleton.mp hw]
      exact hend
  · refine h.phase.update rfl (.inr rfl) fun base watermark ho => ?_
    rw [pending, Racing.append, List.map_append]
    exact ho.append hlog hcmd hd

theorem pending_note {l : List InFlight} {i : Nat} {w : InFlight} (h : l[i]? = some w) :
    (l.set i { w with noted := true }).map (fun w => (w.cmd, w.draw))
      = l.map fun w => (w.cmd, w.draw) := by
  refine List.ext_getElem? fun j => ?_
  rw [List.getElem?_map, List.getElem?_map, List.getElem?_set]
  by_cases hj : i = j
  · subst hj
    have hlt : i < l.length := (List.getElem?_eq_some_iff.mp h).1
    rw [if_pos rfl, if_pos hlt, h]
    rfl
  · rw [if_neg hj]

theorem Safe.note (h : racing.Safe config bin s₀) {i : Nat}
    (hs : racing.note i = some racing') : racing'.Safe config bin s₀ := by
  unfold Racing.note at hs
  split at hs
  · next w hw =>
    split at hs
    · cases hs
    · cases hs
      have hmem : w ∈ racing.inFlight := List.mem_of_getElem? hw
      refine ⟨h.acknowledged, fun v hv => ?_, fun p hp => ?_, ?_⟩
      · rcases List.mem_or_eq_of_mem_set hv with hv | rfl
        · exact h.positions v hv
        · exact h.positions w hmem
      · cases hp
        exact h.positions w hmem
      · refine h.phase.update rfl (.inr rfl) fun base watermark ho => ?_
        rw [pending, pending_note hw]
        exact ⟨ho.watermark_lt, ho.rebuilds⟩
  · cases hs

theorem Safe.apply (h : racing.Safe config bin s₀) {i : Nat}
    (hp : racing.Proper config (.apply i)) (hs : racing.apply i = some racing') :
    racing'.Safe config bin s₀ := by
  obtain ⟨rfl, hcomplete⟩ := hp
  unfold Racing.apply at hs
  split at hs
  · next w hw =>
    split at hs
    · next hready =>
      cases hs
      obtain ⟨rest, hrest⟩ : ∃ rest, racing.inFlight = w :: rest := by
        cases hl : racing.inFlight with
        | nil => rw [hl] at hw; cases hw
        | cons v rest => rw [hl] at hw; cases hw; exact ⟨rest, rfl⟩
      refine ⟨?_, fun v hv => h.positions v (List.mem_of_mem_eraseIdx hv), h.last, ?_⟩
      · rw [runAll_append, h.acknowledged, Option.bind_some, runAll, if_neg hready.2]
        rfl
      · refine h.phase.update rfl (.inl hcomplete) fun base watermark ho => ?_
        rw [pending, hrest] at ho
        rw [pending, hrest]
        exact ho.apply hready.2
    · cases hs
  · cases hs

theorem Safe.beginSave (h : racing.Safe config bin s₀) (hp : racing.Proper config .beginSave)
    (hs : racing.beginSave = some racing') : racing'.Safe config bin s₀ := by
  obtain ⟨hflight, hsaveable, hcovers⟩ := hp
  have hphase := h.phase
  unfold Racing.beginSave at hs
  split at hs
  · next hidle =>
    cases hs
    rw [hidle] at hphase
    obtain ⟨manifest, base, hload, ho⟩ := hphase
    refine ⟨h.acknowledged, h.positions, h.last, hsaveable, .begin bin _ _ _, ?_⟩
    rw [pending, hflight] at ho
    rw [pending, hflight]
    exact ho.begin h.last hcovers
  · cases hs

theorem Safe.saveNext (hb : bin.Lawful) (hsnap : config.enableSnapshot = true)
    (h : racing.Safe config bin s₀) (hs : racing.saveNext bin = some racing') :
    racing'.Safe config bin s₀ := by
  have hphase := h.phase
  unfold Racing.saveNext at hs
  split at hs
  · next watermark files step todo hsaving =>
    cases hs
    rw [hsaving] at hphase
    obtain ⟨hsaveable, hcompletes, ho⟩ := hphase
    exact ⟨h.acknowledged, h.positions, h.last, hsaveable, hcompletes.next,
      ho.watermark_lt, ho.rebuilds⟩
  · next watermark files hsaving =>
    cases hs
    rw [hsaving] at hphase
    obtain ⟨hsaveable, hcompletes, ho⟩ := hphase
    obtain ⟨dir₀, hdir⟩ := hcompletes.manifest
    -- from here on the base is what the new snapshot loads
    obtain ⟨t, ht, hsame⟩ := hsaveable.load hb watermark dir₀
    have ho' := ho.of_base hsame
    refine ⟨h.acknowledged, h.positions, h.last, some (manifestFor bin racing.server.dbs watermark),
      t, ?_, rfl, ho'.watermark_lt, ho'.rebuilds⟩
    rw [loadSnapshot, if_pos hsnap, hdir]
    exact ht
  · cases hs

theorem Safe.truncate (h : racing.Safe config bin s₀) (hs : racing.truncate = some racing') :
    racing'.Safe config bin s₀ := by
  have hphase := h.phase
  unfold Racing.truncate at hs
  split at hs
  · next watermark hsaved =>
    cases hs
    rw [hsaved] at hphase
    obtain ⟨manifest, base, hload, hw, ho⟩ := hphase
    cases watermark with
    | none =>
      refine ⟨h.acknowledged, h.positions, h.last, manifest, base, hload, ?_⟩
      rw [hw]
      exact ho
    | some p =>
      have hend : (racing.server.wal.truncateBefore p.segmentId).endPosition config.payloadLen
          = racing.server.wal.endPosition config.payloadLen :=
        Wal.endPosition_truncateBefore config.payloadLen p.segmentId
      refine ⟨h.acknowledged, fun w hw => ?_, fun q hq => ?_, manifest, base, hload, ?_⟩
      · exact hend ▸ h.positions w hw
      · exact hend ▸ h.last q hq
      · rw [hw]
        exact ho.truncate
  · cases hs

theorem Safe.step (hb : bin.Lawful) (hsnap : config.enableSnapshot = true)
    (h : racing.Safe config bin s₀) {action : Action} (hp : racing.Proper config action)
    (hs : racing.step config bin action = some racing') : racing'.Safe config bin s₀ := by
  cases action with
  | append cmd draw =>
    cases hs
    exact h.append hp
  | note i => exact h.note hs
  | apply i => exact h.apply hp hs
  | beginSave => exact h.beginSave hp hs
  | saveNext => exact h.saveNext hb hsnap hs
  | truncate => exact h.truncate hs

theorem Safe.recover (h : racing.Safe config bin s₀) (hc : racing.phase.Complete) {final : Dbs env}
    (hrun : runAll 0 racing.pending racing.server.dbs = some final) {draws : WalPosition → Draw}
    (hdraws : ∀ p, (draws p).Evictionless) :
    ∃ t, recoverPersistence config bin draws racing.server.files = .ok t ∧ final.Agree t := by
  have hloads : ∃ manifest base,
      loadSnapshot config bin racing.server.snapshots = (.ok manifest, base) ∧
        Owes config base (watermarkOf manifest) racing.server racing.pending := by
    have hphase := h.phase
    revert hphase hc
    cases racing.phase with
    | idle => exact fun _ hphase => hphase
    | saving watermark files todo => exact fun hc => hc.elim
    | saved watermark =>
      rintro - ⟨manifest, base, hload, hw, ho⟩
      exact ⟨manifest, base, hload, hw ▸ ho⟩
  obtain ⟨manifest, base, hload, ho⟩ := hloads
  obtain ⟨t, ht, hagree⟩ := (ho.rebuilds final hrun).replay hdraws
  refine ⟨t, ?_, hagree⟩
  unfold recoverPersistence
  rw [show racing.server.files.snapshots = racing.server.snapshots from rfl, hload]
  exact ht

/--
**A crash beside a snapshot loses and repeats nothing, without a race.** From any server that has
been used one command at a time, let commands and saves interleave by proper steps and crash outside
of a save. Recovery gives the store of the acknowledged commands, each once and in the order in
which they took effect, followed by those that were logged and not yet applied.
-/
theorem saves_beside_writes (hb : bin.Lawful) (hsnap : config.enableSnapshot = true)
    (path : String)
    (hserver : Reach (ServedStore.step config bin) (ServedStore.Proper config) (.start path) server)
    (hracing : Reach (Racing.step config bin) (Racing.Proper config) (start server) racing)
    (hc : racing.phase.Complete) {final : Dbs env}
    (hrun : runAll 0 racing.pending racing.server.dbs = some final) {draws : WalPosition → Draw}
    (hdraws : ∀ p, (draws p).Evictionless) :
    ∃ s t, runAll 0 (racing.acknowledged ++ racing.pending) server.dbs = some s ∧
      recoverPersistence config bin draws racing.server.files = .ok t ∧ s.Agree t := by
  have hkept : server.Kept config bin :=
    hserver.invariant (.start config bin path) fun _ _ _ hk hp hs => hk.step hb hp hs
  have hsafe : racing.Safe config bin server.dbs :=
    hracing.invariant (.start hkept) fun _ _ _ hk hp hs => hk.step hb hsnap hp hs
  obtain ⟨t, ht, hagree⟩ := hsafe.recover hc hrun hdraws
  refine ⟨final, t, ?_, ht, hagree⟩
  rw [runAll_append, hsafe.acknowledged, Option.bind_some]
  exact hrun

end Racing

end

namespace Sample

abbrev Raced := Racing Store.Sample.env (List (Key × CacheEntry))

def append (cmd : WriteCommand) : Racing.Action := .append cmd (Store.Sample.draw 0)

/-- `SAVE`, with `between` after the watermark is read and `n` steps of `save_verified`. -/
def save (between : List Racing.Action) (n : Nat) : List Racing.Action :=
  .beginSave :: between ++ List.replicate n .saveNext ++ [.truncate]

/-- A command without an interruption. -/
def whole (cmd : WriteCommand) : List Racing.Action := [append cmd, .note 0, .apply 0]

def increment : WriteCommand := .key (.incr "a")

def assign (value : UInt8) : WriteCommand := .key (.set "a" [value] none none)

/-- Perform steps on a new server. -/
def raced (actions : List Racing.Action) : Option Raced :=
  run (Racing.step config Store.Sample.bincode) (fun _ _ => true)
    (.start (.start "snapshots")) actions

/-- How many commands are in flight, and the number under `a` before a crash and recovered. -/
def crash (racing : Raced) : Nat × Option Int × Option (Option Int) :=
  (racing.inFlight.length, counter "a" racing.server.dbs,
    (recoverPersistence config Store.Sample.bincode (fun _ => Store.Sample.draw 0)
      racing.server.files).toOption.map (counter "a"))

/-- `SAVE` has begun after `SET a 1`, and `SET b 1` has been logged since. -/
def saving : Raced where
  server := { afterSet with
    wal := (afterSet.wal.handleAppend config.payloadLen config.maxSegmentSize
      (walPayload 0 (set "b"))).2 }
  inFlight := [⟨set "b", Store.Sample.draw 0, (afterSet.wal.handleAppend config.payloadLen
    config.maxSegmentSize (walPayload 0 (set "b"))).1, false⟩]
  acknowledged := []
  phase := .saving afterSet.lastWalPosition []
    (.removeManifest :: (List.finRange numDatabases).map .database)

theorem reach_saving : Reach (Racing.step config bincode) (Racing.Proper config)
    (.start afterSet) saving := by
  have hcovers : uncovered afterSet.lastWalPosition (afterSet.wal.records config.payloadLen)
      = [] := rfl
  refine (Reach.init.step (a := .beginSave) ⟨rfl, afterSet_saveable, hcovers⟩ rfl).step
    (a := append (set "b")) ?_ rfl
  exact ⟨rfl, ⟨rfl, rfl, rfl⟩, draw_evictionless 0⟩

/-- The steps that are proper in every state. -/
def harmless : Raced → Racing.Action → Bool
  | _, .saveNext | _, .truncate => true
  | _, _ => false

theorem proper_of_harmless (racing : Raced) (action : Racing.Action)
    (h : harmless racing action = true) : racing.Proper config action := by
  cases action with
  | saveNext => trivial
  | truncate => trivial
  | _ => cases h

end Sample

/-- `SET a 1`, then `SAVE` beside a `SET b 1` that is logged and not applied. -/
theorem saves_beside_writes_set :
    ∃ racing : Raced, racing.inFlight.length = 1 ∧
      ∃ s t, runAll 0 (racing.acknowledged ++ racing.pending) afterSet.dbs = some s ∧
        recoverPersistence Sample.config bincode (fun _ => Store.Sample.draw 0)
          racing.server.files = .ok t ∧ s.Agree t := by
  have hserver : Reach (ServedStore.step Sample.config bincode)
      (ServedStore.Proper Sample.config) (.start "snapshots") afterSet :=
    Reach.init.step (set_proper _ "a") step_set
  have hrun : (run (Racing.step Sample.config bincode) harmless Sample.saving
      (List.replicate 19 .saveNext ++ [.truncate])).map (fun racing =>
        (racing.inFlight.length, (racing.phase matches .idle),
          (runAll 0 racing.pending racing.server.dbs).isSome)) = some (1, true, true) := by
    decide +kernel
  obtain ⟨racing, hreach, hend⟩ := exists_reach_of_run hrun
  obtain ⟨hlength, hidle, hfinal⟩ : racing.inFlight.length = 1 ∧
      (racing.phase matches .idle) = true ∧
      (runAll 0 racing.pending racing.server.dbs).isSome = true := by
    simpa only [Prod.mk.injEq] using hend
  obtain ⟨final, hfinal⟩ := Option.isSome_iff_exists.mp hfinal
  have hcomplete : racing.phase.Complete := by
    cases hphase : racing.phase with
    | saving watermark files todo => rw [hphase] at hidle; cases hidle
    | _ => trivial
  exact ⟨racing, hlength, Racing.saves_beside_writes bincode_lawful rfl "snapshots"
    hserver (reach_saving.trans (hreach.mono proper_of_harmless)) hcomplete hfinal
    fun _ => draw_evictionless 0⟩

/--
**Three races.** `INCR a` is logged, the snapshot reads its position as the watermark and saves the
shard before it is applied: the acknowledged increment is lost. `INCR a` is logged and applied after
the watermark is read and before the shard is saved: it counts twice. `SET a 1` and `SET a 2` are
logged in this order and applied in the other: the recovered value is not the last one.
-/
theorem save_races :
    (raced ([Sample.append increment, .note 0] ++ save [] 18
        ++ [.apply 0])).map crash = some (0, some 1, some none) ∧
      (raced (whole (assign 0x31)
        ++ save (whole increment) 19)).map crash
          = some (0, some 2, some (some 3)) ∧
      (raced (save [] 18 ++ [Sample.append (assign 0x31),
        Sample.append (assign 0x32), .note 0, .note 1, .apply 1, .apply 0])).map crash
          = some (0, some 1, some (some 2)) := by
  decide +kernel

end Calod.Server
