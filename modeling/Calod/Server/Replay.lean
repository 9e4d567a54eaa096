import Calod.Server.Dispatch

/-!
# Replaying the log

`wal_append_if_mutating`, `replay_wal` and `apply_replay_command` of `served_store.rs`. A record
holds the frame of one command; on a database other than 0 a `SELECT` frame comes first. The replay
keeps the selected database from record to record.

A payload is the list of its frames, and a frame stands for the command it was made from: a
precondition of all results here is that `Command::try_from` reads back what `command_to_resp_frame`
wrote. It does unless a key or text passes 512 MiB after `from_utf8_lossy`.

* `replayed_db_iff` — into which database a command is replayed
* `replay_rebuilds` — when the replay rebuilds the store
-/

namespace Calod.Server

open Lib Store Store.Handler Calod.Core Calod.Storage Server.Sample

variable {draws : WalPosition → Draw} {db current : Fin numDatabases} {cmd : WriteCommand}
  {records : List (WalRecord Payload)} {cmds : List (WriteCommand × Draw)}

variable {env : Env} {σ : Type}

/-! ## Logging -/

inductive Frame where
  | select (db : Nat)
  | command (cmd : WriteCommand)

abbrev Payload := List Frame

/-- The payload of `wal_append_if_mutating`. -/
def walPayload (db : Fin numDatabases) (cmd : WriteCommand) : Payload :=
  if db = 0 then [.command cmd] else [.select db, .command cmd]

/-- The log after a sequence of commands that are logged. -/
def appendAll (payloadLen : Payload → Nat) (maxSegmentSize : Nat) (wal : Wal Payload)
    (cmds : List (Fin numDatabases × WriteCommand)) : Wal Payload :=
  cmds.foldl (fun wal x => (wal.handleAppend payloadLen maxSegmentSize (walPayload x.1 x.2)).2) wal

/-- The records hold the payloads of these commands. -/
def Holds (records : List (WalRecord Payload)) (cmds : List (Fin numDatabases × WriteCommand)) :
    Prop :=
  records.map WalRecord.payload = cmds.map fun x => walPayload x.1 x.2

theorem holds_appendAll (payloadLen : Payload → Nat) (maxSegmentSize : Nat)
    (cmds : List (Fin numDatabases × WriteCommand)) :
    ∀ {wal} {before},
      Holds (wal.records payloadLen) before →
        Holds ((appendAll payloadLen maxSegmentSize wal cmds).records payloadLen)
          (before ++ cmds) := by
  induction cmds with
  | nil =>
    intro wal before h
    rw [List.append_nil]
    exact h
  | cons x rest ih =>
    intro wal before h
    rw [appendAll, List.foldl_cons, List.append_cons]
    refine ih ?_
    unfold Holds at h ⊢
    rw [Wal.records_handleAppend, List.map_append, List.map_append, h]
    rfl

/-! ## Replay -/

/-- How the start of the server ends if it does not succeed. -/
inductive Interrupt where
  | persistence (error : PersistenceError)
  | panicked
  deriving DecidableEq, Repr

/-- Did the handler panic? -/
def panics {α : Type} : Except Failure α → Bool
  | .error .panicked => true
  | _ => false

/-- One round of the inner loop of `replay_wal`; a command that fails is skipped. -/
def replayFrame (apply : Fin numDatabases → WriteCommand → Prog Draw σ Failure Unit) (draw : Draw)
    (st : Fin numDatabases × σ) : Frame → Except Interrupt (Fin numDatabases × σ)
  | .select db =>
    if h : db < numDatabases then .ok (⟨db, h⟩, st.2)
    else .error (.persistence (.corruption ("WAL frame selects database " ++ toString db
      ++ " but only " ++ toString numDatabases ++ " databases exist")))
  | .command cmd =>
    if panics (apply st.1 cmd draw st.2).1 then .error .panicked
    else .ok (st.1, (apply st.1 cmd draw st.2).2)

def replayRecord (apply : Fin numDatabases → WriteCommand → Prog Draw σ Failure Unit)
    (draws : WalPosition → Draw) (st : Fin numDatabases × σ) (record : WalRecord Payload) :
    Except Interrupt (Fin numDatabases × σ) :=
  record.payload.foldlM (replayFrame apply (draws record.position)) st

/-- Is the record covered by the snapshot? -/
def covered (watermark : Option WalPosition) (record : WalRecord Payload) : Bool :=
  watermark.any fun wm => record.position ≤ wm

def uncovered (watermark : Option WalPosition) (records : List (WalRecord Payload)) :
    List (WalRecord Payload) :=
  records.filter fun record => !covered watermark record

/-- `replay_wal`. -/
def replayWal (apply : Fin numDatabases → WriteCommand → Prog Draw σ Failure Unit)
    (draws : WalPosition → Draw) (watermark : Option WalPosition)
    (records : List (WalRecord Payload)) (s : σ) : Except Interrupt σ :=
  ((uncovered watermark records).foldlM (replayRecord apply draws) (0, s)).map Prod.snd

/-- The database that a command of `db` is replayed into, if `current` is selected. -/
def target (current db : Fin numDatabases) : Fin numDatabases := if db = 0 then current else db

/-- A record applies its command, and leaves its database selected. -/
theorem replayRecord_payload {apply : Fin numDatabases → WriteCommand → Prog Draw σ Failure Unit}
    {record : WalRecord Payload} (h : record.payload = walPayload db cmd)
    (current : Fin numDatabases) (s : σ) :
    replayRecord apply draws (current, s) record =
      replayFrame apply (draws record.position) (target current db, s) (.command cmd) := by
  rw [replayRecord, h, walPayload, target]
  split
  · rw [List.foldlM_cons]
    exact bind_pure (m := Except Interrupt) _
  · rw [List.foldlM_cons, replayFrame, dif_pos db.isLt]
    exact bind_pure (m := Except Interrupt) _

/-! ## Databases -/

/-- Instead of applying a command, write down how `apply_replay_command` is called. -/
def noteCall (db : Fin numDatabases) (cmd : WriteCommand) :
    Prog Draw (List (Fin numDatabases × WriteCommand)) Failure Unit :=
  fun _ calls => (.ok (), calls ++ [(db, cmd)])

/-- The database that is selected after the records of these commands. -/
def selectedAfter (current : Fin numDatabases) (cmds : List (Fin numDatabases × WriteCommand)) :
    Fin numDatabases :=
  cmds.foldl (fun current x => target current x.1) current

/-- The calls for a sequence of logged commands. -/
def routed : Fin numDatabases → List (Fin numDatabases × WriteCommand) →
    List (Fin numDatabases × WriteCommand)
  | _, [] => []
  | current, (db, cmd) :: rest => (target current db, cmd) :: routed (target current db) rest

theorem foldlM_noteCall (draws : WalPosition → Draw) :
    ∀ {cmds} current
      calls, Holds records cmds →
      records.foldlM (replayRecord noteCall draws) (current, calls)
        = .ok (selectedAfter current cmds, calls ++ routed current cmds) := by
  induction records with
  | nil =>
    intro cmds current calls h
    obtain rfl : cmds = [] := List.map_eq_nil_iff.mp h.symm
    rw [routed, List.append_nil]
    rfl
  | cons record records ih =>
    intro cmds current calls h
    cases cmds with
    | nil => cases h
    | cons x rest =>
      obtain ⟨hhead, htail⟩ := List.cons.inj h
      rw [List.foldlM_cons, replayRecord_payload hhead, routed, List.append_cons]
      exact ih (target current x.1) (calls ++ [(target current x.1, x.2)]) htail

theorem length_routed (cmds : List (Fin numDatabases × WriteCommand)) :
    ∀ current, (routed current cmds).length = cmds.length := by
  induction cmds with
  | nil => exact fun _ => rfl
  | cons x rest ih =>
    intro current
    rw [routed, List.length_cons, List.length_cons, ih]

theorem routed_getElem? (cmds : List (Fin numDatabases × WriteCommand)) :
    ∀ current n, (routed current cmds)[n]? =
      cmds[n]?.map fun x => (target (selectedAfter current (cmds.take n)) x.1, x.2) := by
  induction cmds with
  | nil => exact fun current n => rfl
  | cons x rest ih =>
    intro current n
    cases n with
    | zero => rfl
    | succ n => exact ih (target current x.1) n

/-- Once another database is selected, database 0 is not selected again. -/
theorem selectedAfter_eq_zero (cmds : List (Fin numDatabases × WriteCommand)) :
    ∀ {current},
      selectedAfter current cmds = 0 ↔ current = 0 ∧ ∀ x ∈ cmds, x.1 = 0 := by
  induction cmds with
  | nil => exact fun {current} => ⟨fun h => ⟨h, fun x hx => by cases hx⟩, fun h => h.1⟩
  | cons x rest ih =>
    intro current
    rw [selectedAfter, List.foldl_cons, ← selectedAfter, ih, List.forall_mem_cons, ← and_assoc]
    refine and_congr_left fun _ => ?_
    unfold target
    by_cases hx : x.1 = 0
    · rw [if_pos hx]
      exact ⟨fun h => ⟨h, hx⟩, fun h => h.1⟩
    · rw [if_neg hx]
      exact ⟨fun h => absurd h hx, fun h => absurd h.2 hx⟩

/-- The log of a server that starts without files. -/
def newWal : Wal Payload := ⟨[], ⟨1, []⟩, List.pairwise_singleton _ _⟩

theorem holds_newWal (payloadLen : Payload → Nat) (maxSegmentSize : Nat)
    (cmds : List (Fin numDatabases × WriteCommand)) :
    Holds ((appendAll payloadLen maxSegmentSize newWal cmds).records payloadLen) cmds := by
  have h : Holds (newWal.records payloadLen) [] := rfl
  exact holds_appendAll payloadLen maxSegmentSize cmds h

theorem uncovered_none (records : List (WalRecord Payload)) : uncovered none records = records :=
  List.filter_eq_self.mpr fun _ _ => rfl

/--
**Which database a command is replayed into.** The `n`-th logged command gets back to its own
unless that is database 0 and an earlier command was logged on another one.
-/
theorem replayed_db_iff (payloadLen : Payload → Nat) (maxSegmentSize : Nat)
    (draws : WalPosition → Draw) (cmds : List (Fin numDatabases × WriteCommand)) :
    ∃ calls, replayWal noteCall draws none
        ((appendAll payloadLen maxSegmentSize newWal cmds).records payloadLen) [] = .ok calls ∧
      calls.length = cmds.length ∧
      ∀ n db cmd, cmds[n]? = some (db, cmd) → ∃ db', calls[n]? = some (db', cmd) ∧
        (db' = db ↔ db ≠ 0 ∨ ∀ x ∈ cmds.take n, x.1 = 0) := by
  have hholds := holds_newWal payloadLen maxSegmentSize cmds
  refine ⟨routed 0 cmds, ?_, ?_, ?_⟩
  · rw [replayWal, uncovered_none, foldlM_noteCall draws 0 [] hholds]
    rfl
  · exact length_routed cmds 0
  · intro n db cmd hn
    refine ⟨target (selectedAfter 0 (cmds.take n)) db, ?_, ?_⟩
    · rw [routed_getElem?, hn]
      rfl
    · unfold target
      by_cases hdb : db = 0
      · rw [if_pos hdb, hdb, selectedAfter_eq_zero]
        exact ⟨fun h => .inr h.2, fun h => ⟨rfl, h.resolve_left fun hne => hne rfl⟩⟩
      · rw [if_neg hdb]
        exact ⟨fun _ => .inl hdb, fun _ => rfl⟩

/-- `SET a 1` on database 1 and then `SET b 1` on database 0: both are replayed into database 1. -/
theorem zero_after_one_misrouted :
    replayWal noteCall (fun _ => Store.Sample.draw 0) none
        ((appendAll (fun _ => 30) 4096 newWal [(1, set "a"), (0, set "b")]).records
          fun _ => 30) []
      = .ok [(1, set "a"), (1, set "b")] := by
  rfl

/-! ## Effects -/

section

variable (db : Fin numDatabases)

/-- Run a handler for its effect. -/
def dropReply {α : Type} (m : Handler env α) : Handler env Unit := do
  let _ ← m

def unsupported : CacheError := .internalError "Command is not supported during WAL replay"

def invalidTarget : CacheError := .invalidCommandArguments "ERR MOVE target DB is invalid"

/-- `apply_replay_command`. -/
def applyReplayCommand : WriteCommand → Handler env Unit
  | .key (.move key target) =>
    dropReply (KeyCommand.moveTo db invalidTarget invalidTarget key target)
  | .key (.mSetNx keyValues) => dropReply (msetnxCmd db keyValues)
  | .key cmd => dropReply (cmd.run db)
  | .collection cmd => if cmd.shouldLogToWal then dropReply (cmd.run db) else throw unsupported
  | .stream cmd => if cmd.shouldLogToWal then dropReply (cmd.run db) else throw unsupported
  | .json cmd => dropReply (cmd.run db)

end

/-- Two handlers have the same effect, whatever they answer. -/
def SameEffect {α β : Type} (m : Handler env α) (m' : Handler env β) : Prop :=
  ∀ draw s, (m draw s).2 = (m' draw s).2 ∧ panics (m draw s).1 = panics (m' draw s).1

theorem sameEffect_dropReply {α : Type} (m : Handler env α) : SameEffect (dropReply m) m := by
  intro draw s
  rw [dropReply, Prog.bind_apply]
  rcases m draw s with ⟨e | a, t⟩
  · cases e <;> exact ⟨rfl, rfl⟩
  · exact ⟨rfl, rfl⟩

theorem SameEffect.trans {α β γ : Type} {m : Handler env α} {m' : Handler env β}
    {m'' : Handler env γ} (h : SameEffect m m') (h' : SameEffect m' m'') : SameEffect m m'' :=
  fun draw s => ⟨(h draw s).1.trans (h' draw s).1, (h draw s).2.trans (h' draw s).2⟩

/-- The errors of `MOVE` are the only difference. -/
theorem sameEffect_moveTo (db : Fin numDatabases) (same invalid same' invalid' : CacheError)
    (key : Key) (target : Nat) :
    SameEffect (KeyCommand.moveTo db same invalid key target : Handler env Reply)
      (KeyCommand.moveTo db same' invalid' key target) := by
  intro draw s
  unfold KeyCommand.moveTo
  split
  · exact ⟨rfl, rfl⟩
  · split
    · exact ⟨rfl, rfl⟩
    · exact ⟨rfl, rfl⟩

/-- Without arguments `MSETNX` changes nothing, refused or not. -/
theorem sameEffect_mSetNx (db : Fin numDatabases) (keyValues : List (Key × Bytes)) :
    SameEffect (msetnxCmd db keyValues : Handler env Reply)
      (KeyCommand.mSetNxChecked db keyValues) := by
  intro draw s
  unfold KeyCommand.mSetNxChecked
  split
  · next hnil =>
    subst hnil
    exact ⟨rfl, rfl⟩
  · exact ⟨rfl, rfl⟩

/-- **A logged command has the same effect in the replay as when it was issued.** -/
theorem sameEffect_applyReplayCommand (db : Fin numDatabases) (h : cmd.shouldLogToWal = true) :
    SameEffect (applyReplayCommand db cmd : Handler env Unit) (cmd.run db) := by
  cases cmd with
  | key cmd =>
    cases cmd with
    | move key target =>
      exact (sameEffect_dropReply _).trans (sameEffect_moveTo db _ _ _ _ key target)
    | mSetNx keyValues => exact (sameEffect_dropReply _).trans (sameEffect_mSetNx db keyValues)
    | _ => exact sameEffect_dropReply _
  | collection cmd | stream cmd =>
    have hlogged : cmd.shouldLogToWal = true := h
    rw [applyReplayCommand, if_pos hlogged]
    exact sameEffect_dropReply _
  | json cmd => exact sameEffect_dropReply _

/-- The effect of the command depends neither on the clock nor on an iteration order. -/
def WriteCommand.Steady (cmd : WriteCommand) : Prop :=
  cmd.footprint.clock = false ∧ cmd.footprint.order = false ∧ cmd.footprint.expiry = false

/--
Commands issued on a database, each at its own time and iteration order. `none` if one of them
panics, which stops the process.
-/
def runAll (db : Fin numDatabases) : List (WriteCommand × Draw) → Dbs env → Option (Dbs env)
  | [], s => some s
  | (cmd, draw) :: rest, s =>
    if panics (cmd.run db draw s).1 then none else runAll db rest (cmd.run db draw s).2

theorem runAll_append (db : Fin numDatabases) (cmds rest : List (WriteCommand × Draw)) :
    ∀ s : Dbs env, runAll db (cmds ++ rest) s = (runAll db cmds s).bind (runAll db rest) := by
  induction cmds with
  | nil => exact fun _ => rfl
  | cons x cmds ih =>
    intro s
    rw [List.cons_append, runAll, runAll]
    split
    · rfl
    · exact ih _

/-- The commands are logged and steady, and nothing is evicted while they run. -/
def Repeatable (cmds : List (WriteCommand × Draw)) : Prop :=
  ∀ x ∈ cmds, x.1.shouldLogToWal = true ∧ x.1.Steady ∧ x.2.Evictionless

/-- A steady command, issued in one store and replayed in one that agrees with it. -/
theorem replayFrame_agrees {draw draw' : Draw} {s t : Dbs env} (hlog : cmd.shouldLogToWal = true)
    (hcmd : cmd.Steady) (hd : draw.Evictionless) (hd' : draw'.Evictionless) (hagree : s.Agree t)
    (hrun : ¬ panics (cmd.run db draw s).1 = true) :
    ∃ u, replayFrame applyReplayCommand draw' (db, t) (.command cmd) = .ok (db, u) ∧
      (cmd.run db draw s).2.Agree u := by
  obtain ⟨hc, ho, hx⟩ := hcmd
  obtain ⟨hreply, hstate⟩ := (cmd.uses_run db).agree hc ho hx hd hd' hagree
  obtain ⟨heffect, hpanics⟩ := sameEffect_applyReplayCommand db hlog draw' t
  refine ⟨(cmd.run db draw' t).2, ?_, hstate⟩
  rw [replayFrame, if_neg (by rw [hpanics, ← hreply]; exact hrun), heffect]

theorem foldlM_agrees {db : Fin numDatabases} {draws : WalPosition → Draw}
    (hdraws : ∀ p, (draws p).Evictionless) {records : List (WalRecord Payload)} :
    ∀ {cmds} {current} {s t u : Dbs env},
      Holds records (cmds.map fun x => (db, x.1)) → Repeatable cmds →
      target current db = db → s.Agree t → runAll db cmds s = some u →
        ∃ v last, records.foldlM (replayRecord applyReplayCommand draws) (current, t)
          = .ok (last, v) ∧ u.Agree v := by
  induction records with
  | nil =>
    intro cmds current s t u hholds _ _ hagree hrun
    obtain rfl : cmds = [] := List.map_eq_nil_iff.mp (List.map_eq_nil_iff.mp hholds.symm)
    cases hrun
    exact ⟨t, current, rfl, hagree⟩
  | cons record records ih =>
    intro cmds current s t u hholds hrep hcur hagree hrun
    cases cmds with
    | nil => cases hholds
    | cons x rest =>
      obtain ⟨hhead, htail⟩ := List.cons.inj hholds
      obtain ⟨hlog, hcmd, hd⟩ := hrep x (List.mem_cons_self ..)
      rw [runAll] at hrun
      split at hrun
      · cases hrun
      · next hpanics =>
        obtain ⟨v, hframe, hv⟩ := replayFrame_agrees hlog hcmd hd (hdraws record.position) hagree
          hpanics
        have hrest : Repeatable rest := fun y hy => hrep y (List.mem_cons_of_mem _ hy)
        obtain ⟨w, last, hfold, hw⟩ := ih htail hrest (by unfold target; exact ite_self _) hv hrun
        refine ⟨w, last, ?_, hw⟩
        rw [List.foldlM_cons, replayRecord_payload hhead, hcur, hframe]
        exact hfold

theorem target_zero (db : Fin numDatabases) : target 0 db = db := by
  unfold target
  split
  · next h => exact h.symm
  · rfl

/-- Replaying what a snapshot does not cover, from a store that agrees with the one at the start. -/
theorem replayWal_agrees {watermark : Option WalPosition} {s t u : Dbs env}
    (hdraws : ∀ p, (draws p).Evictionless)
    (hholds : Holds (uncovered watermark records) (cmds.map fun x => (db, x.1)))
    (hcmds : Repeatable cmds) (hagree : s.Agree t) (hrun : runAll db cmds s = some u) :
    ∃ v, replayWal applyReplayCommand draws watermark records t = .ok v ∧ u.Agree v := by
  obtain ⟨v, last, hfold, hv⟩ :=
    foldlM_agrees hdraws hholds hcmds (target_zero db) hagree hrun
  refine ⟨v, ?_, hv⟩
  rw [replayWal, hfold]
  rfl

namespace Sample

def incremented : List (WriteCommand × Draw) :=
  [(set "a", Store.Sample.draw 0), (.key (.incr "a"), Store.Sample.draw 5)]

def expiring : List (WriteCommand × Draw) :=
  [(set "a", Store.Sample.draw 0), (.key (.expire "a" 100), Store.Sample.draw 0)]

/-- The expiry time of a key of database 0. -/
def expiresAtMs (key : Key) (s : Dbs Store.Sample.env) : Option Nat :=
  (s.entry (Store.Sample.env.addr 0 key) key).map CacheEntry.expiresAtMs

end Sample

/--
**Replay rebuilds the store**: whenever and in whatever order the steady commands of one database
were run, and whenever and in whatever order they are replayed, the same keys are there with the
same values.
-/
theorem replay_rebuilds (payloadLen : Payload → Nat) (maxSegmentSize : Nat) (db : Fin numDatabases)
    {cmds : List (WriteCommand × Draw)} {draws : WalPosition → Draw} {s : Dbs env}
    (hcmds : Repeatable cmds) (hdraws : ∀ p, (draws p).Evictionless)
    (hrun : runAll db cmds Dbs.fresh = some s) :
    ∃ t, replayWal applyReplayCommand draws none ((appendAll payloadLen maxSegmentSize newWal
        (cmds.map fun x => (db, x.1))).records payloadLen) Dbs.fresh = .ok t ∧ s.Agree t := by
  refine replayWal_agrees hdraws ?_ hcmds Dbs.Agree.fresh hrun
  rw [uncovered_none]
  exact holds_newWal payloadLen maxSegmentSize _

/-- `SET a 1` and `INCR a`, replayed a minute later. -/
theorem replay_rebuilds_incr :
    ∃ s t : Dbs Store.Sample.env, runAll 0 incremented Dbs.fresh = some s ∧
      replayWal applyReplayCommand (fun _ => Store.Sample.draw 60000) none
        ((appendAll (fun _ => 30) 4096 newWal
          (incremented.map fun x => (0, x.1))).records fun _ => 30) Dbs.fresh = .ok t ∧
      s.Agree t := by
  have hcmds : Repeatable incremented := by
    intro x hx
    rcases List.mem_pair.mp hx with rfl | rfl
    · exact ⟨rfl, ⟨rfl, rfl, rfl⟩, fun _ => rfl⟩
    · exact ⟨rfl, ⟨rfl, rfl, rfl⟩, fun _ => rfl⟩
  have hruns : (runAll 0 incremented (Dbs.fresh : Dbs Store.Sample.env)).isSome := by
    decide +kernel
  obtain ⟨s, hs⟩ := Option.isSome_iff_exists.mp hruns
  obtain ⟨t, ht⟩ := replay_rebuilds (fun _ => 30) 4096 0 hcmds
    (fun _ => Store.Sample.draw_evictionless 60000) hs
  exact ⟨s, t, hs, ht⟩

/-- `SET a 1` and `EXPIRE a 100` at the time 0, replayed a second later: `a` expires later. -/
theorem expire_not_replayed :
    (runAll 0 expiring Dbs.fresh).map (expiresAtMs "a") = some (some 100000) ∧
      (replayWal applyReplayCommand (fun _ => Store.Sample.draw 1000) none
        ((appendAll (fun _ => 30) 4096 newWal
          (expiring.map fun x => (0, x.1))).records fun _ => 30) Dbs.fresh).toOption.map
        (expiresAtMs "a") = some (some 101000) := by
  decide +kernel

end Calod.Server
