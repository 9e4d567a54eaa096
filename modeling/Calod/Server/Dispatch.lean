import Calod.Lib.Transition
import Calod.Server.Command
import Calod.Store.Snapshot

/-!
# All commands

The other arms of `execute_inner` of `served_store.rs`, as far as they touch the store. A command
that only reads may still remove the keys it looks at once they have expired; what it answers does
not matter here and is left out.

* `counters_exact` — when the counters of the shards are right, and what follows for eviction
-/

namespace Calod.Server

open Lib Store Store.Handler Calod.Storage Store.Sample

variable {env : Env} {F : Type}

/-! ## Commands -/

/-- The commands that read one key. -/
inductive KeyRead where
  | type | ttl | pttl | expireTime | pExpireTime
  | objectEncoding | objectRefCount | objectIdleTime | debugObject | memoryUsage
  | get | strLen | getRange | getBit | bitCount | bitPos
  | sMembers | sIsMember | sCard | sRandMember
  | hGet | hExists | hGetAll | hKeys | hLen | hMGet | hVals
  | lLen | lRange | lIndex
  | zScore | zMScore | zCard | zRank | zRevRank | zRange | zRevRange | zRangeByScore
  | zRevRangeByScore | zRangeByLex | zRevRangeByLex | zCount | zLexCount | zRandMember | zScan
  | geoPos | geoDist | geoHash | geoSearch
  | xLen | xRange | xRevRange | xPending | xInfoStream | xInfoGroups | xInfoConsumers
  | jsonGet | jsonType | jsonObjKeys | jsonObjLen | jsonArrIndex | jsonArrLen
  deriving DecidableEq, Repr

/-- Does the handler remove the key if it has expired? -/
def KeyRead.removesExpired : KeyRead → Bool
  | .type | .ttl | .pttl | .expireTime | .pExpireTime
  | .objectEncoding | .objectRefCount | .objectIdleTime | .debugObject | .memoryUsage
  | .get | .strLen | .getRange | .getBit | .bitCount | .bitPos
  | .sMembers | .sIsMember | .sCard
  | .jsonGet | .jsonType | .jsonObjKeys | .jsonObjLen | .jsonArrIndex | .jsonArrLen => true
  | _ => false

/-- The commands that leave every entry of the store alone. -/
inductive OtherCommand where
  | ping | quit | hello | echo | command | commandInfo | commandList | commandHelp | commandCount
  | commandDocs | auth | client | config | info | slowLog | latency | lolwut | acl | function
  | waitAof | failover | save | bgSave | lastSave | bgRewriteAof
  /-- `DEBUG`, but for `OBJECT` and `RELOAD`. -/
  | debug
  /-- `MEMORY`, but for `USAGE`. -/
  | memory
  | subscribe | unsubscribe | pSubscribe | pUnsubscribe | publish | pubSubChannels | pubSubNumSub
  | pubSubNumPat
  | multi | exec | discard | watch (keys : List Key) | unwatch | reset | select (db : Nat)
  | keys | randomKey | dbSize | scan | wait | xRead
  | unknown (text : String)
  deriving DecidableEq, Repr

inductive Command where
  | write (cmd : WriteCommand)
  | read (cmd : KeyRead) (key : Key)
  | exists (keys : List Key)
  | touch (keys : List Key)
  | mGet (keys : List Key)
  | pfCount (keys : List Key)
  | debugReload
  | other (cmd : OtherCommand)

variable {P : Access env → Prop} {s : Dbs env}

namespace Command

variable (db : Fin numDatabases)

/-- `fetch`, for its effect. -/
def purge (key : Key) : Handler env Unit := do
  let _ ← fetch (env.addr db key) key

/-- The effect of a command that reads `key`. -/
def look (cmd : KeyRead) (key : Key) : Handler env Unit :=
  if cmd.removesExpired then purge db key else pure ()

/-- The arms of `execute_inner`, without their answers; `DEBUG RELOAD` apart. -/
def handler : Command → Handler env Unit
  | .write cmd => do let _ ← cmd.run db
  | .read cmd key => look db cmd key
  | .exists keys | .touch keys | .mGet keys => Prog.each (purge db) keys
  | .pfCount keys => Prog.each (fun key => do let _ ← readHll db key) keys
  | .debugReload | .other _ => pure ()

def footprint : Command → Footprint
  | .write cmd => cmd.footprint
  | _ => { keys := [] }

/-- `DEBUG RELOAD`: save all databases and load them again. -/
def reload (bin : Bincode F) (dir : SnapshotDir F) (watermark : Option WalPosition) (s : Dbs env) :
    Dbs env :=
  (loadVerified bin (saveVerified bin s watermark dir) s).2

theorem uses_purge (hr : Reads P) (key : Key) : Uses P (purge db key) :=
  .bind (uses_fetch hr _ _) fun _ => .pure _

theorem uses_look (hr : Reads P) (cmd : KeyRead) (key : Key) : Uses P (look db cmd key) := by
  unfold look
  split
  · exact uses_purge db hr key
  · exact .pure _

theorem uses_handler (cmd : Command) :
    Uses (cmd.footprint.Allows db) (cmd.handler db : Handler env Unit) := by
  have hr : Reads (({ keys := [] } : Footprint).Allows db : Access env → Prop) :=
    Footprint.reads rfl
  cases cmd with
  | write cmd => exact .bind (cmd.uses_run db) fun _ => .pure _
  | read cmd key => exact uses_look db hr cmd key
  | «exists» keys => exact .each fun key _ => uses_purge db hr key
  | touch | mGet => exact .each fun key _ => uses_purge db hr key
  | pfCount keys => exact .each fun key _ => .bind (hr.queries.readHll db key) fun _ => .pure _
  | debugReload | other => exact .pure _

end Command

/-! ## Calls -/

/-- A command on its database, and what it meets when it runs. -/
structure Call (F : Type) where
  db : Fin numDatabases
  cmd : Command
  draw : Draw
  /-- The snapshot directory and the watermark, for `DEBUG RELOAD`. -/
  dir : SnapshotDir F
  watermark : Option WalPosition

/-- The store after the call, whether it succeeds or not. -/
def Call.effect (bin : Bincode F) (call : Call F) (s : Dbs env) : Dbs env :=
  match call.cmd with
  | .debugReload => Command.reload bin call.dir call.watermark s
  | cmd => (cmd.handler call.db call.draw s).2

theorem Call.effect_of_ne {bin : Bincode F} {call : Call F} (h : call.cmd ≠ .debugReload)
    (s : Dbs env) : call.effect bin s = (call.cmd.handler call.db call.draw s).2 := by
  unfold Call.effect
  split
  · next hc => exact absurd hc h
  · rfl

namespace Sample

/-- Run commands on database 0 at one moment, with the keys offered for eviction. -/
def after (candidates : List Key) (cmds : List WriteCommand) : Dbs Store.Sample.env :=
  cmds.foldl (fun s cmd => (cmd.run 0 ⟨0, id, .refl, fun _ => candidates⟩ s).2) Dbs.fresh

/-- A command on database 0, at the time 0 and with an empty snapshot directory. -/
def call (cmd : Command) : Call (List (Key × CacheEntry)) :=
  ⟨0, cmd, Store.Sample.draw 0, ⟨"snapshots", none, []⟩, none⟩

def set (key : Key) : WriteCommand := .key (.set key [0x31] none none)

def lPush (key : Key) : WriteCommand := .collection (.listLPush key [[0x61]])

def del (key : Key) : WriteCommand := .key (.del [key])

end Sample

/-! ## Counters -/

theorem counted_effect {bin : Bincode F} (hb : bin.Lawful) {call : Call F} (hs : s.Counted)
    (hp : Access.Present call.cmd.footprint call.db s) : (call.effect bin s).Counted := by
  by_cases hr : call.cmd = .debugReload
  · intro a
    unfold Call.effect
    rw [hr]
    have hload : s.Recounts (Command.reload bin call.dir call.watermark s) :=
      loadVerified_in_place hb call.watermark
    rcases hload a with ha | ha
    · dsimp only
      rw [ha]
      exact hs a
    · dsimp only
      rw [ha]
      rfl
  · rw [Call.effect_of_ne hr]
    exact (call.cmd.uses_handler call.db).counted hp hs

/-- The number of keys of a database. -/
def keyCount (s : Dbs env) (db : Fin numDatabases) : Nat :=
  ((List.finRange env.numShards).map fun shard => (s ⟨db, shard⟩).data.size).sum

theorem wrapI64_of_lt {n : Nat} (h : n < 2 ^ 63) : wrapI64 n = n :=
  Int.bmod_eq_of_le (by omega) (by omega)

theorem dbsize_of_counted (hs : s.Counted) {db : Fin numDatabases} (h : keyCount s db < 2 ^ 63) :
    s.dbsize db = keyCount s db := by
  have hfold : ∀ (l : List (Fin env.numShards)) n,
      n + (l.map fun shard => (s ⟨db, shard⟩).data.size).sum < 2 ^ 63 →
        l.foldl (fun total shard => wrapI64 (total + wrapI64 (s ⟨db, shard⟩).size.toNat)) (n : Int)
          = (n + (l.map fun shard => (s ⟨db, shard⟩).data.size).sum : Nat) := by
    intro l
    induction l with
    | nil => exact fun n _ => by simp
    | cons shard rest ih =>
      intro n hn
      rw [List.map_cons, List.sum_cons] at hn ⊢
      have hsize : (s ⟨db, shard⟩).size.toNat = (s ⟨db, shard⟩).data.size := by
        rw [hs ⟨db, shard⟩, UInt64.toNat_ofNat']
        exact Nat.mod_eq_of_lt (by omega)
      rw [List.foldl_cons, hsize, wrapI64_of_lt (by omega), ← Nat.cast_add,
        wrapI64_of_lt (by omega), ih _ (by omega), Nat.add_assoc]
  have := hfold (List.finRange env.numShards) 0 (by rwa [Nat.zero_add])
  rwa [Nat.zero_add] at this

/-- Below the capacity nothing is evicted. -/
theorem makeRoom_of_counted (hs : s.Counted) {a : Addr env}
    (h : (s a).data.size < env.shardCapacity.toNat) (draw : Draw) : s.makeRoom a draw = s := by
  refine if_neg fun hle => ?_
  rw [hs a, UInt64.le_iff_toNat_le, UInt64.toNat_ofNat'] at hle
  exact absurd h (Nat.not_lt.mpr (hle.trans (Nat.mod_le _ _)))

/-- **If the commands that can create a hash, list, set, sorted set, stream or document find their
key there, the counters stay exact.** -/
theorem counters_exact {bin : Bincode F} (hb : bin.Lawful) {s : Dbs env}
    (hr : Reach (fun s (call : Call F) => some (call.effect bin s))
      (fun s call => Access.Present call.cmd.footprint call.db s) Dbs.fresh s) :
    (∀ a, (s a).size = UInt64.ofNat (s a).data.size) ∧
      (∀ db, keyCount s db < 2 ^ 63 → s.dbsize db = keyCount s db) ∧
      ∀ a draw, (s a).data.size < env.shardCapacity.toNat → s.makeRoom a draw = s := by
  have hs : s.Counted := by
    refine hr.invariant (fun _ => Shard.counted_empty) fun s call s' hs hp hstep => ?_
    rw [← Option.some.inj hstep]
    exact counted_effect hb hs hp
  exact ⟨hs, fun db => dbsize_of_counted hs, fun a draw h => makeRoom_of_counted hs h draw⟩

/-- The store after `SET a`, `SET b`, `DEL a` and `GET b`. -/
def Sample.oneLeft : Dbs Store.Sample.env :=
  [.write (Sample.set "a"), .write (Sample.set "b"), .write (Sample.del "a"), .read .get "b"].foldl
    (fun s cmd => (Sample.call cmd).effect bincode s) Dbs.fresh

theorem counters_exact_oneLeft :
    keyCount Sample.oneLeft 0 = 1 ∧ Sample.oneLeft.dbsize 0 = keyCount Sample.oneLeft 0 := by
  have hcount : keyCount Sample.oneLeft 0 = 1 := by decide +kernel
  have hserve {s : Dbs Store.Sample.env} (cmd) (hnil : cmd.footprint.creates = [])
      (hr : Reach (fun s (call : Call _) => some (call.effect bincode s))
        (fun s call => Access.Present call.cmd.footprint call.db s) Dbs.fresh s) :
      Reach _ _ Dbs.fresh ((Sample.call cmd).effect bincode s) :=
    hr.step (Access.present_of_nil hnil _) rfl
  have hread : Reach _ _ Dbs.fresh Sample.oneLeft := hserve (.read .get "b") rfl
    (hserve (.write (Sample.del "a")) rfl (hserve (.write (Sample.set "b")) rfl
      (hserve (.write (Sample.set "a")) rfl .init)))
  refine ⟨hcount, (counters_exact bincode_lawful hread).2.1 0 ?_⟩
  rw [hcount]
  decide

/-- Deleting a list takes away more than creating it has added: the counter wraps below zero, and a
`SET` evicts the only other key of a shard with room for a thousand. -/
theorem counter_wraps :
    let cmds := [Sample.set "a", Sample.lPush "q", Sample.del "q", Sample.lPush "q", Sample.del "q"]
    let shard := Sample.after ["a"] cmds (Store.Sample.env.addr 0 "a")
    shard.size = 0xffffffffffffffff ∧ shard.data.size = 1 ∧
      Store.Sample.env.shardCapacity = 1000 ∧
      ((Sample.after ["a"] cmds).entry (Store.Sample.env.addr 0 "a") "a").isSome = true ∧
      ((Sample.after ["a"] (cmds ++ [Sample.set "b"])).entry
        (Store.Sample.env.addr 0 "a") "a").isSome = false := by
  decide +kernel

end Calod.Server
