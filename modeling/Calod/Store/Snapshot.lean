import Calod.Storage.Wal
import Calod.Store.Collections
import Calod.Store.Strings

/-!
# Snapshots of the store

`calod-storage/src/snapshot.rs` and `persistence.rs`. A snapshot is a directory with one directory
for each database that counts as non-empty, which holds one file for each shard, and a manifest that
is written last. A save is a sequence of file operations, so that it can stop after any of them.

* `loadVerified_saved` — what a complete save leaves loads back, if it can be decoded
* `manifest_take` — a save that stops half-way leaves no manifest
-/

namespace Calod.Store

open Lib Calod.Core Calod.Storage Store.Sample Dbs Prog
open Std (ExtTreeMap)

variable {env : Env} {F : Type}

/-! ## Directory -/

/-- `bincode` on the entries of a shard; `F` is the type of encoded files. -/
structure Bincode (F : Type) where
  serialize : List (Key × CacheEntry) → F
  deserialize : F → Except String (List (Key × CacheEntry))
  len : F → Nat
  crc32c : F → UInt32

/-- A document is encoded by a type that only a self-describing format can decode. -/
def DataType.selfContained : DataType → Bool
  | .document _ => false
  | _ => true

/-- What is assumed of `bincode`. -/
structure Bincode.Lawful (bin : Bincode F) : Prop where
  roundTrip : ∀ data, (∀ kv ∈ data, kv.2.value.selfContained = true) →
    bin.deserialize (bin.serialize data) = .ok data
  selfDescribing : ∀ data, (∃ kv ∈ data, kv.2.value.selfContained = false) →
    ∃ message, bin.deserialize (bin.serialize data) = .error message

/-- `db_{db}/shard_{shard}.bin`. -/
structure ShardPath where
  db : Nat
  shard : Nat
  deriving DecidableEq, Repr

structure SnapshotFileEntry where
  /-- `none` if the text is not of the form of a `ShardPath`. -/
  path : Option ShardPath
  len : Nat
  crc32c : UInt32
  deriving DecidableEq, Repr

structure SnapshotManifest where
  version : Nat
  shardCount : Nat
  walWatermark : Option WalPosition
  files : List SnapshotFileEntry
  deriving DecidableEq, Repr

/-- `SNAPSHOT_FORMAT_VERSION`. -/
def snapshotFormatVersion : Nat := 1

/-- What looks like snapshot data at the top of the directory. -/
inductive TopEntry (F : Type) where
  /-- The directory `db_{index}` with its shard files. -/
  | db (index : Nat) (files : Nat → Option F)
  /-- A file `shard_*.bin` of a snapshot without manifest. -/
  | legacy (name : String)

structure SnapshotDir (F : Type) where
  path : String
  /-- The inner `none` is a file that does not parse. -/
  manifest : Option (Option SnapshotManifest)
  entries : List (TopEntry F)

namespace SnapshotDir

def fileIn (path : ShardPath) : TopEntry F → Option F
  | .db index files => if index = path.db then files path.shard else none
  | .legacy _ => none

/-- `fs::read`. -/
def read (dir : SnapshotDir F) (path : ShardPath) : Option F := dir.entries.findSome? (fileIn path)

end SnapshotDir

open SnapshotDir

def ShardPath.display (path : ShardPath) : String :=
  "db_" ++ toString path.db ++ "/shard_" ++ toString path.shard ++ ".bin"

/-! ## Saving -/

/-- `dbsize_cmd`; the sum wraps. -/
def Dbs.dbsize (s : Dbs env) (db : Fin numDatabases) : Int :=
  (List.finRange env.numShards).foldl
    (fun total shard => wrapI64 (total + wrapI64 (s ⟨db, shard⟩).size.toNat)) 0

/-- The databases for which `store_is_empty` says no. -/
def Dbs.saved (s : Dbs env) : List (Fin numDatabases) :=
  (List.finRange numDatabases).filter fun db => s.dbsize db ≠ 0

inductive FileOp (F : Type) where
  | removeManifest
  /-- The next entry of the directory listing. -/
  | removeEntry
  | createDbDir (db : Nat)
  | writeShard (path : ShardPath) (data : F)
  | writeManifest (manifest : SnapshotManifest)

namespace TopEntry

def write (path : ShardPath) (data : F) : TopEntry F → TopEntry F
  | .db index files =>
    .db index fun shard => if index = path.db ∧ shard = path.shard then some data else files shard
  | .legacy name => .legacy name

end TopEntry

def FileOp.apply (dir : SnapshotDir F) : FileOp F → SnapshotDir F
  | .removeManifest => { dir with manifest := none }
  | .removeEntry => { dir with entries := dir.entries.tail }
  | .createDbDir db => { dir with entries := dir.entries ++ [.db db fun _ => none] }
  | .writeShard path data => { dir with entries := dir.entries.map (.write path data) }
  | .writeManifest manifest => { dir with manifest := some (some manifest) }

section

variable (bin : Bincode F) (s : Dbs env)

/-- `CalodShard::save`. -/
def shardFile (a : Addr env) : F := bin.serialize (s a).data.toList

def shardPath (a : Addr env) : ShardPath := ⟨a.db, a.shard⟩

def fileEntry (a : Addr env) : SnapshotFileEntry where
  path := some (shardPath a)
  len := bin.len (shardFile bin s a)
  crc32c := bin.crc32c (shardFile bin s a)

def manifestFor (watermark : Option WalPosition) : SnapshotManifest where
  version := snapshotFormatVersion
  shardCount := env.numShards
  walWatermark := watermark
  files := s.saved.flatMap fun db =>
    (List.finRange env.numShards).map fun shard => fileEntry bin s ⟨db, shard⟩

/-- `CachePersistence::save`. -/
def saveDbOps (db : Fin numDatabases) : List (FileOp F) :=
  .createDbDir db :: (List.finRange env.numShards).map fun shard =>
    .writeShard (shardPath ⟨db, shard⟩) (shardFile bin s ⟨db, shard⟩)

/-- `save_verified` up to the manifest. -/
def saveDataOps (dir : SnapshotDir F) : List (FileOp F) :=
  .removeManifest :: (dir.entries.map fun _ => .removeEntry) ++ s.saved.flatMap (saveDbOps bin s)

/-- `save_verified`. -/
def saveOps (watermark : Option WalPosition) (dir : SnapshotDir F) : List (FileOp F) :=
  saveDataOps bin s dir ++ [.writeManifest (manifestFor bin s watermark)]

def saveVerified (watermark : Option WalPosition) (dir : SnapshotDir F) : SnapshotDir F :=
  (saveOps bin s watermark dir).foldl FileOp.apply dir

end

/-! ## Loading -/

/-- Programs that read a snapshot directory and change the store. -/
abbrev Loader (env : Env) (F : Type) := Prog (SnapshotDir F) (Dbs env) PersistenceError

/-- The loop of `CalodShard::load`. -/
def Shard.ofEntries (data : List (Key × CacheEntry)) : Shard :=
  data.foldl (fun shard kv => ⟨shard.data.insert kv.1 kv.2, shard.size + 1⟩) .empty

/-- `CalodShard::load`. -/
def loadShard (bin : Bincode F) (a : Addr env) : Loader env F Unit := fun dir s =>
  match dir.read (shardPath a) with
  | none => (.error (.io "No such file or directory (os error 2)"), s)
  | some encoded =>
    match bin.deserialize encoded with
    | .error message => (.error (.serialization message), s)
    | .ok data => (.ok (), s.update a fun _ => .ofEntries data)

/-- `CachePersistence::load`. -/
def loadDb (bin : Bincode F) (db : Fin numDatabases) : Loader env F Unit :=
  Prog.each (fun shard => loadShard bin ⟨db, shard⟩) (List.finRange env.numShards)

/-- Check a listed file and say which database it belongs to. -/
def verifyFile (bin : Bincode F) (dir : SnapshotDir F) (entry : SnapshotFileEntry) :
    Except PersistenceError Nat :=
  match entry.path with
  | none => .error (.corruption "snapshot manifest lists file outside a db_N directory")
  | some path =>
    match dir.read path with
    | none =>
      .error (.corruption ("snapshot file " ++ path.display
        ++ " listed in manifest is unreadable: No such file or directory (os error 2)"))
    | some data =>
      if bin.len data = entry.len ∧ bin.crc32c data = entry.crc32c then .ok path.db
      else .error (.corruption ("snapshot file " ++ path.display
        ++ " failed checksum verification"))

/-- `by_db`, with the number of files in place of the files. -/
def countByDb (dbs : List Nat) : Map Nat Nat :=
  dbs.foldl (fun counts db => counts.insert db (counts[db]?.getD 0 + 1)) ∅

/-- Check a database of the manifest, given how many files are listed for it. -/
def verifyDb (shardCount : Nat) (entry : Nat × Nat) : Except PersistenceError (Fin numDatabases) :=
  if h : entry.1 < numDatabases then
    if entry.2 = shardCount then .ok ⟨entry.1, h⟩
    else .error (.corruption ("snapshot database " ++ toString entry.1 ++ " lists "
      ++ toString entry.2 ++ " shard files, expected " ++ toString shardCount))
  else .error (.corruption ("snapshot manifest covers database " ++ toString entry.1
    ++ " but only " ++ toString numDatabases ++ " databases exist"))

/-- The part of `load_verified` that only reads: the manifest and its databases. -/
def verify (bin : Bincode F) (dir : SnapshotDir F) :
    Except PersistenceError (Option (SnapshotManifest × List (Fin numDatabases))) :=
  match dir.manifest with
  | none =>
    match dir.entries with
    | [] => .ok none
    | _ :: _ => .error (.corruption ("snapshot files exist in " ++ dir.path ++ " but manifest.json"
        ++ " is missing; refusing to apply an unverifiable snapshot"))
  | some none => .error (.corruption ("invalid snapshot manifest " ++ dir.path ++ "/manifest.json"))
  | some (some manifest) => do
    if manifest.version = snapshotFormatVersion then
      let dbs ← manifest.files.mapM (verifyFile bin dir)
      let loaded ← (countByDb dbs).toList.mapM (verifyDb manifest.shardCount)
      return some (manifest, loaded)
    else
      throw (.corruption ("unsupported snapshot format version " ++ toString manifest.version
        ++ " (expected " ++ toString snapshotFormatVersion ++ ")"))

/-- `load_verified`. -/
def loadVerified (bin : Bincode F) : Loader env F (Option SnapshotManifest) := fun dir s =>
  match verify bin dir with
  | .error e => (.error e, s)
  | .ok none => (.ok none, s)
  | .ok (some (manifest, dbs)) =>
    (Prog.each (loadDb bin) dbs >>= fun _ => pure (some manifest)) dir s

/-! ## What a complete save leaves -/

section

variable (bin : Bincode F) (s : Dbs env)

/-- The directory of a database is there. -/
def SnapshotDir.Has (dir : SnapshotDir F) (db : Nat) : Prop := ∃ files, .db db files ∈ dir.entries

/-- The file of the shard at `a` is there and has the entries of the shard. -/
def SnapshotDir.Holds (dir : SnapshotDir F) (a : Addr env) : Prop :=
  dir.read (shardPath a) = some (shardFile bin s a)

/-- The operations that `CachePersistence::save` performs. -/
inductive FileOp.Saves : FileOp F → Prop where
  | createDbDir (db : Nat) : Saves (.createDbDir db)
  | writeShard (a : Addr env) : Saves (.writeShard (shardPath a) (shardFile bin s a))

end

section

variable {bin : Bincode F} {s : Dbs env} {dir : SnapshotDir F} {a : Addr env} {db : Nat}

theorem shardPath_inj {b : Addr env} (h : shardPath a = shardPath b) : a = b := by
  obtain ⟨⟨da, _⟩, ⟨ia, _⟩⟩ := a
  obtain ⟨⟨db, _⟩, ⟨ib, _⟩⟩ := b
  cases h
  rfl

theorem TopEntry.fileIn_write_ne {p q : ShardPath} (h : q ≠ p) (data : F) (e : TopEntry F) :
    fileIn q (e.write p data) = fileIn q e := by
  cases e with
  | legacy name => rfl
  | db index files =>
    simp only [TopEntry.write, fileIn]
    split
    · next hi =>
      refine if_neg fun hp => h ?_
      cases p
      cases q
      simp_all
    · rfl

/-- What is found at the path just written is what was written. -/
theorem TopEntry.fileIn_write_self {p : ShardPath} {data d : F} {e : TopEntry F}
    (h : fileIn p (e.write p data) = some d) : d = data := by
  cases e with
  | legacy name => cases h
  | db index files =>
    simp only [TopEntry.write, fileIn] at h
    split at h
    · next hi =>
      rw [if_pos ⟨hi, trivial⟩] at h
      exact (Option.some.inj h).symm
    · cases h

namespace SnapshotDir

theorem read_writeShard_ne {p q : ShardPath} (h : q ≠ p) (data : F) :
    (FileOp.apply dir (.writeShard p data)).read q = dir.read q := by
  show (dir.entries.map (TopEntry.write p data)).findSome? (fileIn q) = _
  rw [List.findSome?_map]
  exact congrArg (dir.entries.findSome? ·) (funext (TopEntry.fileIn_write_ne h data))

theorem read_writeShard_self {p : ShardPath} (h : dir.Has p.db) (data : F) :
    (FileOp.apply dir (.writeShard p data)).read p = some data := by
  obtain ⟨files, hf⟩ := h
  show (dir.entries.map (TopEntry.write p data)).findSome? (fileIn p) = _
  cases hd : (dir.entries.map (TopEntry.write p data)).findSome? (fileIn p) with
  | none =>
    have hnone := List.findSome?_eq_none_iff.mp hd _ (List.mem_map_of_mem hf)
    simp [TopEntry.write, fileIn] at hnone
  | some d =>
    obtain ⟨e, he, hfile⟩ := List.exists_of_findSome?_eq_some hd
    obtain ⟨e, -, rfl⟩ := List.mem_map.mp he
    rw [TopEntry.fileIn_write_self hfile]

theorem read_createDbDir (db : Nat) (p : ShardPath) :
    (FileOp.apply dir (.createDbDir db)).read p = dir.read p := by
  show (dir.entries ++ [_]).findSome? (fileIn p) = _
  rw [List.findSome?_append]
  simp [fileIn, read]

end SnapshotDir

namespace FileOp.Saves

variable {op : FileOp F}

theorem has (h : op.Saves bin s) (hd : dir.Has db) : (op.apply dir).Has db := by
  obtain ⟨files, hf⟩ := hd
  cases h with
  | createDbDir d => exact ⟨files, List.mem_append_left _ hf⟩
  | writeShard b => exact ⟨_, List.mem_map_of_mem hf⟩

/-- Writing a file again changes nothing. -/
theorem holds (h : op.Saves bin s) (hd : dir.Has a.db) (ha : dir.Holds bin s a) :
    (op.apply dir).Holds bin s a := by
  cases h with
  | createDbDir d => exact (read_createDbDir d _).trans ha
  | writeShard b =>
    by_cases hb : shardPath a = shardPath b
    · obtain rfl := shardPath_inj hb
      exact read_writeShard_self hd _
    · exact (read_writeShard_ne hb _).trans ha

end FileOp.Saves

/-! The same for a list of operations. -/

theorem has_foldl {ops : List (FileOp F)} (h : ∀ op ∈ ops, op.Saves bin s) (hd : dir.Has db) :
    (ops.foldl FileOp.apply dir).Has db := by
  induction ops generalizing dir with
  | nil => exact hd
  | cons op rest ih =>
    exact ih (fun o ho => h o (.tail _ ho)) ((h op (.head _)).has hd)

theorem holds_foldl {ops : List (FileOp F)} (h : ∀ op ∈ ops, op.Saves bin s) (hd : dir.Has a.db)
    (ha : dir.Holds bin s a) : (ops.foldl FileOp.apply dir).Holds bin s a := by
  induction ops generalizing dir with
  | nil => exact ha
  | cons op rest ih =>
    have hop := h op (.head _)
    exact ih (fun o ho => h o (.tail _ ho)) (hop.has hd) (hop.holds hd ha)

/-- A file that is written is there in the end. -/
theorem holds_of_mem {ops : List (FileOp F)} (h : ∀ op ∈ ops, op.Saves bin s) (hd : dir.Has a.db)
    (ha : FileOp.writeShard (shardPath a) (shardFile bin s a) ∈ ops) :
    (ops.foldl FileOp.apply dir).Holds bin s a := by
  obtain ⟨before, after, rfl⟩ := List.append_of_mem ha
  have hbefore := has_foldl (fun op ho => h op (List.mem_append_left _ ho)) hd
  rw [List.foldl_append, List.foldl_cons]
  refine holds_foldl (fun op ho => h op ?_) ((h _ ha).has hbefore) ?_
  · exact List.mem_append_right _ (.tail _ ho)
  · exact read_writeShard_self hbefore _

theorem saves_saveDbOps (db : Fin numDatabases) : ∀ op ∈ saveDbOps bin s db, op.Saves bin s := by
  intro op ho
  rcases List.mem_cons.mp ho with rfl | ho
  · exact .createDbDir _
  · obtain ⟨shard, -, rfl⟩ := List.mem_map.mp ho
    exact .writeShard ⟨db, shard⟩

theorem saves_saveData (dbs : List (Fin numDatabases)) :
    ∀ op ∈ dbs.flatMap (saveDbOps bin s), op.Saves bin s := by
  intro op ho
  obtain ⟨db, -, hdb⟩ := List.mem_flatMap.mp ho
  exact saves_saveDbOps db op hdb

theorem holds_saveData {dbs : List (Fin numDatabases)} (ha : a.db ∈ dbs) :
    ((dbs.flatMap (saveDbOps bin s)).foldl FileOp.apply dir).Holds bin s a := by
  obtain ⟨before, after, rfl⟩ := List.append_of_mem ha
  rw [List.flatMap_append, List.flatMap_cons, List.foldl_append, List.foldl_append, saveDbOps,
    List.foldl_cons]
  set mid := (before.flatMap (saveDbOps bin s)).foldl FileOp.apply dir
  have hhas : (FileOp.apply mid (.createDbDir a.db)).Has a.db :=
    ⟨_, List.mem_append_right _ (.head _)⟩
  have hops : ∀ op ∈ saveDbOps bin s a.db, op.Saves bin s := saves_saveDbOps a.db
  refine holds_foldl (saves_saveData after) (has_foldl (fun op ho => hops op (.tail _ ho)) hhas) ?_
  refine holds_of_mem (fun op ho => hops op (.tail _ ho)) hhas ?_
  exact List.mem_map_of_mem (List.mem_finRange a.shard)

theorem saveVerified_manifest (watermark : Option WalPosition) :
    (saveVerified bin s watermark dir).manifest = some (some (manifestFor bin s watermark)) := by
  rw [saveVerified, saveOps, List.foldl_append]
  rfl

theorem saveVerified_holds (watermark : Option WalPosition) (ha : a.db ∈ s.saved) :
    (saveVerified bin s watermark dir).Holds bin s a := by
  rw [saveVerified, saveOps, saveDataOps, List.foldl_append, List.foldl_append]
  exact holds_saveData ha

/-! ## Loading it back -/

theorem mapM_ok {ε α β : Type} {f : α → Except ε β} {g : α → β} {l : List α}
    (h : ∀ x ∈ l, f x = .ok (g x)) : l.mapM f = .ok (l.map g) := by
  induction l with
  | nil => rfl
  | cons x rest ih =>
    rw [List.mapM_cons, h x (.head _), ih fun y hy => h y (.tail _ hy)]
    rfl

theorem verifyFile_holds (ha : dir.Holds bin s a) :
    verifyFile bin dir (fileEntry bin s a) = .ok a.db := by
  unfold verifyFile fileEntry
  dsimp only
  rw [ha]
  exact if_pos ⟨rfl, rfl⟩

theorem countByDb_get (dbs : List Nat) (k : Nat) :
    (countByDb dbs)[k]? = if k ∈ dbs then some (dbs.count k) else none := by
  have hfold : ∀ m : Map Nat Nat,
      (dbs.foldl (fun counts db => counts.insert db (counts[db]?.getD 0 + 1)) m)[k]?
        = if k ∈ dbs then some (m[k]?.getD 0 + dbs.count k) else m[k]? := by
    induction dbs with
    | nil => exact fun m => rfl
    | cons d rest ih =>
      intro m
      rw [List.foldl_cons, ih, Map.get_insert]
      by_cases hd : d = k
      · subst hd
        by_cases hr : d ∈ rest
        · simp [hr]
          omega
        · simp [hr, List.count_eq_zero.mpr hr]
      · have hk : k ≠ d := fun h => hd h.symm
        simp [hd, hk]
  rw [countByDb, hfold, Map.get_empty]
  simp

theorem count_flatMap_const {n : Nat} (l : List (Fin numDatabases)) (k : Nat) :
    (l.flatMap fun db => (List.finRange n).map fun _ => db.val).count k
      = n * (l.map Fin.val).count k := by
  induction l with
  | nil => simp
  | cons db rest ih =>
    rw [List.flatMap_cons, List.count_append, ih, List.map_cons, List.count_cons,
      List.map_const', List.count_replicate, List.length_finRange]
    by_cases hk : db.val = k
    · simp [hk]
      ring
    · simp [hk]

/-- The databases of the manifest, in ascending order. -/
theorem toList_countByDb {n : Nat} (hn : 0 < n) {l : List (Fin numDatabases)}
    (hl : l.Pairwise (· < ·)) :
    (countByDb (l.flatMap fun db => (List.finRange n).map fun _ => db.val)).toList
      = l.map fun db => (db.val, n) := by
  have hnodup : l.Nodup := hl.imp fun h => Fin.ne_of_lt h
  refine Map.toList_unique ?_ fun k v => ?_
  · rw [List.pairwise_map]
    exact hl.imp fun h => Nat.compare_eq_lt.mpr h
  · rw [countByDb_get, count_flatMap_const]
    have hmem : k ∈ (l.flatMap fun db => (List.finRange n).map fun _ => db.val) ↔
        k ∈ l.map Fin.val := by
      rw [← List.count_pos_iff, count_flatMap_const, ← List.count_pos_iff]
      exact Nat.mul_pos_iff_of_pos_left hn
    simp only [hmem]
    by_cases hk : k ∈ l.map Fin.val
    · rw [if_pos hk, List.count_eq_one_of_mem (hnodup.map Fin.val_injective) hk, Nat.mul_one]
      obtain ⟨db, hdb, rfl⟩ := List.mem_map.mp hk
      constructor
      · intro h
        obtain ⟨d, -, hd⟩ := List.mem_map.mp h
        exact congrArg some (congrArg Prod.snd hd)
      · intro h
        exact List.mem_map.mpr ⟨db, hdb, congrArg (db.val, ·) (Option.some.inj h)⟩
    · rw [if_neg hk]
      constructor
      · intro h
        obtain ⟨d, hd, he⟩ := List.mem_map.mp h
        exact absurd (List.mem_map.mpr ⟨d, hd, congrArg Prod.fst he⟩) hk
      · intro h
        cases h

theorem Env.numShards_pos (env : Env) : 0 < env.numShards := Nat.two_pow_pos _

theorem saved_pairwise (s : Dbs env) : s.saved.Pairwise (· < ·) :=
  (List.pairwise_lt_finRange numDatabases).filter _

/-- A complete save passes all checks. -/
theorem verify_saved (watermark : Option WalPosition) :
    verify bin (saveVerified bin s watermark dir)
      = .ok (some (manifestFor bin s watermark, s.saved)) := by
  have hfiles : (manifestFor bin s watermark).files.mapM
      (verifyFile bin (saveVerified bin s watermark dir))
        = .ok (s.saved.flatMap fun db => (List.finRange env.numShards).map fun _ => db.val) := by
    have hmap : (s.saved.flatMap fun db => (List.finRange env.numShards).map fun _ => db.val)
        = (manifestFor bin s watermark).files.map fun e => (e.path.map ShardPath.db).getD 0 := by
      simp only [manifestFor, List.map_flatMap, List.map_map]
      rfl
    rw [hmap]
    refine mapM_ok fun e he => ?_
    obtain ⟨db, hdb, he⟩ := List.mem_flatMap.mp he
    obtain ⟨shard, -, rfl⟩ := List.mem_map.mp he
    exact verifyFile_holds (saveVerified_holds watermark hdb)
  have hdbs : (s.saved.map fun db => (db.val, env.numShards)).mapM (verifyDb env.numShards)
      = .ok s.saved := by
    have hok : ∀ db, verifyDb env.numShards (db.val, env.numShards) = .ok db :=
      fun db => by simp [verifyDb]
    rw [List.mapM_map]
    exact (mapM_ok fun db _ => hok db).trans (congrArg Except.ok (List.map_id s.saved))
  unfold verify
  rw [saveVerified_manifest]
  show (if snapshotFormatVersion = snapshotFormatVersion then _ else _) = _
  rw [if_pos rfl, hfiles]
  show (((countByDb _).toList.mapM (verifyDb env.numShards)) >>= _) = _
  rw [toList_countByDb env.numShards_pos (saved_pairwise s), hdbs]
  rfl

/-! ### The shards -/

/-- The shard with its counter set right. -/
def Shard.recount (shard : Shard) : Shard := ⟨shard.data, UInt64.ofNat shard.data.size⟩

theorem Shard.ofEntries_toList (shard : Shard) :
    ofEntries shard.data.toList = shard.recount := by
  have hfold : ∀ (l : List (Key × CacheEntry)) shard,
      l.foldl (fun shard kv => (⟨shard.data.insert kv.1 kv.2, shard.size + 1⟩ : Shard)) shard
        = ⟨l.foldl (fun m kv => m.insert kv.1 kv.2) shard.data,
            shard.size + UInt64.ofNat l.length⟩ := by
    intro l
    induction l with
    | nil => exact fun shard => by simp
    | cons kv rest ih =>
      intro shard
      rw [List.foldl_cons, ih, List.foldl_cons, List.length_cons, UInt64.ofNat_add,
        UInt64.add_assoc, UInt64.add_comm 1]
      rfl
  rw [ofEntries, hfold, ExtTreeMap.length_toList]
  show Shard.mk (shard.data.toList.foldl _ (∅ : Map Key CacheEntry)) (0 + _) = _
  rw [Map.foldl_insert_toList, UInt64.zero_add]
  rfl

/-- Loading one after the other, if every load puts `g` in place of the shards in `S`. -/
theorem each_restores {α : Type} {m : α → Loader env F Unit} {S : α → Addr env → Prop}
    {g : Addr env → Shard} (l : List α)
    (h : ∀ x ∈ l, ∀ t, ∃ u, m x dir t = (.ok (), u) ∧
      ∀ a, (S x a → u a = g a) ∧ (¬S x a → u a = t a)) :
    ∀ t, ∃ u, each m l dir t = (.ok (), u) ∧
      ∀ a, ((∃ x ∈ l, S x a) → u a = g a) ∧ ((∀ x ∈ l, ¬S x a) → u a = t a) := by
  induction l with
  | nil =>
    refine fun t => ⟨t, rfl, fun a => ⟨?_, fun _ => rfl⟩⟩
    rintro ⟨x, hx, -⟩
    cases hx
  | cons x rest ih =>
    intro t
    obtain ⟨u, hu, hua⟩ := h x (.head _) t
    obtain ⟨v, hv, hva⟩ := ih (fun y hy => h y (.tail _ hy)) u
    refine ⟨v, ?_, fun a => ⟨?_, fun hn => ?_⟩⟩
    · rw [each, bind_apply, hu]
      exact hv
    · rintro ⟨y, hy, hya⟩
      by_cases hr : ∃ z ∈ rest, S z a
      · exact (hva a).1 hr
      · rw [(hva a).2 fun z hz hza => hr ⟨z, hz, hza⟩]
        rcases List.mem_cons.mp hy with rfl | hy
        · exact (hua a).1 hya
        · exact absurd ⟨y, hy, hya⟩ hr
    · rw [(hva a).2 fun y hy => hn y (.tail _ hy)]
      exact (hua a).2 (hn x (.head _))

theorem each_fails {α : Type} {m : α → Loader env F Unit} {l : List α} {x : α} (hx : x ∈ l)
    (h : ∀ t, ∃ e, (m x dir t).1 = .error e) : ∀ t, ∃ e, (each m l dir t).1 = .error e := by
  induction l with
  | nil => cases hx
  | cons y rest ih =>
    intro t
    rw [each, bind_apply]
    rcases List.mem_cons.mp hx with rfl | hx
    · obtain ⟨e, he⟩ := h t
      revert he
      rcases m x dir t with ⟨r, u⟩
      rintro rfl
      exact ⟨e, rfl⟩
    · rcases m y dir t with ⟨e | -, u⟩
      · exact ⟨e, rfl⟩
      · exact ih hx u

/-- An error of the loop is one of its steps. -/
theorem each_error {α : Type} {m : α → Loader env F Unit} {P : PersistenceError → Prop}
    (h : ∀ x t e, (m x dir t).1 = .error e → P e) (l : List α) (t : Dbs env) {e : PersistenceError}
    (he : (each m l dir t).1 = .error e) : P e := by
  induction l generalizing t with
  | nil => cases he
  | cons x rest ih =>
    have hx := h x t
    rw [each, bind_apply] at he
    revert hx he
    rcases m x dir t with ⟨e' | -, u⟩
    · intro he hx
      cases he
      exact hx _ rfl
    · exact fun he _ => ih u he

/-- Every value of the shard can be decoded. -/
def Shard.SelfContained (shard : Shard) : Prop :=
  ∀ kv ∈ shard.data.toList, kv.2.value.selfContained = true

theorem loadShard_holds (hb : bin.Lawful) (ha : dir.Holds bin s a) (hs : (s a).SelfContained)
    (t : Dbs env) : loadShard bin a dir t = (.ok (), t.update a fun _ => (s a).recount) := by
  rw [loadShard, ha]
  dsimp only
  rw [shardFile, hb.roundTrip _ hs]
  dsimp only
  rw [Shard.ofEntries_toList]

theorem loadShard_fails (hb : bin.Lawful) (ha : dir.Holds bin s a) (hs : ¬(s a).SelfContained)
    (t : Dbs env) : ∃ e, loadShard bin a dir t = (.error e, t) := by
  have hdoc : ∃ kv ∈ (s a).data.toList, kv.2.value.selfContained = false := by
    by_contra hne
    refine hs fun kv hkv => ?_
    by_contra hc
    exact hne ⟨kv, hkv, Bool.eq_false_iff.mpr hc⟩
  obtain ⟨message, hm⟩ := hb.selfDescribing _ hdoc
  refine ⟨.serialization message, ?_⟩
  rw [loadShard, ha]
  dsimp only
  rw [shardFile, hm]

theorem loadDb_holds (hb : bin.Lawful) {db : Fin numDatabases}
    (ha : ∀ shard, dir.Holds bin s ⟨db, shard⟩) (hs : ∀ shard, (s ⟨db, shard⟩).SelfContained)
    (t : Dbs env) :
    ∃ u, loadDb bin db dir t = (.ok (), u) ∧
      ∀ a, (a.db = db → u a = (s a).recount) ∧ (a.db ≠ db → u a = t a) := by
  have hshard : ∀ shard ∈ List.finRange env.numShards, ∀ t, ∃ u,
      loadShard bin ⟨db, shard⟩ dir t = (.ok (), u) ∧
        ∀ a, (a = ⟨db, shard⟩ → u a = (s a).recount) ∧ (a ≠ ⟨db, shard⟩ → u a = t a) := by
    refine fun shard _ t => ⟨_, loadShard_holds hb (ha shard) (hs shard) t, fun a => ⟨?_, ?_⟩⟩
    · rintro rfl
      exact Dbs.update_self ..
    · exact Dbs.update_ne t _
  obtain ⟨u, hu, hua⟩ := each_restores _ hshard t
  refine ⟨u, hu, fun a => ⟨?_, fun hne => ?_⟩⟩
  · rintro rfl
    exact (hua a).1 ⟨a.shard, List.mem_finRange _, rfl⟩
  · refine (hua a).2 fun shard _ he => hne ?_
    rw [he]

/-- **What a complete save leaves loads back, with the counters set right.** -/
theorem loadVerified_saved (hb : bin.Lawful) (watermark : Option WalPosition)
    (hs : ∀ a, a.db ∈ s.saved → (s a).SelfContained) (t : Dbs env) :
    ∃ u, loadVerified bin (saveVerified bin s watermark dir) t
        = (.ok (some (manifestFor bin s watermark)), u) ∧
      ∀ a, (a.db ∈ s.saved → u a = (s a).recount) ∧ (a.db ∉ s.saved → u a = t a) := by
  have hdb : ∀ db ∈ s.saved, ∀ t, ∃ u,
      loadDb bin db (saveVerified bin s watermark dir) t = (.ok (), u) ∧
        ∀ a, (a.db = db → u a = (s a).recount) ∧ (a.db ≠ db → u a = t a) :=
    fun db hdb => loadDb_holds hb (fun _ => saveVerified_holds watermark hdb)
      (fun shard => hs ⟨db, shard⟩ hdb)
  obtain ⟨u, hu, hua⟩ := each_restores s.saved hdb t
  refine ⟨u, ?_, fun a => ⟨fun ha => (hua a).1 ⟨a.db, ha, rfl⟩, fun ha => (hua a).2 ?_⟩⟩
  · rw [loadVerified, verify_saved]
    dsimp only
    rw [bind_apply, hu]
    rfl
  · rintro db hdb rfl
    exact ha hdb

/-- The databases that are saved, as they are loaded into a fresh store. -/
def Dbs.reloaded (s : Dbs env) : Dbs env :=
  fun a => if a.db ∈ s.saved then (s a).recount else .empty

theorem loadVerified_reloaded (hb : bin.Lawful) (watermark : Option WalPosition)
    (hs : ∀ a, a.db ∈ s.saved → (s a).SelfContained) :
    loadVerified bin (saveVerified bin s watermark dir) fresh
      = (.ok (some (manifestFor bin s watermark)), s.reloaded) := by
  obtain ⟨u, hu, hua⟩ := loadVerified_saved hb watermark hs fresh
  rw [hu]
  congr 1
  funext a
  unfold Dbs.reloaded
  split
  · next ha => exact (hua a).1 ha
  · next ha => exact (hua a).2 ha

/-- A document in a database that is saved makes the snapshot unloadable. -/
theorem loadVerified_undecodable (hb : bin.Lawful) (watermark : Option WalPosition)
    (ha : a.db ∈ s.saved) (hs : ¬(s a).SelfContained) (t : Dbs env) :
    ∃ e, (loadVerified bin (saveVerified bin s watermark dir) t).1 = .error e := by
  have hdb : ∀ u, ∃ e, (loadDb bin a.db (saveVerified bin s watermark dir) u).1 = .error e :=
    each_fails (List.mem_finRange a.shard) fun u => by
      obtain ⟨e, he⟩ := loadShard_fails hb (saveVerified_holds watermark ha) hs u
      exact ⟨e, congrArg Prod.fst he⟩
  obtain ⟨e, he⟩ := each_fails ha hdb t
  refine ⟨e, ?_⟩
  rw [loadVerified, verify_saved]
  dsimp only
  rw [bind_apply]
  revert he
  rcases each (loadDb bin) s.saved (saveVerified bin s watermark dir) t with ⟨r, u⟩
  rintro rfl
  rfl

/-- The snapshot of a complete save is never taken for a corrupt one. -/
theorem loadVerified_saved_error (watermark : Option WalPosition) (t : Dbs env)
    {e : PersistenceError}
    (he : (loadVerified bin (saveVerified bin s watermark dir) t).1 = .error e) (text : String) :
    e ≠ .corruption text := by
  have hshard : ∀ (a : Addr env) t e, (loadShard bin a (saveVerified bin s watermark dir) t).1
      = .error e → ∀ text, e ≠ .corruption text := by
    intro a t e he text
    unfold loadShard at he
    split at he
    · cases he
      exact nofun
    · split at he
      · cases he
        exact nofun
      · cases he
  rw [loadVerified, verify_saved] at he
  dsimp only at he
  rw [bind_apply] at he
  have hall : ∀ e, (each (loadDb bin) s.saved (saveVerified bin s watermark dir) t).1 = .error e →
      ∀ text, e ≠ .corruption text :=
    fun e => each_error (fun db t e => each_error (fun shard => hshard ⟨db, shard⟩) _ t) _ t
  revert hall he
  rcases each (loadDb bin) s.saved (saveVerified bin s watermark dir) t with ⟨e' | -, u⟩
  · intro he hall
    cases he
    exact hall _ rfl text
  · intro he
    cases he

/-- `t` has the shards of `s`, some with their counters set right. -/
def Dbs.Recounts (s t : Dbs env) : Prop := ∀ a, t a = s a ∨ t a = (s a).recount

theorem Dbs.Recounts.entry {t : Dbs env} (h : s.Recounts t) (a : Addr env) (k : Key) :
    t.entry a k = s.entry a k := by
  unfold Dbs.entry
  rcases h a with ha | ha
  · rw [ha]
  · rw [ha]
    rfl

theorem loadShard_recounts (hb : bin.Lawful) (ha : dir.Holds bin s a) {t : Dbs env}
    (ht : s.Recounts t) : s.Recounts (loadShard bin a dir t).2 := by
  by_cases hs : (s a).SelfContained
  · rw [loadShard_holds hb ha hs]
    intro b
    dsimp only
    by_cases hb : b = a
    · rw [hb, Dbs.update_self]
      exact .inr rfl
    · rw [Dbs.update_ne _ _ hb]
      exact ht b
  · obtain ⟨e, he⟩ := loadShard_fails hb ha hs t
    rw [he]
    exact ht

/-- **Saving the store and loading it back in place leaves every shard, but for its counter.** -/
theorem loadVerified_in_place (hb : bin.Lawful) (watermark : Option WalPosition) :
    s.Recounts (loadVerified bin (saveVerified bin s watermark dir) s).2 := by
  have h : s.Recounts (each (loadDb bin) s.saved (saveVerified bin s watermark dir) s).2 := by
    refine each_preserves (J := s.Recounts) (fun db hdb t ht => ?_) fun _ => .inl rfl
    exact each_preserves (J := s.Recounts)
      (fun shard _ t ht => loadShard_recounts hb (saveVerified_holds watermark hdb) ht) ht
  rw [loadVerified, verify_saved]
  dsimp only
  rw [bind_apply]
  revert h
  rcases each (loadDb bin) s.saved (saveVerified bin s watermark dir) s with ⟨e | _, u⟩
  · exact fun h => h
  · exact fun h => h

/-! ## Stopping half-way -/

theorem manifest_foldl_none {ops : List (FileOp F)} (h : ∀ op ∈ ops, ∀ m, op ≠ .writeManifest m)
    (hd : dir.manifest = none) : (ops.foldl FileOp.apply dir).manifest = none := by
  induction ops generalizing dir with
  | nil => exact hd
  | cons op rest ih =>
    refine ih (fun o ho => h o (.tail _ ho)) ?_
    cases op with
    | removeManifest => rfl
    | removeEntry | createDbDir | writeShard => exact hd
    | writeManifest m => exact absurd rfl (h _ (.head _) m)

/-- **A save that stops after its first and before its last operation leaves no manifest.** -/
theorem manifest_take {watermark : Option WalPosition} {k : Nat} (h0 : 0 < k)
    (hk : k < (saveOps bin s watermark dir).length) :
    (((saveOps bin s watermark dir).take k).foldl FileOp.apply dir).manifest = none := by
  rw [saveOps, List.length_append, List.length_singleton] at hk
  rw [saveOps, List.take_append_of_le_length (by omega)]
  obtain ⟨n, rfl⟩ : ∃ n, k = n + 1 := ⟨k - 1, by omega⟩
  rw [saveDataOps, List.cons_append, List.take_succ_cons, List.foldl_cons]
  refine manifest_foldl_none (fun op ho m => ?_) rfl
  rcases List.mem_append.mp (List.mem_of_mem_take ho) with ho | ho
  · obtain ⟨-, -, rfl⟩ := List.mem_map.mp ho
    exact nofun
  · cases saves_saveData _ op ho <;> exact nofun

theorem entries_foldl_ne_nil {ops : List (FileOp F)} (h : ∀ op ∈ ops, op ≠ .removeEntry)
    (hd : dir.entries ≠ []) : (ops.foldl FileOp.apply dir).entries ≠ [] := by
  induction ops generalizing dir with
  | nil => exact hd
  | cons op rest ih =>
    refine ih (fun o ho => h o (.tail _ ho)) ?_
    cases op with
    | removeManifest | writeManifest => exact hd
    | removeEntry => exact absurd rfl (h _ (.head _))
    | createDbDir => exact List.append_ne_nil_of_right_ne_nil _ (List.cons_ne_nil _ _)
    | writeShard => exact fun he => hd (List.map_eq_nil_iff.mp he)

theorem foldl_removeEntry {ops : List (FileOp F)} (h : ∀ op ∈ ops, op = .removeEntry) :
    (ops.foldl FileOp.apply dir).entries = dir.entries.drop ops.length := by
  induction ops generalizing dir with
  | nil => rfl
  | cons op rest ih =>
    obtain rfl := h op (.head _)
    rw [List.foldl_cons, ih fun o ho => h o (.tail _ ho), List.length_cons, Nat.add_comm,
      ← List.drop_drop]
    exact congrArg _ List.drop_one.symm

/-- The directory is empty just between the last removal and the first new directory. -/
theorem entries_take {watermark : Option WalPosition} {k : Nat} (h0 : 0 < k)
    (hk : k < (saveOps bin s watermark dir).length) :
    (((saveOps bin s watermark dir).take k).foldl FileOp.apply dir).entries = [] ↔
      k = dir.entries.length + 1 := by
  rw [saveOps, List.length_append, List.length_singleton] at hk
  rw [saveOps, List.take_append_of_le_length (by omega)]
  obtain ⟨n, rfl⟩ : ∃ n, k = n + 1 := ⟨k - 1, by omega⟩
  rw [saveDataOps, List.cons_append, List.take_succ_cons, List.foldl_cons, List.take_append,
    List.foldl_append, Nat.add_left_inj, List.length_map]
  set removals : List (FileOp F) := (dir.entries.map fun _ => .removeEntry).take n with hr
  have hremoved : (removals.foldl FileOp.apply (FileOp.apply dir .removeManifest)).entries
      = dir.entries.drop (min n dir.entries.length) := by
    rw [foldl_removeEntry fun op ho => ?_, hr, List.length_take, List.length_map]
    · rfl
    · obtain ⟨-, -, rfl⟩ := List.mem_map.mp (List.mem_of_mem_take ho)
      rfl
  by_cases hn : n ≤ dir.entries.length
  · rw [Nat.sub_eq_zero_of_le hn, List.take_zero, List.foldl_nil, hremoved, Nat.min_eq_left hn,
      List.drop_eq_nil_iff]
    omega
  · refine ⟨fun he => absurd he ?_, fun he => absurd he.le hn⟩
    -- the first directory of the new snapshot is there, and nothing removes it
    obtain ⟨m, hm⟩ : ∃ m, n - dir.entries.length = m + 1 := ⟨n - dir.entries.length - 1, by omega⟩
    cases hsaved : s.saved with
    | nil => simp [saveDataOps, hsaved] at hk; omega
    | cons db rest =>
      rw [List.flatMap_cons, saveDbOps, List.cons_append, hm, List.take_succ_cons, List.foldl_cons]
      refine entries_foldl_ne_nil (fun op ho => ?_)
        (List.append_ne_nil_of_right_ne_nil _ (List.cons_ne_nil _ _))
      have hop : op ∈ s.saved.flatMap (saveDbOps bin s) := by
        rw [hsaved, List.flatMap_cons, saveDbOps, List.cons_append]
        exact List.mem_cons_of_mem _ (List.mem_of_mem_take ho)
      cases saves_saveData _ op hop <;> exact nofun

/-! ## The round trip -/

/-- Every database with entries is saved, and what is saved can be decoded. -/
structure Dbs.Saveable (s : Dbs env) : Prop where
  complete : ∀ a, a.db ∉ s.saved → ∀ k, s.entry a k = none
  decodable : ∀ a : Addr env, a.db ∈ s.saved → (s a).SelfContained

/-- Saving and loading into fresh stores succeeds and gives back every entry. -/
def RoundTrips (bin : Bincode F) (s : Dbs env) (watermark : Option WalPosition)
    (dir : SnapshotDir F) : Prop :=
  ∃ manifest t, loadVerified bin (saveVerified bin s watermark dir) Dbs.fresh
      = (.ok (some manifest), t) ∧ ∀ a k, t.entry a k = s.entry a k

/-- Loading a saveable store gives back its entries, and the watermark it was saved with. -/
theorem Dbs.Saveable.load (h : s.Saveable) (hb : bin.Lawful) (watermark : Option WalPosition)
    (dir : SnapshotDir F) :
    ∃ t, loadVerified bin (saveVerified bin s watermark dir) fresh
        = (.ok (some (manifestFor bin s watermark)), t) ∧ ∀ a k, t.entry a k = s.entry a k := by
  obtain ⟨t, ht, hta⟩ := loadVerified_saved hb watermark h.decodable fresh
  refine ⟨t, ht, fun a k => ?_⟩
  by_cases ha : a.db ∈ s.saved
  · rw [Dbs.entry, (hta a).1 ha]
    rfl
  · rw [h.complete a ha, Dbs.entry, (hta a).2 ha]
    exact entry_fresh a k

/-- **A store survives a save and a load exactly if it is saveable.** -/
theorem roundTrips_iff (hb : bin.Lawful) (s : Dbs env) (watermark : Option WalPosition)
    (dir : SnapshotDir F) : RoundTrips bin s watermark dir ↔ s.Saveable := by
  constructor
  · rintro ⟨manifest, t, hload, hsame⟩
    have hdec : ∀ a, a.db ∈ s.saved → (s a).SelfContained := by
      intro a ha
      by_contra hs
      obtain ⟨e, he⟩ := loadVerified_undecodable hb watermark ha hs fresh
      rw [hload] at he
      cases he
    refine ⟨fun a ha k => ?_, hdec⟩
    obtain ⟨u, hu, hua⟩ := loadVerified_saved hb watermark hdec fresh
    rw [hload] at hu
    obtain rfl : t = u := congrArg Prod.snd hu
    rw [← hsame, Dbs.entry, (hua a).2 ha]
    exact entry_fresh a k
  · intro h
    obtain ⟨t, ht, hsame⟩ := h.load hb watermark dir
    exact ⟨_, t, ht, hsame⟩

end

theorem Dbs.dbsize_eq_zero {s : Dbs env} {db : Fin numDatabases}
    (h : ∀ shard, (s ⟨db, shard⟩).size = 0) : s.dbsize db = 0 := by
  unfold dbsize
  induction List.finRange env.numShards with
  | nil => rfl
  | cons shard rest ih =>
    have hzero : wrapI64 (0 + wrapI64 (0 : UInt64).toNat) = 0 := by decide
    rw [List.foldl_cons, h shard, hzero, ih]

theorem Dbs.saved_eq_nil {s : Dbs env} (h : ∀ a, (s a).size = 0) : s.saved = [] := by
  refine List.filter_eq_nil_iff.mpr fun db _ => ?_
  rw [dbsize_eq_zero fun shard => h ⟨db, shard⟩]
  simp

theorem Dbs.size_write (s : Dbs env) (a b : Addr env) (key : Key) (e : CacheEntry) :
    (s.update a (·.write key e) b).size = (s b).size := by
  by_cases hb : b = a
  · rw [hb, update_self]
    rfl
  · rw [update_ne s _ hb]

namespace Sample

/-- A file that is the list of entries itself, and refuses to be read if it has a document. -/
def bincode : Bincode (List (Key × CacheEntry)) where
  serialize := id
  deserialize data :=
    if data.all fun kv => kv.2.value.selfContained then .ok data
    else .error "Bincode does not support the serde::Deserializer::deserialize_any method"
  len := List.length
  crc32c _ := 0

theorem bincode_lawful : bincode.Lawful where
  roundTrip data h := if_pos (List.all_eq_true.mpr h)
  selfDescribing data h := by
    obtain ⟨kv, hkv, hc⟩ := h
    refine ⟨_, if_neg fun hall => ?_⟩
    rw [List.all_eq_true.mp hall kv hkv] at hc
    cases hc

/-- A string, a hash and a list in database 0, a set and a string that expires in database 1. -/
def populate : Handler Sample.env Unit := do
  let _ ← Handler.setCmd 0 "a" [0x31] none none
  let _ ← Handler.hsetCmd 0 "h" [([0x66], [0x76])]
  let _ ← Handler.rpushCmd 0 "l" [[0x61], [0x62]]
  let _ ← Handler.setCmd 1 "b" [0x32] (some (.ex 10)) none
  let _ ← Handler.saddCmd 1 "s" [[0x6D]]

def populated : Dbs Sample.env := (populate (draw 0) fresh).2

end Sample

/-- Five keys in two databases are saved and loaded. -/
theorem roundTrips_iff_populated :
    populated.entry (Sample.env.addr 0 "l") "l" = some ⟨.list [[0x61], [0x62]], 0⟩ ∧
      populated.entry (Sample.env.addr 1 "b") "b" = some ⟨.string [0x32], 10000⟩ ∧
      (populated (Sample.env.addr 0 "h")).data.size = 3 ∧
      (populated (Sample.env.addr 1 "s")).data.size = 2 ∧
      RoundTrips bincode populated none ⟨"snapshots", none, []⟩ := by
  refine ⟨rfl, rfl, by decide +kernel, by decide +kernel,
    (roundTrips_iff bincode_lawful populated none ⟨"snapshots", none, []⟩).mpr ⟨?_, ?_⟩⟩
  · intro a ha k
    have hempty : ∀ db ∉ populated.saved, ∀ shard,
        (populated ⟨db, shard⟩).data.isEmpty = true := by decide +kernel
    show (populated a).data[k]? = none
    rw [Std.ExtTreeMap.isEmpty_iff.mp (hempty a.db ha a.shard)]
    exact Std.ExtTreeMap.getElem?_empty
  · intro a _
    have hall : ∀ db shard, ∀ kv ∈ (populated ⟨db, shard⟩).data.toList,
        kv.2.value.selfContained = true := by decide +kernel
    exact hall a.db a.shard

/-- After a first `LPUSH` the counter is still zero, so the list is not saved. -/
theorem lpush_not_saved (env : Env) (bin : Bincode F) (dir : SnapshotDir F) (draw : Draw) :
    ∃ s, (Handler.lpushCmd 0 "jobs" [[0x61]] draw fresh).2 = s ∧
      s.entry (env.addr 0 "jobs") "jobs" = some ⟨.list [[0x61]], 0⟩ ∧
      loadVerified bin (saveVerified bin s none dir) (fresh : Dbs env)
        = (.ok (some (manifestFor bin s none)), fresh) := by
  refine ⟨_, congrArg Prod.snd (Handler.Kind.upsert_missing (entry_fresh _ _) rfl _), ?_, ?_⟩
  · rw [entry_write, if_pos ⟨rfl, rfl⟩]
    rfl
  · rw [loadVerified, verify_saved, saved_eq_nil fun a => ?_]
    · rfl
    · rw [size_write, size_write]
      rfl

theorem list_not_saved :
    ∃ s : Dbs Sample.env, (Handler.lpushCmd 0 "jobs" [[0x61]] (Sample.draw 0) fresh).2 = s ∧
      s.entry (Sample.env.addr 0 "jobs") "jobs" = some ⟨.list [[0x61]], 0⟩ ∧
      loadVerified bincode (saveVerified bincode s none ⟨"snapshots", none, []⟩)
          (fresh : Dbs Sample.env)
        = (.ok (some (manifestFor bincode s none)), fresh) :=
  lpush_not_saved Sample.env bincode ⟨"snapshots", none, []⟩ (Sample.draw 0)

end Calod.Store
