import Calod.Lib.Program
import Calod.Store.Data

/-!
# Shards and the operations on them

The keyspace of `calod-core/src/store/calod_shard.rs` and `sharded_store.rs`: sixteen databases of
shards, each with its entries and a counter that the handlers maintain by hand. A handler is a
program over all shards that reads a `Draw`: the clock, the order in which a hash set is iterated
and the candidates that the recency list offers for eviction.

The operations below are the few ways in which a handler touches the map of a shard:

* `look` and `store` go through a reference into the map and do not regard the expiry
* `fetch` removes an entry that has expired
* `set` and `putEntry` evict when the counter has reached the capacity, and count a new key
* `ensure` creates a key and does not count it

`Access` lists them, so that what a handler may do can be said by naming operations.
-/

namespace Calod.Store

open Lib

/-! ## Keyspace -/

/-- Configuration of the store, and what it takes from elsewhere. -/
structure Env extends Platform where
  /-- The number of shards is a power of two; this is its logarithm. -/
  logShards : Nat
  shardCapacity : UInt64

/-- `NUM_DATABASES`. -/
def numDatabases : Nat := 16

instance : NeZero numDatabases := ⟨by decide⟩

namespace Env

def numShards (env : Env) : Nat := 2 ^ env.logShards

/-- `get_shard_index`; a `str` is hashed with a trailing `0xff`. -/
def shardIndex (env : Env) (key : Key) : Fin env.numShards :=
  ⟨(env.xxHash64 (Serde.utf8 key ++ [0xff])).toNat % env.numShards,
    Nat.mod_lt _ (Nat.two_pow_pos _)⟩

end Env

structure Addr (env : Env) where
  db : Fin numDatabases
  shard : Fin env.numShards
  deriving DecidableEq

/-- `get_shard`. -/
def Env.addr (env : Env) (db : Fin numDatabases) (key : Key) : Addr env := ⟨db, env.shardIndex key⟩

structure Shard where
  data : Map Key CacheEntry
  size : UInt64

namespace Shard

def empty : Shard := ⟨∅, 0⟩

/-- Remove a key that is there. -/
def remove (shard : Shard) (key : Key) : Shard := ⟨shard.data.erase key, shard.size - 1⟩

/-- Insert an entry and count a new key. -/
def insert (shard : Shard) (key : Key) (entry : CacheEntry) : Shard :=
  ⟨shard.data.insert key entry, if key ∈ shard.data then shard.size else shard.size + 1⟩

/-- Store through a reference into the map; the counter is not touched. -/
def write (shard : Shard) (key : Key) (entry : CacheEntry) : Shard :=
  ⟨shard.data.insert key entry, shard.size⟩

/-- One round of the loop of `evict`. -/
def evictOne (target : UInt64) (shard : Shard) (key : Key) : Shard :=
  if target < shard.size ∧ key ∈ shard.data then shard.remove key else shard

/-- `evict`, given the candidates in the order in which the heap yields them. -/
def evict (shard : Shard) (target : UInt64) (candidates : List Key) : Shard :=
  if shard.size ≤ target then shard else candidates.foldl (evictOne target) shard

@[simp] theorem evict_nil (shard : Shard) (target : UInt64) : shard.evict target [] = shard := by
  simp [evict]

end Shard

def Dbs (env : Env) := Addr env → Shard

namespace Dbs

variable {env : Env}

def fresh : Dbs env := fun _ => .empty

def update (s : Dbs env) (a : Addr env) (f : Shard → Shard) : Dbs env :=
  fun b => if b = a then f (s a) else s b

@[simp] theorem update_self (s : Dbs env) (a : Addr env) (f : Shard → Shard) :
    s.update a f a = f (s a) := if_pos rfl

theorem update_ne (s : Dbs env) {a b : Addr env} (f : Shard → Shard) (h : b ≠ a) :
    s.update a f b = s b := if_neg h

/-- The entry under `key` in the shard at `a`. -/
def entry (s : Dbs env) (a : Addr env) (key : Key) : Option CacheEntry := (s a).data[key]?

@[simp] theorem entry_fresh (a : Addr env) (key : Key) : (fresh : Dbs env).entry a key = none :=
  Map.get_empty key

theorem entry_update (s : Dbs env) (a b : Addr env) (f : Shard → Shard) (key : Key) :
    (s.update a f).entry b key = if b = a then (f (s a)).data[key]? else s.entry b key := by
  unfold entry update
  split <;> rfl

theorem entry_remove (s : Dbs env) (a b : Addr env) (key k : Key) :
    (s.update a (·.remove key)).entry b k = if b = a ∧ key = k then none else s.entry b k := by
  rw [entry_update, show ((s a).remove key).data = (s a).data.erase key from rfl, Map.get_erase]
  by_cases hb : b = a
  · subst hb
    simp [entry]
  · simp [hb]

/-- `insert` and `write` differ in the counter only. -/
theorem entry_insert (s : Dbs env) (a b : Addr env) (key k : Key) (e : CacheEntry) :
    (s.update a (·.insert key e)).entry b k = if b = a ∧ key = k then some e else s.entry b k := by
  rw [entry_update, show ((s a).insert key e).data = (s a).data.insert key e from rfl,
    Map.get_insert]
  by_cases hb : b = a
  · subst hb
    simp [entry]
  · simp [hb]

theorem entry_write (s : Dbs env) (a b : Addr env) (key k : Key) (e : CacheEntry) :
    (s.update a (·.write key e)).entry b k = if b = a ∧ key = k then some e else s.entry b k := by
  rw [← entry_insert, entry_update, entry_update]
  rfl

theorem entry_clear (s : Dbs env) (a b : Addr env) (k : Key) :
    (s.update a fun _ => .empty).entry b k = if b = a then none else s.entry b k := by
  rw [entry_update, show Shard.empty.data[k]? = none from Map.get_empty k]

end Dbs

/-! ## Operations -/

structure Draw where
  now : Nat
  order : List Bytes → List Bytes
  orderPerm : ∀ l, (order l).Perm l
  candidates : Shard → List Key

/-- No candidate is offered for eviction. -/
def Draw.Evictionless (draw : Draw) : Prop := ∀ shard, draw.candidates shard = []

/-- Evict if the counter has reached the capacity. -/
def Dbs.makeRoom {env : Env} (s : Dbs env) (a : Addr env) (draw : Draw) : Dbs env :=
  if env.shardCapacity ≤ (s a).size then
    s.update a fun shard =>
      shard.evict (env.eightTenths env.shardCapacity) (draw.candidates shard)
  else s

theorem Dbs.entry_makeRoom {env : Env} {draw : Draw} (hd : draw.Evictionless) (s : Dbs env)
    (a b : Addr env) (k : Key) : (s.makeRoom a draw).entry b k = s.entry b k := by
  unfold makeRoom
  split
  · rw [entry_update, hd, Shard.evict_nil]
    split
    · next hb => rw [hb]; rfl
    · rfl
  · rfl

abbrev Handler (env : Env) := Prog Draw (Dbs env) Failure

inductive Fetched where
  | missing
  | expired
  | live (entry : CacheEntry)

namespace Handler

variable {env : Env}

/-- `now_ms`. -/
def clock : Handler env Nat := fun draw s => (.ok draw.now, s)

/-- The members of a hash set, in the order of its iterator. -/
def order (items : List Bytes) : Handler env (List Bytes) := fun draw s =>
  (.ok (draw.order items), s)

/-- `data.get(key)`. -/
def look (a : Addr env) (key : Key) : Handler env (Option CacheEntry) := fun _ s =>
  (.ok (s.entry a key), s)

/-- `data.get(key)` followed by the removal of an expired entry. -/
def fetch (a : Addr env) (key : Key) : Handler env Fetched := fun draw s =>
  match s.entry a key with
  | none => (.ok .missing, s)
  | some entry =>
    if entry.isExpired draw.now then (.ok .expired, s.update a (·.remove key))
    else (.ok (.live entry), s)

/-- `take_entry`. -/
def takeEntry (a : Addr env) (key : Key) : Handler env (Option CacheEntry) := fun _ s =>
  match s.entry a key with
  | none => (.ok none, s)
  | some entry => (.ok (some entry), s.update a (·.remove key))

/-- `set`. -/
def set (a : Addr env) (key : Key) (value : DataType) (ttl : Option Nat) : Handler env Unit :=
  fun draw s => (.ok (), (s.makeRoom a draw).update a (·.insert key (.new draw.now value ttl)))

/-- `put_entry`; only a new key makes it evict. -/
def putEntry (a : Addr env) (key : Key) (entry : CacheEntry) : Handler env Unit := fun draw s =>
  let s := if (s.entry a key).isNone then s.makeRoom a draw else s
  (.ok (), s.update a (·.insert key entry))

/-- Move an entry, with its expiry: `take_entry` and `put_entry`. -/
def moveEntry (source : Addr env) (key : Key) (a : Addr env) (newKey : Key) :
    Handler env Bool := do
  match ← takeEntry source key with
  | some entry =>
    putEntry a newKey entry
    return true
  | none => return false

/-- Duplicate an entry, with its expiry: `get_entry` and `put_entry`. -/
def copyEntry (source : Addr env) (key : Key) (a : Addr env) (newKey : Key) :
    Handler env Bool := do
  match ← fetch source key with
  | .live entry =>
    putEntry a newKey entry
    return true
  | _ => return false

/-- `set` with what `pttl` says remains for another key, if that is positive. -/
def setLike (source : Addr env) (key : Key) (a : Addr env) (newKey : Key) (value : DataType) :
    Handler env Unit := do
  let now ← clock
  match ← fetch source key with
  | .live entry => set a newKey value (((entry.pttl now).filter fun ms => 0 < ms).map Int.toNat)
  | _ => set a newKey value none

/-- `data.entry(key).or_insert_with(..)`. -/
def ensure (a : Addr env) (key : Key) (value : DataType) : Handler env Unit := fun draw s =>
  match s.entry a key with
  | some _ => (.ok (), s)
  | none => (.ok (), s.update a (·.write key (.new draw.now value none)))

/-- Assign to the value through `data.get_mut(key)`. -/
def store (a : Addr env) (key : Key) (value : DataType) : Handler env Unit := fun _ s =>
  match s.entry a key with
  | some entry => (.ok (), s.update a (·.write key { entry with value := value }))
  | none => (.ok (), s)

/-- Assign to the expiry through `data.get_mut(key)`; was the key there? -/
def setExpiry (a : Addr env) (key : Key) (expiry : Expiry) : Handler env Bool := fun draw s =>
  match s.entry a key with
  | some entry =>
    (.ok true, s.update a (·.write key { entry with expiresAtMs := expiry.time draw.now }))
  | none => (.ok false, s)

/-- `clear_all`. -/
def clearAll (a : Addr env) : Handler env Unit := fun _ s => (.ok (), s.update a fun _ => .empty)

end Handler

inductive Access (env : Env) where
  | clock
  | order (items : List Bytes)
  | look (a : Addr env) (key : Key)
  | fetch (a : Addr env) (key : Key)
  | takeEntry (a : Addr env) (key : Key)
  | set (a : Addr env) (key : Key) (value : DataType) (ttl : Option Nat)
  | moveEntry (source : Addr env) (key : Key) (a : Addr env) (newKey : Key)
  | copyEntry (source : Addr env) (key : Key) (a : Addr env) (newKey : Key)
  | setLike (source : Addr env) (key : Key) (a : Addr env) (newKey : Key) (value : DataType)
  | ensure (a : Addr env) (key : Key) (value : DataType)
  | store (a : Addr env) (key : Key) (value : DataType)
  | setExpiry (a : Addr env) (key : Key) (expiry : Expiry)
  | clearAll (a : Addr env)

namespace Access

variable {env : Env}

def Answer : Access env → Type
  | .clock => Nat
  | .order _ => List Bytes
  | .look .. | .takeEntry .. => Option CacheEntry
  | .fetch .. => Fetched
  | .moveEntry .. | .copyEntry .. | .setExpiry .. => Bool
  | .set .. | .setLike .. | .ensure .. | .store .. | .clearAll .. => Unit

def perform : (o : Access env) → Handler env o.Answer
  | .clock => Handler.clock
  | .order items => Handler.order items
  | .look a key => Handler.look a key
  | .fetch a key => Handler.fetch a key
  | .takeEntry a key => Handler.takeEntry a key
  | .set a key value ttl => Handler.set a key value ttl
  | .moveEntry source key a newKey => Handler.moveEntry source key a newKey
  | .copyEntry source key a newKey => Handler.copyEntry source key a newKey
  | .setLike source key a newKey value => Handler.setLike source key a newKey value
  | .ensure a key value => Handler.ensure a key value
  | .store a key value => Handler.store a key value
  | .setExpiry a key expiry => Handler.setExpiry a key expiry
  | .clearAll a => Handler.clearAll a

end Access

namespace Handler

variable {env : Env} {α β : Type}

/-- The handler consists of operations in `P`. -/
abbrev Uses (P : Access env → Prop) (m : Handler env α) : Prop := Prog.Uses Access.perform P m

/-- `P` allows reading, anywhere. -/
structure Reads (P : Access env → Prop) : Prop where
  look : ∀ a key, P (.look a key)
  fetch : ∀ a key, P (.fetch a key)

/-- `P` allows changing what is stored under `key`, without an expiry. -/
structure Writes (P : Access env → Prop) (key : Key) : Prop where
  takeEntry : ∀ a, P (.takeEntry a key)
  set : ∀ a value, P (.set a key value none)
  store : ∀ a value, P (.store a key value)
  persist : ∀ a, P (.setExpiry a key .never)

/-- `P` allows giving `key` an expiry. -/
structure Expires (P : Access env → Prop) (key : Key) : Prop where
  set : ∀ a value ttl, P (.set a key value ttl)
  setExpiry : ∀ a expiry, P (.setExpiry a key expiry)

/-- `P` allows creating `key` in the shard at `a`, and storing to it. -/
structure Creates (P : Access env → Prop) (a : Addr env) (key : Key) : Prop where
  look : ∀ a key, P (.look a key)
  ensure : ∀ value, P (.ensure a key value)
  store : ∀ a value, P (.store a key value)

section

variable {P : Access env → Prop} {key : Key}

theorem uses_clock (h : P .clock) : Uses P (clock : Handler env Nat) := .op Access.clock h

theorem uses_order {items : List Bytes} (h : P (.order items)) : Uses P (order items) :=
  .op (Access.order items) h

theorem uses_look (hl : ∀ a key, P (.look a key)) (a : Addr env) (key : Key) :
    Uses P (look a key) :=
  .op (Access.look a key) (hl a key)

theorem uses_fetch (hr : Reads P) (a : Addr env) (key : Key) : Uses P (fetch a key) :=
  .op (Access.fetch a key) (hr.fetch a key)

theorem uses_takeEntry (hw : Writes P key) (a : Addr env) : Uses P (takeEntry a key) :=
  .op (Access.takeEntry a key) (hw.takeEntry a)

theorem uses_set (hw : Writes P key) (a : Addr env) (value : DataType) :
    Uses P (set a key value none) :=
  .op (Access.set a key value none) (hw.set a value)

theorem uses_store (hs : ∀ a value, P (.store a key value)) (a : Addr env) (value : DataType) :
    Uses P (store a key value) :=
  .op (Access.store a key value) (hs a value)

end

def throw (e : CacheError) : Handler env α := Prog.fail (.error e)

/-- `delete`. -/
def delete (a : Addr env) (key : Key) : Handler env Bool := do
  return (← takeEntry a key).isSome

/-! ## Access by type -/

/-- A type of value, and what a mismatch error calls it. -/
structure Kind (α : Type) where
  expected : String
  project : DataType → Option α
  inject : α → DataType

namespace Kind

/-- Do `f` to the value of a key that is there. -/
def apply (kind : Kind α) (a : Addr env) (key : Key) (value : DataType)
    (f : α → Result β × α) : Handler env β :=
  match kind.project value with
  | some x => do
    store a key (kind.inject (f x).2)
    Prog.ofExcept (f x).1
  | none => throw (.dataTypeMismatch key kind.expected value.dataType)

/-- Do `f` to the value under `key`, or `missing` if there is no such key. -/
def update (kind : Kind α) (a : Addr env) (key : Key) (missing : Handler env β)
    (f : α → Result β × α) : Handler env β := do
  match ← look a key with
  | some entry => kind.apply a key entry.value f
  | none => missing

/-- Do `f` to the value under `key`, which is created from `fresh` if there is none. -/
def upsert (kind : Kind α) (a : Addr env) (key : Key) (fresh : α) (f : α → Result β × α) :
    Handler env β := do
  ensure a key (kind.inject fresh)
  kind.update a key (Prog.fail .panicked) f

def string (expected : String) : Kind Bytes where
  expected := expected
  project
    | .string bytes => some bytes
    | _ => none
  inject := .string

def list : Kind (List Bytes) where
  expected := "List"
  project
    | .list items => some items
    | _ => none
  inject := .list

def set : Kind (Map Bytes Unit) where
  expected := "Set"
  project
    | .set members => some members
    | _ => none
  inject := .set

def hash : Kind (Map Bytes Bytes) where
  expected := "Hash"
  project
    | .hash fields => some fields
    | _ => none
  inject := .hash

def sortedSet : Kind SortedSetData where
  expected := "zset"
  project
    | .sortedSet data => some data
    | _ => none
  inject := .sortedSet

def stream : Kind StreamData where
  expected := "stream"
  project
    | .stream data => some data
    | _ => none
  inject := .stream

def document : Kind Json where
  expected := "Document"
  project
    | .document json => some json
    | _ => none
  inject := .document

variable {P : Access env → Prop} {key : Key}

theorem uses_apply (hs : ∀ a value, P (.store a key value)) (kind : Kind α) (a : Addr env)
    (value : DataType) (f : α → Result β × α) : Uses P (kind.apply a key value f) := by
  unfold apply
  split
  · exact .bind (uses_store hs a _) fun _ => .ofExcept _
  · exact .fail _

theorem uses_update (hl : ∀ a key, P (.look a key)) (hs : ∀ a value, P (.store a key value))
    (kind : Kind α) (a : Addr env) {missing : Handler env β} (hm : Uses P missing)
    (f : α → Result β × α) : Uses P (kind.update a key missing f) := by
  refine .bind (uses_look hl a key) fun e => ?_
  cases e with
  | some entry => exact kind.uses_apply hs a entry.value f
  | none => exact hm

theorem uses_upsert {a : Addr env} (hc : Creates P a key) (kind : Kind α) (fresh : α)
    (f : α → Result β × α) : Uses P (kind.upsert a key fresh f) :=
  .bind (.op (Access.ensure a key _) (hc.ensure _)) fun _ =>
    kind.uses_update hc.look hc.store a (.fail _) f

theorem update_stored (kind : Kind α) {a : Addr env} {key : Key} {draw : Draw} {s : Dbs env}
    {e : CacheEntry} (he : s.entry a key = some e) {x : α} (hx : kind.project e.value = some x)
    (missing : Handler env β) (f : α → Result β × α) :
    kind.update a key missing f draw s
      = ((f x).1, s.update a (·.write key { e with value := kind.inject (f x).2 })) := by
  simp only [update, apply, Prog.bind_apply, look, store, he, hx, Prog.ofExcept]

/-- On a missing key, the counter of the shard stays as it is. -/
theorem upsert_missing {kind : Kind α} {a : Addr env} {key : Key} {fresh : α} {draw : Draw}
    {s : Dbs env} (h : s.entry a key = none)
    (hp : kind.project (kind.inject fresh) = some fresh) (f : α → Result β × α) :
    kind.upsert a key fresh f draw s = ((f fresh).1,
      (s.update a (·.write key ⟨kind.inject fresh, 0⟩)).update a
        (·.write key ⟨kind.inject (f fresh).2, 0⟩)) := by
  have hnew : (s.update a (·.write key ⟨kind.inject fresh, 0⟩)).entry a key
      = some ⟨kind.inject fresh, 0⟩ := by
    rw [Dbs.entry_write, if_pos ⟨rfl, rfl⟩]
  simp only [upsert, Prog.bind_apply, ensure, h, CacheEntry.new_none]
  exact kind.update_stored hnew hp _ f

end Kind

section

variable {P : Access env → Prop} {key : Key}

theorem uses_delete (hw : Writes P key) (a : Addr env) : Uses P (delete a key) :=
  .bind (uses_takeEntry hw a) fun _ => .pure _

/-- Do `m`, except where `required` and the key is missing. -/
def unlessAbsent (required : Bool) (a : Addr env) (key : Key) (absent : Result Reply)
    (m : Handler env Reply) : Handler env Reply :=
  if required then do
    match ← look a key with
    | none => Prog.ofExcept absent
    | some _ => m
  else m

theorem uses_unlessAbsent {required : Bool} {absent : Result Reply} {m : Handler env Reply}
    (hl : ∀ a key, P (.look a key)) (a : Addr env) (key : Key) (hm : Uses P m) :
    Uses P (unlessAbsent required a key absent m) := by
  unfold unlessAbsent
  split
  · refine .bind (uses_look hl a key) fun e => ?_
    split
    · exact .ofExcept _
    · exact hm
  · exact hm

end

end Handler

/-! ## Sample configuration -/

namespace Sample

/-- The sample runs use no floats, positions or JSON texts. -/
def platform : Platform where
  add x _ := x
  parseF64 _ := none
  displayF64 _ := "0"
  ofInt _ := .zero
  truncI64 _ := 0
  eightTenths n := n - n / 5
  xxHash64 _ := 0
  geoEncode _ _ := none
  fromJson _ := .error "expected value"

/-- One shard for each database, of the default capacity. -/
def env : Env := { platform with logShards := 0, shardCapacity := 1000 }

/-- The clock at `now`; nothing is offered for eviction. -/
def draw (now : Nat) : Draw := ⟨now, id, .refl, fun _ => []⟩

theorem draw_evictionless (now : Nat) : (draw now).Evictionless := fun _ => rfl

/-- One key with the value. -/
def single (key : Key) (value : DataType) : Dbs env :=
  Dbs.fresh.update (env.addr 0 key) (·.write key ⟨value, 0⟩)

theorem entry_single (key : Key) (value : DataType) :
    (single key value).entry (env.addr 0 key) key = some ⟨value, 0⟩ := by
  rw [single, Dbs.entry_write, if_pos ⟨rfl, rfl⟩]

end Sample

end Calod.Store
