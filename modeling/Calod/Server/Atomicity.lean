import Calod.Lib.Interleaving
import Calod.Server.Command

/-!
# Conditional and read-modify-write commands, step by step

`SETNX`, `SET NX`, `MSETNX`, `RENAMENX`, `GETSET`, `GETDEL` and `PFADD` of `sharded_store.rs` and
`calod_shard.rs` as the operations on the map of a shard that they consist of; other commands can
come between any two of them. A removal of an expired key is an operation of its own, after the one
that has found it expired. The counters of the shards are left out, and with them eviction.

* `plays_run` — a command whose steps are not interrupted is the handler of `Server.Command`
* `atomic_when_apart` — calls that overlap in time and have no key in common have the replies and
  the effect of the handlers in some order
* `setNx_twice` — two `SETNX` of an absent key both succeed
-/

namespace Calod.Server

open Lib Store Store.Handler Handler

variable {env : Env} {α β : Type}

/-- A handler in steps, each at one key of one shard. -/
abbrev Steps (env : Env) (α : Type) := Script (Addr env × Key) CacheEntry Failure α

/-- The entries of all shards. -/
def view (s : Dbs env) : Addr env × Key → Option CacheEntry := fun c => s.entry c.1 c.2

/-- The clock at `now`; nothing is offered for eviction. -/
def still (now : Nat) : Draw := ⟨now, id, .refl, fun _ => []⟩

theorem view_remove (s : Dbs env) (a : Addr env) (key : Key) :
    view (s.update a (·.remove key)) = Function.update (view s) (a, key) none := by
  funext ⟨b, k⟩
  show (s.update a (·.remove key)).entry b k = _
  rw [Dbs.entry_remove, Function.update_apply]
  simp only [view, Prod.mk.injEq, eq_comm (a := key)]

theorem view_insert (s : Dbs env) (a : Addr env) (key : Key) (e : CacheEntry) :
    view (s.update a (·.insert key e)) = Function.update (view s) (a, key) (some e) := by
  funext ⟨b, k⟩
  show (s.update a (·.insert key e)).entry b k = _
  rw [Dbs.entry_insert, Function.update_apply]
  simp only [view, Prod.mk.injEq, eq_comm (a := key)]

theorem view_makeRoom (now : Nat) (s : Dbs env) (a : Addr env) :
    view (s.makeRoom a (still now)) = view s := by
  funext ⟨b, k⟩
  exact Dbs.entry_makeRoom (fun _ => rfl) s a b k

/-! ## Steps that play a handler -/

/-- Without interruption the steps do what the handler does, and they stay within the keys. -/
structure Plays (now : Nat) (keys : List (Addr env × Key)) (p : Steps env α)
    (h : Handler env α) : Prop where
  within : p.Within keys
  run : ∀ s, p.run (view s) = ((h (still now) s).1, view (h (still now) s).2)

namespace Plays

variable {now : Nat} {keys : List (Addr env × Key)} {p : Steps env α} {h : Handler env α}

theorem pure (a : α) : Plays now keys (Pure.pure a : Steps env α) (Pure.pure a) :=
  ⟨trivial, fun _ => rfl⟩

theorem ofExcept (r : Result α) : Plays now keys (.done r) (Prog.ofExcept r) :=
  ⟨trivial, fun _ => rfl⟩

theorem bind (hp : Plays now keys p h) {f : α → Steps env β} {g : α → Handler env β}
    (hf : ∀ a, Plays now keys (f a) (g a)) : Plays now keys (p >>= f) (h >>= g) := by
  refine ⟨Script.within_bind hp.within fun a => (hf a).within, fun s => ?_⟩
  rw [Script.run_bind, hp.run, Prog.bind_apply]
  rcases h (still now) s with ⟨e | a, t⟩
  · rfl
  · exact (hf a).run t

theorem each {f : α → Steps env Unit} {g : α → Handler env Unit} {l : List α}
    (hf : ∀ a ∈ l, Plays now keys (f a) (g a)) :
    Plays now keys (Script.each f l) (Prog.each g l) := by
  induction l with
  | nil => exact pure ()
  | cons a rest ih =>
    refine bind (hf a List.mem_cons_self) fun _ => ih fun b hb => ?_
    exact hf b (List.mem_cons_of_mem _ hb)

end Plays

namespace Steps

variable (now : Nat) {keys : List (Addr env × Key)} {a : Addr env} {key : Key}

theorem plays_look (hk : (a, key) ∈ keys) :
    Plays now keys (Script.get (a, key)) (look a key) where
  within := ⟨hk, fun _ => trivial⟩
  run s := by
    show (_, Function.update (view s) (a, key) (view s (a, key))) = (_, view s)
    rw [Function.update_eq_self]
    rfl

theorem plays_takeEntry (hk : (a, key) ∈ keys) :
    Plays now keys (Script.remove (a, key)) (takeEntry a key) where
  within := ⟨hk, fun _ => trivial⟩
  run s := by
    show (Except.ok (s.entry a key), Function.update (view s) (a, key) none) = _
    unfold takeEntry
    cases h : s.entry a key with
    | none =>
      have : Function.update (view s) (a, key) none = view s := by
        rw [← h]
        exact Function.update_eq_self ..
      rw [this]
    | some e => rw [← view_remove]

/-- `set` of a shard. -/
def set (a : Addr env) (key : Key) (value : DataType) (ttl : Option Nat) : Steps env Unit := do
  let _ ← Script.insert (a, key) (.new now value ttl)

theorem plays_set (hk : (a, key) ∈ keys) (value : DataType) (ttl : Option Nat) :
    Plays now keys (set now a key value ttl) (Handler.set a key value ttl) where
  within := ⟨hk, fun _ => trivial⟩
  run s := by
    show (_, Function.update (view s) (a, key) (some (.new now value ttl)))
      = (_, view (Dbs.update _ a _))
    rw [view_insert, view_makeRoom]
    rfl

/-- Look at a key, and remove it if it has expired. -/
def fetch (a : Addr env) (key : Key) : Steps env Fetched := do
  match ← Script.get (a, key) with
  | none => return .missing
  | some entry =>
    if entry.isExpired now then
      let _ ← Script.remove (a, key)
      return .expired
    else return .live entry

theorem plays_fetch (hk : (a, key) ∈ keys) :
    Plays now keys (fetch now a key) (Handler.fetch a key) where
  within := by
    refine Script.within_bind (plays_look now hk).within fun found => ?_
    cases found with
    | none => exact trivial
    | some e =>
      dsimp only
      split
      · exact Script.within_bind (plays_takeEntry now hk).within fun _ => trivial
      · exact trivial
  run s := by
    unfold fetch Handler.fetch
    rw [Script.run_bind, (plays_look now hk).run]
    dsimp only [look]
    cases h : s.entry a key with
    | none => rfl
    | some e =>
      dsimp only
      by_cases hx : e.isExpired now = true
      · rw [if_pos hx, if_pos (show e.isExpired (still now).now = true from hx), Script.run_bind,
          (plays_takeEntry now hk).run, takeEntry, h]
        rfl
      · rw [if_neg hx, if_neg (show ¬e.isExpired (still now).now = true from hx)]
        rfl

/-- `exists`. -/
def exists_ (a : Addr env) (key : Key) : Steps env Bool := do
  match ← fetch now a key with
  | .live _ => return true
  | _ => return false

theorem plays_exists (hk : (a, key) ∈ keys) :
    Plays now keys (exists_ now a key) (Handler.exists_ a key) := by
  refine .bind (plays_fetch now hk) fun found => ?_
  cases found <;> exact .pure _

/-- `get`, where a key that is missing or has expired is no error. -/
def find (a : Addr env) (key : Key) : Steps env (Option DataType) := do
  match ← fetch now a key with
  | .live entry => return some entry.value
  | _ => return none

theorem plays_find (db : Fin numDatabases) (hk : (env.addr db key, key) ∈ keys) :
    Plays now keys (find now (env.addr db key) key) (Handler.find db key) := by
  refine .bind (plays_fetch now hk) fun found => ?_
  cases found <;> exact .pure _

/-- `put_entry`. -/
def putEntry (a : Addr env) (key : Key) (entry : CacheEntry) : Steps env Unit := do
  let _ ← Script.get (a, key)
  let _ ← Script.insert (a, key) entry

theorem plays_putEntry (hk : (a, key) ∈ keys) (entry : CacheEntry) :
    Plays now keys (putEntry a key entry) (Handler.putEntry a key entry) where
  within := ⟨hk, fun _ => ⟨hk, fun _ => trivial⟩⟩
  run s := by
    show (_, Function.update (Function.update (view s) (a, key) (view s (a, key))) (a, key)
      (some entry)) = (_, view (Dbs.update _ a _))
    rw [Function.update_eq_self, view_insert]
    split
    · rw [view_makeRoom]
      rfl
    · rfl

/-- `delete`. -/
def delete (a : Addr env) (key : Key) : Steps env Bool := do
  return (← Script.remove (a, key)).isSome

/-- `take_entry` and `put_entry`. -/
def moveEntry (source : Addr env) (key : Key) (a : Addr env) (newKey : Key) : Steps env Bool := do
  match ← Script.remove (source, key) with
  | some entry =>
    putEntry a newKey entry
    return true
  | none => return false

theorem plays_moveEntry {source : Addr env} {newKey : Key} (hk : (source, key) ∈ keys)
    (hnew : (a, newKey) ∈ keys) :
    Plays now keys (moveEntry source key a newKey) (Handler.moveEntry source key a newKey) := by
  refine .bind (plays_takeEntry now hk) fun found => ?_
  cases found with
  | none => exact .pure _
  | some entry => exact .bind (plays_putEntry now hnew entry) fun _ => .pure _

variable (db : Fin numDatabases)

/-! ## The commands -/

/-- `set_cmd` with the option `NX`. -/
def setNx (key : Key) (value : Bytes) (expire : Option SetExpireOption) : Steps env Bool := do
  if ← exists_ now (env.addr db key) key then return false
  else
    set now (env.addr db key) key (.string value) (expire.map SetExpireOption.duration)
    return true

theorem plays_setNx (hk : (env.addr db key, key) ∈ keys) (value : Bytes)
    (expire : Option SetExpireOption) :
    Plays now keys (setNx now db key value expire)
      (setCmd db key value expire (some .nx)) := by
  refine .bind (plays_exists now hk) fun taken => ?_
  split
  · exact .pure _
  · exact .bind (plays_set now hk _ _) fun _ => .pure _

/-- `setnx_cmd`. -/
def setnxCmd (key : Key) (value : Bytes) : Steps env Reply := do
  if ← exists_ now (env.addr db key) key then return .integer 0
  else return .ofBool (← setNx now db key value none)

theorem plays_setnxCmd (hk : (env.addr db key, key) ∈ keys) (value : Bytes) :
    Plays now keys (setnxCmd now db key value) (Handler.setnxCmd db key value) := by
  refine .bind (plays_exists now hk) fun taken => ?_
  split
  · exact .pure _
  · exact .bind (plays_setNx now db hk value none) fun _ => .pure _

/-- Does one of the keys exist? The first one that does ends the search. -/
def anyExists : List Key → Steps env Bool
  | [] => pure false
  | key :: rest => do
    if ← exists_ now (env.addr db key) key then return true else anyExists rest

theorem plays_anyExists {searched : List Key}
    (hk : ∀ key ∈ searched, (env.addr db key, key) ∈ keys) :
    Plays now keys (anyExists now db searched) (Handler.anyExists db searched) := by
  induction searched with
  | nil => exact .pure _
  | cons key rest ih =>
    refine .bind (plays_exists now (hk key List.mem_cons_self)) fun found => ?_
    split
    · exact .pure _
    · exact ih fun k h => hk k (List.mem_cons_of_mem _ h)

/-- `msetnx_cmd`, after the check of its arguments. -/
def msetnxCmd (keyValues : List (Key × Bytes)) : Steps env Reply :=
  if keyValues = [] then
    Script.fail (.error
      (.invalidCommandArguments "ERR wrong number of arguments for 'msetnx' command"))
  else do
    if ← anyExists now db (keyValues.map Prod.fst) then return .integer 0
    else
      Script.each (fun kv => do let _ ← setNx now db kv.1 kv.2 none) keyValues
      return .integer 1

theorem plays_msetnxCmd {keyValues : List (Key × Bytes)}
    (hk : ∀ key ∈ keyValues.map Prod.fst, (env.addr db key, key) ∈ keys) :
    Plays now keys (msetnxCmd now db keyValues) (KeyCommand.mSetNxChecked db keyValues) := by
  unfold msetnxCmd KeyCommand.mSetNxChecked
  split
  · exact .ofExcept _
  · refine .bind (plays_anyExists now db hk) fun found => ?_
    split
    · exact .pure _
    · refine .bind (.each fun kv hkv => ?_) fun _ => .pure _
      have hkey := hk kv.1 (List.mem_map_of_mem hkv)
      exact .bind (plays_setNx now db hkey kv.2 none) fun _ => .pure _

/-- `rename_cmd` with the option `NX`; both ways through it, in one shard and across two, make these
steps. -/
def renamenxCmd (key newKey : Key) : Steps env Reply :=
  if key = newKey then
    Script.fail (.error
      (.invalidCommandArguments "ERR source and destination objects are the same"))
  else do
    if ← exists_ now (env.addr db newKey) newKey then return .integer 0
    else if ← moveEntry (env.addr db key) key (env.addr db newKey) newKey then return .integer 1
    else Script.fail (.error (.keyNotFound key))

theorem plays_renamenxCmd {newKey : Key} (hk : (env.addr db key, key) ∈ keys)
    (hnew : (env.addr db newKey, newKey) ∈ keys) :
    Plays now keys (renamenxCmd now db key newKey) (renameCmd db key newKey true) := by
  unfold renamenxCmd renameCmd
  split
  · exact .ofExcept _
  · refine .bind (plays_exists now hnew) fun taken => ?_
    split
    · exact .pure _
    · refine .bind (plays_moveEntry now hk hnew) fun moved => ?_
      split
      · exact .pure _
      · exact .ofExcept _

/-- `getset_cmd`. -/
def getsetCmd (key : Key) (value : Bytes) : Steps env Reply := do
  let old ← find now (env.addr db key) key
  set now (env.addr db key) key (.string value) none
  return (old.map Reply.stored).getD .nil

/-- `get_cmd`. -/
def getCmd (key : Key) : Steps env Reply := do
  match ← find now (env.addr db key) key with
  | none => return .nil
  | some (.string bytes) => return .string bytes
  | some other => Script.fail (.error (.dataTypeMismatch key "string" other.dataType))

theorem plays_getCmd (hk : (env.addr db key, key) ∈ keys) :
    Plays now keys (getCmd now db key) (Handler.getCmd db key) := by
  refine .bind (plays_find now db hk) fun found => ?_
  cases found with
  | none => exact .pure _
  | some value =>
    cases value with
    | string bytes => exact .pure _
    | _ => exact .ofExcept _

/-- `getdel_cmd`. -/
def getdelCmd (key : Key) : Steps env Reply := do
  match ← getCmd now db key with
  | .nil => return .nil
  | current =>
    let _ ← delete (env.addr db key) key
    return current

theorem plays_getdelCmd (hk : (env.addr db key, key) ∈ keys) :
    Plays now keys (getdelCmd now db key) (Handler.getdelCmd db key) := by
  refine .bind (plays_getCmd now db hk) fun current => ?_
  cases current with
  | nil => exact .pure _
  | _ => exact .bind (.bind (plays_takeEntry now hk) fun _ => .pure _) fun _ => .pure _

/-- `pfadd_cmd`. -/
def pfaddCmd (key : Key) (elements : List Bytes) : Steps env Reply := do
  let current ← Script.get (env.addr db key, key)
  let start ← Script.done (hllOf key (current.map CacheEntry.value))
  let result := addElements env.toPlatform start elements
  if result.1 then
    set now (env.addr db key) key (.string result.2.toBytes) none
    return .integer 1
  else return .integer 0

theorem plays_pfaddCmd (hk : (env.addr db key, key) ∈ keys) (elements : List Bytes) :
    Plays now keys (pfaddCmd now db key elements) (Handler.pfaddCmd db key elements) := by
  refine .bind (plays_look now hk) fun current => .bind (.ofExcept _) fun start => ?_
  dsimp only
  split
  · exact .bind (plays_set now hk _ _) fun _ => .pure _
  · exact .pure _

end Steps

/-! ## Calls side by side -/

inductive RmwCommand where
  | setNx (key : Key) (value : Bytes)
  /-- `SET` with the option `NX`. -/
  | set (key : Key) (value : Bytes) (expire : Option SetExpireOption)
  | mSetNx (keyValues : List (Key × Bytes))
  | renameNx (key newKey : Key)
  | getSet (key : Key) (value : Bytes)
  | getDel (key : Key)
  | pfAdd (key : Key) (elements : List Bytes)

namespace RmwCommand

/-- The command for `KeyCommand.run`. -/
def toKeyCommand : RmwCommand → KeyCommand
  | .setNx key value => .setNx key value
  | .set key value expire => .set key value expire (some .nx)
  | .mSetNx keyValues => .mSetNx keyValues
  | .renameNx key newKey => .renameNx key newKey
  | .getSet key value => .getSet key value
  | .getDel key => .getDel key
  | .pfAdd key elements => .pfAdd key elements

def keys : RmwCommand → List Key
  | .setNx key _ | .set key .. | .getSet key _ | .getDel key | .pfAdd key _ => [key]
  | .mSetNx keyValues => keyValues.map Prod.fst
  | .renameNx key newKey => [key, newKey]

def steps (now : Nat) (db : Fin numDatabases) : RmwCommand → Steps env Reply
  | .setNx key value => Steps.setnxCmd now db key value
  | .set key value expire => do
    return KeyCommand.setReply .nil (← Steps.setNx now db key value expire)
  | .mSetNx keyValues => Steps.msetnxCmd now db keyValues
  | .renameNx key newKey => Steps.renamenxCmd now db key newKey
  | .getSet key value => Steps.getsetCmd now db key value
  | .getDel key => Steps.getdelCmd now db key
  | .pfAdd key elements => Steps.pfaddCmd now db key elements

/-- **Without interruption the steps are the handler.** -/
theorem plays_run (now : Nat) (db : Fin numDatabases) (cmd : RmwCommand) :
    Plays now (cmd.keys.map fun key => (env.addr db key, key)) (cmd.steps now db)
      (cmd.toKeyCommand.run db) := by
  have hself : ∀ {key}, key ∈ cmd.keys →
      (env.addr db key, key) ∈ cmd.keys.map fun key => (env.addr db key, key) :=
    fun hk => List.mem_map_of_mem hk
  cases cmd with
  | setNx key value => exact Steps.plays_setnxCmd now db (hself List.mem_cons_self) value
  | set key value expire =>
    exact .bind (Steps.plays_setNx now db (hself List.mem_cons_self) value expire) fun _ => .pure _
  | mSetNx keyValues => exact Steps.plays_msetnxCmd now db fun key hk => hself hk
  | renameNx key newKey =>
    exact Steps.plays_renamenxCmd now db (hself List.mem_cons_self)
      (hself (List.mem_cons_of_mem _ List.mem_cons_self))
  | getSet key value =>
    exact .bind (Steps.plays_find now db (hself List.mem_cons_self)) fun _ =>
      .bind (Steps.plays_set now (hself List.mem_cons_self) _ _) fun _ => .pure _
  | getDel key => exact Steps.plays_getdelCmd now db (hself List.mem_cons_self)
  | pfAdd key elements => exact Steps.plays_pfaddCmd now db (hself List.mem_cons_self) elements

end RmwCommand

/-- A command on its database, at its time. -/
structure RmwCall where
  db : Fin numDatabases
  now : Nat
  cmd : RmwCommand

namespace RmwCall

/-- The call as a job of the interleaving. -/
def job (call : RmwCall) : Job (Addr env × Key) CacheEntry Failure Reply where
  keys := call.cmd.keys.map fun key => (env.addr call.db key, key)
  script := call.cmd.steps call.now call.db
  within := (call.cmd.plays_run call.now call.db).within

variable {ι : Type}

/-- The handlers, one call after the other. -/
def serial (calls : ι → RmwCall) (order : List ι) (s : Dbs env) :
    List (ι × Except Failure Reply) × Dbs env :=
  order.foldl (fun acc i =>
    let r := (calls i).cmd.toKeyCommand.run (calls i).db (still (calls i).now) acc.2
    (acc.1 ++ [(i, r.1)], r.2)) ([], s)

theorem serial_job (calls : ι → RmwCall) (order : List ι) (s : Dbs env) :
    Jobs.serial (fun i => (calls i).job) order (view s) =
      ((serial calls order s).1, view (serial calls order s).2) := by
  induction order using List.reverseRecOn with
  | nil => rfl
  | append_singleton order i ih =>
    have hplays : Plays (calls i).now _ ((calls i).cmd.steps (calls i).now (calls i).db)
        ((calls i).cmd.toKeyCommand.run (calls i).db : Handler env Reply) :=
      (calls i).cmd.plays_run (calls i).now (calls i).db
    have hrun := hplays.run (serial calls order s).2
    rw [Jobs.serial_append, ih]
    dsimp only [job]
    rw [hrun]
    simp only [serial, List.foldl_append, List.foldl_cons, List.foldl_nil]

end RmwCall

/-- **Calls that do not share a key while they overlap are atomic.** For every interleaving of the
steps there is an order of the calls in which the handlers, one after the other, give the same
replies and the same entries. -/
theorem atomic_when_apart {ι : Type} [DecidableEq ι] (calls : ι → RmwCall) (s₀ : Dbs env)
    {s : Jobs (Addr env × Key) CacheEntry Failure Reply ι}
    (hr : Reach (Jobs.step fun i => (calls i).job) (Jobs.Apart fun i => (calls i).job)
      (.init (view s₀)) s)
    (hf : ∀ i, ∃ reply, s.phase i = .finished reply) :
    ∃ order : List ι, order.Nodup ∧ (∀ i, i ∈ order) ∧
      s.memory = view (RmwCall.serial calls order s₀).2 ∧
      ∀ r ∈ (RmwCall.serial calls order s₀).1, s.phase r.1 = .finished r.2 := by
  obtain ⟨order, hnodup, hall, hmem, hreplies⟩ := Jobs.serializable hr hf
  rw [RmwCall.serial_job] at hmem hreplies
  exact ⟨order, hnodup, hall, hmem.symm, hreplies⟩

namespace Sample

/-- Two `SETNX`, of the keys that `key` says. -/
def setNxCalls (key : Bool → Key) (i : Bool) : RmwCall := ⟨0, 0, .setNx (key i) [0x31]⟩

def jobs (key : Bool → Key) (i : Bool) :
    Job (Addr Store.Sample.env × Key) CacheEntry Failure Reply := (setNxCalls key i).job

/-- The two calls, step by step in turn. -/
def inTurn : List (JobAction Bool) :=
  [.start false, .start true, .advance false, .advance true, .advance false, .advance true,
    .advance false, .advance true, .advance false, .advance true]

/-- The call has not been started before. -/
def once (s : Jobs (Addr Store.Sample.env × Key) CacheEntry Failure Reply Bool) :
    JobAction Bool → Bool
  | .start i => (s.phase i matches .waiting)
  | .advance _ => true

/-- The integer of a reply. -/
def integer : Except Failure Reply → Option Int
  | .ok (.integer n) => some n
  | _ => none

theorem eq_of_integer {reply : Except Failure Reply} {n : Int} (h : integer reply = some n) :
    reply = .ok (.integer n) := by
  unfold integer at h
  split at h
  · cases h
    rfl
  · cases h

/-- The integer that a call has replied. -/
def integerReply (s : Jobs (Addr Store.Sample.env × Key) CacheEntry Failure Reply Bool)
    (i : Bool) : Option Int :=
  match s.phase i with
  | .finished reply => integer reply
  | _ => none

theorem finished_of_integerReply
    {s : Jobs (Addr Store.Sample.env × Key) CacheEntry Failure Reply Bool} {i : Bool} {n : Int}
    (h : integerReply s i = some n) : s.phase i = .finished (.ok (.integer n)) := by
  unfold integerReply at h
  split at h
  · next hp => rw [hp, eq_of_integer h]
  · cases h

end Sample

/-- Two `SETNX` of different keys, interleaved. -/
theorem atomic_when_apart_setNx :
    ∃ (s : Jobs (Addr Store.Sample.env × Key) CacheEntry Failure Reply Bool) (order : List Bool),
      Sample.integerReply s false = some 1 ∧ Sample.integerReply s true = some 1 ∧
      s.memory = view (RmwCall.serial (Sample.setNxCalls fun i => if i then "a" else "b") order
        Dbs.fresh).2 := by
  have hrun : (run (Jobs.step (Sample.jobs fun i => if i then "a" else "b")) Sample.once
      (.init (view Dbs.fresh)) Sample.inTurn).map
        (fun s => (Sample.integerReply s false, Sample.integerReply s true))
      = some (some 1, some 1) := by decide +kernel
  obtain ⟨s, hr, hs⟩ := exists_reach_of_run hrun
  obtain ⟨h0, h1⟩ := Prod.mk.inj hs
  have hr' : Reach (Jobs.step (Sample.jobs fun i => if i then "a" else "b"))
      (Jobs.Apart (Sample.jobs fun i => if i then "a" else "b")) (.init (view Dbs.fresh)) s := by
    refine hr.mono fun s a ha => ?_
    cases a with
    | advance i => exact trivial
    | start i =>
      intro j rest hj
      have hij : j ≠ i := by
        rintro rfl
        rw [Sample.once, hj] at ha
        cases ha
      intro c hc hc'
      rw [List.mem_singleton.mp hc] at hc'
      have hkey := congrArg Prod.snd (List.mem_singleton.mp hc')
      cases i <;> cases j
      · exact hij rfl
      · exact absurd hkey (by decide)
      · exact absurd hkey (by decide)
      · exact hij rfl
  obtain ⟨order, -, -, hmem, -⟩ := atomic_when_apart
    (Sample.setNxCalls fun i => if i then "a" else "b") Dbs.fresh hr' fun i => by
      cases i
      · exact ⟨_, Sample.finished_of_integerReply h0⟩
      · exact ⟨_, Sample.finished_of_integerReply h1⟩
  exact ⟨s, order, h0, h1, hmem⟩

/-- **Two `SETNX` of an absent key both succeed.** In no order of the calls do the handlers give
both replies. -/
theorem setNx_twice :
    ∃ s, Reach (Jobs.step (Sample.jobs fun _ => "k")) (fun _ _ => True)
        (.init (view Dbs.fresh)) s ∧
      (∀ i, s.phase i = .finished (.ok (.integer 1))) ∧
      ∀ order : List Bool, order.Nodup → (∀ i, i ∈ order) →
        ¬∀ r ∈ (RmwCall.serial (Sample.setNxCalls fun _ => "k") order
          (Dbs.fresh : Dbs Store.Sample.env)).1, s.phase r.1 = .finished r.2 := by
  have hrun : (run (Jobs.step (Sample.jobs fun _ => "k")) (fun _ _ => true)
      (.init (view Dbs.fresh)) Sample.inTurn).map
        (fun s => (Sample.integerReply s false, Sample.integerReply s true))
      = some (some 1, some 1) := by decide +kernel
  obtain ⟨s, hr, hs⟩ := exists_reach_of_run hrun
  obtain ⟨h0, h1⟩ := Prod.mk.inj hs
  have hboth : ∀ i, s.phase i = .finished (.ok (.integer 1)) := by
    intro i
    cases i
    · exact Sample.finished_of_integerReply h0
    · exact Sample.finished_of_integerReply h1
  refine ⟨s, hr.mono fun _ _ _ => trivial, hboth, fun order hnodup hall hreplies => ?_⟩
  -- in both orders the second call replies 0
  have hzero : some 0 ∈ (RmwCall.serial (Sample.setNxCalls fun _ => "k") order
      (Dbs.fresh : Dbs Store.Sample.env)).1.map fun r => Sample.integer r.2 := by
    have hperm : order.Perm [false, true] := by
      rw [List.perm_ext_iff_of_nodup hnodup (by decide)]
      intro i
      cases i <;> simp [hall]
    obtain ⟨i, j, rfl⟩ := List.length_eq_two.mp hperm.length_eq
    cases i <;> cases j
    · exact absurd hnodup (by decide)
    · decide +kernel
    · decide +kernel
    · exact absurd hnodup (by decide)
  obtain ⟨r, hr, h0⟩ := List.mem_map.mp hzero
  have hone := (hboth r.1).symm.trans (hreplies r hr)
  rw [Sample.eq_of_integer h0] at hone
  cases hone

end Calod.Server
