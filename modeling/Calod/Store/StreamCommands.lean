import Calod.Store.Shard

/-!
# Stream commands

The handlers of `calod_shard.rs` and `sharded_store.rs` that change streams and consumer groups.
`XADD` and `XGROUP CREATE` create a missing stream and do not count it; the other commands find an
existing one.
-/

namespace Calod.Store

open Lib Prog

/-! ## Replies and errors -/

def invalidStreamId : CacheError :=
  .invalidCommandArguments "ERR Invalid stream ID specified as stream command argument"

def noGroup (key : Key) (group : String) : CacheError :=
  .invalidCommandArguments
    ("NOGROUP No such key '" ++ key ++ "' or consumer group '" ++ group ++ "'")

def groupNeedsKey : CacheError :=
  .invalidCommandArguments
    ("ERR The XGROUP subcommand requires the key to exist. Note that for CREATE you may want to " ++
      "use the MKSTREAM option to create an empty stream automatically.")

namespace StreamData

/-- `stream_entries_reply`. -/
def entriesReply (entries : List StreamEntry) : Reply :=
  .array (entries.map fun e => .array [.text e.1.toRedisString,
    .array (e.2.flatMap fun field => [.string field.1, .string field.2])])

/-- Reply of the claiming commands. -/
def claimedReply (justid : Bool) (entries : List StreamEntry) : Reply :=
  if justid then .array (entries.map fun e => .text e.1.toRedisString) else entriesReply entries

/-- Parse all ids. -/
def parseIds (ids : List String) : Result (List StreamId) :=
  match ids.mapM (parseId · 0) with
  | some ids => .ok ids
  | none => fail invalidStreamId

/-! ## Commands on a stream -/

/-- The id that `XADD` gives an entry if it is not `*`. -/
def explicitId (id : String) (s : StreamData) : Option StreamId :=
  (parseId id 0).map fun parsed =>
    if '-' ∈ id.toList then parsed
    else if parsed.ms = s.lastId.ms then ⟨parsed.ms, wrapU64 (s.lastId.seq + 1)⟩
    else ⟨parsed.ms, 0⟩

/-- `XADD`, given how the id is chosen. -/
def xadd (choose : StreamData → Option StreamId) (maxlen : Option Nat) (fields : List StreamField)
    (s : StreamData) : Result Reply × StreamData :=
  match choose s with
  | none => (fail invalidStreamId, s)
  | some id =>
    match s.add id fields with
    | .error _ =>
      (fail (.invalidCommandArguments
        "ERR The ID specified in XADD is equal or smaller than the target stream top item"), s)
    | .ok s => (.ok (.text id.toRedisString), (maxlen.map fun n => (s.trimMaxlen n).2).getD s)

/-- `resolve_group_start`. -/
def groupStart (s : StreamData) (id : String) : Option StreamId :=
  if id = "$" then some s.lastId
  else if id = "0" ∨ id = "0-0" then some .minimum
  else parseId id 0

/-- `XGROUP CREATE`. -/
def xgroupCreate (group id : String) (s : StreamData) : Result Reply × StreamData :=
  match s.groupStart id with
  | none => (fail invalidStreamId, s)
  | some start =>
    let r := s.createGroup group start
    if r.1 then (.ok .ok, r.2)
    else (fail (.invalidCommandArguments "BUSYGROUP Consumer Group name already exists"), r.2)

/-- `XGROUP SETID`. -/
def xgroupSetid (key : Key) (group id : String) (s : StreamData) : Result Reply × StreamData :=
  match s.groupStart id with
  | none => (fail invalidStreamId, s)
  | some start =>
    let r := s.setGroupId group start
    if r.1 then (.ok .ok, r.2) else (fail (noGroup key group), r.2)

/-- What a command does that needs a group. -/
def inGroup {α : Type} (key : Key) (group : String) (reply : α → Reply)
    (f : StreamData → Option (α × StreamData)) (s : StreamData) : Result Reply × StreamData :=
  match f s with
  | some (a, s) => (.ok (reply a), s)
  | none => (fail (noGroup key group), s)

/-- `XSETID`. -/
def xsetid (id : String) (entriesAdded : Option Nat) (maxDeleted : Option String)
    (s : StreamData) : Result Reply × StreamData :=
  match if id = "$" then some s.lastId else parseId id 0 with
  | none => (fail invalidStreamId, s)
  | some resolved =>
    if s.entries.maxKey?.any fun top => resolved < top then
      (fail (.invalidCommandArguments
        "ERR The ID specified in XSETID is smaller than the target stream top item"), s)
    else
      match maxDeleted.map (parseId · 0) with
      | some none => (fail invalidStreamId, s)
      | some (some id) => (.ok .ok, s.setLastId resolved entriesAdded (some id))
      | none => (.ok .ok, s.setLastId resolved entriesAdded none)

/-- `XREADGROUP` on a stream that has the group. -/
def xreadgroup (key : Key) (group consumer token : String) (count : Option Nat) (noack : Bool)
    (now : Nat) (s : StreamData) : Result (Option Reply) × StreamData :=
  let element := fun entries => Reply.array [.text key, entriesReply entries]
  if group ∉ s.groups then (fail (noGroup key group), s)
  else if token = ">" then
    match s.groupReadNew group consumer count now noack with
    | some (entries, s) => (.ok (if entries.isEmpty then none else some (element entries)), s)
    | none => (.error .panicked, s)
  else
    match if token = "0" ∨ token = "0-0" then some .minimum else parseId token 0 with
    | none => (fail invalidStreamId, s)
    | some start =>
      match s.groupReadHistory group consumer start count now with
      | some (entries, s) => (.ok (some (element entries)), s)
      | none => (.error .panicked, s)

end StreamData

/-! ## Handlers -/

namespace Handler

variable {env : Env} (db : Fin numDatabases) {P : Access env → Prop} {key : Key}

/-- Apply `f` to the stream under `key`, which is created if it is missing. -/
def upsertStream (key : Key) (f : StreamData → Result Reply × StreamData) : Handler env Reply :=
  Kind.stream.upsert (env.addr db key) key {} f

/-- `xadd_cmd`; the clock is read for an automatic id only. -/
def xaddCmd (key : Key) (id : String) (nomkstream : Bool) (maxlen : Option Nat)
    (fields : List StreamField) : Handler env Reply :=
  unlessAbsent nomkstream (env.addr db key) key (.ok .nil)
    (if id = "*" then do
      let now ← clock
      upsertStream db key (StreamData.xadd (fun s => some (s.nextAutoId now)) maxlen fields)
    else upsertStream db key (StreamData.xadd (StreamData.explicitId id) maxlen fields))

/-- `xdel_cmd`. -/
def xdelCmd (key : Key) (ids : List String) : Handler env Reply := do
  let ids ← ofExcept (StreamData.parseIds ids)
  Kind.stream.update (env.addr db key) key (pure (.integer 0)) fun s =>
    (.ok (.integer (s.delete ids).1), (s.delete ids).2)

/-- `xtrim_cmd`. -/
def xtrimCmd (key : Key) (maxlen : Nat) : Handler env Reply :=
  Kind.stream.update (env.addr db key) key (pure (.integer 0)) fun s =>
    (.ok (.integer (s.trimMaxlen maxlen).1), (s.trimMaxlen maxlen).2)

/-- `xsetid_cmd`. -/
def xsetidCmd (key : Key) (id : String) (entriesAdded : Option Nat) (maxDeleted : Option String) :
    Handler env Reply :=
  Kind.stream.update (env.addr db key) key (throw (.invalidCommandArguments "ERR no such key"))
    (StreamData.xsetid id entriesAdded maxDeleted)

/-- `xgroup_create_cmd`. -/
def xgroupCreateCmd (key : Key) (group id : String) (mkstream : Bool) : Handler env Reply :=
  unlessAbsent (!mkstream) (env.addr db key) key (Store.fail groupNeedsKey)
    (upsertStream db key (StreamData.xgroupCreate group id))

/-- The other subcommands of `XGROUP`, which need the key. -/
def xgroup (key : Key) (f : StreamData → Result Reply × StreamData) : Handler env Reply :=
  Kind.stream.update (env.addr db key) key (throw groupNeedsKey) f

/-- `xgroup_setid_cmd`. -/
def xgroupSetidCmd (key : Key) (group id : String) : Handler env Reply :=
  xgroup db key (StreamData.xgroupSetid key group id)

/-- `xgroup_destroy_cmd`. -/
def xgroupDestroyCmd (key : Key) (group : String) : Handler env Reply :=
  xgroup db key fun s => (.ok (.ofBool (s.destroyGroup group).1), (s.destroyGroup group).2)

/-- `xgroup_createconsumer_cmd`. -/
def xgroupCreateconsumerCmd (key : Key) (group consumer : String) : Handler env Reply := do
  let now ← clock
  xgroup db key (StreamData.inGroup key group .ofBool (·.createConsumer group consumer now))

/-- `xgroup_delconsumer_cmd`. -/
def xgroupDelconsumerCmd (key : Key) (group consumer : String) : Handler env Reply :=
  xgroup db key (StreamData.inGroup key group (fun n : Nat => .integer n)
    (·.delConsumer group consumer))

/-- `xreadgroup_one`; a value of another type counts as a missing group. -/
def xreadgroupOne (group consumer : String) (count : Option Nat) (noack : Bool) (now : Nat)
    (stream : Key × String) : Handler env (Option Reply) := do
  match ← look (env.addr db stream.1) stream.1 with
  | none => throw (noGroup stream.1 group)
  | some entry =>
    match Kind.stream.project entry.value with
    | some s =>
      let r := s.xreadgroup stream.1 group consumer stream.2 count noack now
      store (env.addr db stream.1) stream.1 (.stream r.2)
      ofExcept r.1
    | none => throw (noGroup stream.1 group)

/-- `xreadgroup_cmd`; an error at one stream leaves what was done to the streams before it. -/
def xreadgroupCmd (group consumer : String) (count : Option Nat) (noack : Bool)
    (streams : List (Key × String)) : Handler env Reply := do
  let now ← clock
  let elements ← collect (xreadgroupOne db group consumer count noack now) streams
  return if elements.all Option.isNone then .nil else .array (elements.filterMap id)

/-- `xack_cmd`. -/
def xackCmd (key : Key) (group : String) (ids : List String) : Handler env Reply := do
  let ids ← ofExcept (StreamData.parseIds ids)
  Kind.stream.update (env.addr db key) key (pure (.integer 0)) fun s =>
    match s.ack group ids with
    | some (acked, s) => (.ok (.integer acked), s)
    | none => (.ok (.integer 0), s)

/-- `xclaim_cmd`. -/
def xclaimCmd (key : Key) (group consumer : String) (ids : List String) (opt : ClaimOptions) :
    Handler env Reply := do
  let now ← clock
  let ids ← ofExcept (StreamData.parseIds ids)
  Kind.stream.update (env.addr db key) key (throw (noGroup key group))
    (StreamData.inGroup key group (StreamData.claimedReply opt.justid)
      (·.claim group consumer ids opt now))

/-- Reply of `xautoclaim_cmd`. -/
def autoclaimReply (justid : Bool) (result : StreamData.AutoclaimResult) : Reply :=
  .array [.text result.cursor.toRedisString, StreamData.claimedReply justid result.claimed,
    .array (result.deleted.map fun id => .text id.toRedisString)]

/-- `xautoclaim_cmd`. -/
def xautoclaimCmd (key : Key) (group consumer : String) (minIdle : Nat) (start : String)
    (count : Option Nat) (justid : Bool) : Handler env Reply := do
  let now ← clock
  match parseRangeStart start with
  | none => throw invalidStreamId
  | some start =>
    Kind.stream.update (env.addr db key) key (throw (noGroup key group))
      (StreamData.inGroup key group (autoclaimReply justid)
        (·.autoclaim group consumer minIdle start (count.getD 100) now justid))

/-! ## What the handlers use -/

theorem uses_xaddCmd (hc : Creates P (env.addr db key) key) {id : String}
    (ht : id = "*" → P .clock) (nomkstream : Bool) (maxlen : Option Nat)
    (fields : List StreamField) : Uses P (xaddCmd db key id nomkstream maxlen fields) := by
  refine uses_unlessAbsent hc.look _ _ ?_
  split
  · next hid => exact .bind (uses_clock (ht hid)) fun _ => Kind.uses_upsert hc _ _ _
  · exact Kind.uses_upsert hc _ _ _

theorem uses_xgroupCreateCmd (hc : Creates P (env.addr db key) key) (group id : String)
    (mkstream : Bool) :
    Uses P (xgroupCreateCmd db key group id mkstream) :=
  uses_unlessAbsent hc.look _ _ (Kind.uses_upsert hc _ _ _)

theorem uses_xgroup (hr : Reads P) (hw : Writes P key)
    (f : StreamData → Result Reply × StreamData) : Uses P (xgroup db key f) :=
  Kind.uses_update hr.look hw.store _ _ (.fail _) _

theorem uses_xreadgroupCmd {streams : List (Key × String)} (hr : Reads P)
    (hw : ∀ stream ∈ streams, Writes P stream.1) (ht : P .clock) (group consumer : String)
    (count : Option Nat) (noack : Bool) :
    Uses P (xreadgroupCmd db group consumer count noack streams) := by
  refine .bind (uses_clock ht) fun now => .bind (.collect fun stream hs => ?_) fun _ => .pure _
  refine .bind (uses_look hr.look _ _) fun e => ?_
  split
  · exact .fail _
  · split
    · exact .bind (uses_store (hw stream hs).store _ _) fun _ => .ofExcept _
    · exact .fail _

theorem uses_xclaimCmd (hr : Reads P) (hw : Writes P key) (ht : P .clock) (group consumer : String)
    (ids : List String) (opt : ClaimOptions) :
    Uses P (xclaimCmd db key group consumer ids opt) :=
  .bind (uses_clock ht) fun _ => .bind (.ofExcept _) fun _ =>
    Kind.uses_update hr.look hw.store _ _ (.fail _) _

theorem uses_xautoclaimCmd (hr : Reads P) (hw : Writes P key) (ht : P .clock)
    (group consumer : String) (minIdle : Nat) (start : String) (count : Option Nat)
    (justid : Bool) :
    Uses P (xautoclaimCmd db key group consumer minIdle start count justid) := by
  refine .bind (uses_clock ht) fun now => ?_
  split
  · exact .fail _
  · exact Kind.uses_update hr.look hw.store _ _ (.fail _) _

end Handler

end Calod.Store
