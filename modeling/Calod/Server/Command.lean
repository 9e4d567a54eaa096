import Calod.Store.Strings
import Calod.Store.Collections
import Calod.Store.StreamCommands
import Calod.Store.JsonCommands
import Calod.Store.Footprint

/-!
# Commands that change the store

The commands of `cld_srv/command.rs` with an entry in one of the two hand-kept lists of
`served_store.rs`: `should_log_to_wal`, which decides what is recorded in the log, and
`mutated_keys`, which decides whose watchers are told. Each family has its dispatch (`run`), its
part of the two lists, and a footprint with the keys of `mutated_keys`:

* `WriteCommand.uses_run` — every command stays within its footprint
-/

namespace Calod.Server

open Lib Store Store.Handler

variable {env : Env} {P : Access env → Prop}

/-! ## Keys and strings -/

inductive KeyCommand where
  | set (key : Key) (value : Bytes) (expireOption : Option SetExpireOption)
      (setOption : Option SetOption)
  | setNx (key : Key) (value : Bytes)
  | setEx (key : Key) (seconds : Nat) (value : Bytes)
  | pSetEx (key : Key) (milliseconds : Nat) (value : Bytes)
  | del (keys : List Key)
  | unlink (keys : List Key)
  | rename (key newKey : Key)
  | renameNx (key newKey : Key)
  | copy (source destination : Key) (destinationDb : Option Nat) (replace : Bool)
  | move (key : Key) (db : Nat)
  | expire (key : Key) (seconds : Nat)
  | pExpire (key : Key) (milliseconds : Nat)
  | expireAt (key : Key) (timestamp : Nat)
  | pExpireAt (key : Key) (millisecondsTimestamp : Nat)
  | persist (key : Key)
  | flushDb
  | flushAll
  | append (key : Key) (value : Bytes)
  | setRange (key : Key) (offset : Nat) (value : Bytes)
  | getSet (key : Key) (value : Bytes)
  | getDel (key : Key)
  | getEx (key : Key) (option : Option GetExOption)
  | mSet (keyValues : List (Key × Bytes))
  | mSetNx (keyValues : List (Key × Bytes))
  | incr (key : Key)
  | decr (key : Key)
  | incrBy (key : Key) (increment : Int)
  | decrBy (key : Key) (decrement : Int)
  | incrByFloat (key : Key) (increment : F64)
  | setBit (key : Key) (offset : Nat) (value : UInt8)
  | bitOp (op : BitOperation) (dest : Key) (keys : List Key)
  | pfAdd (key : Key) (elements : List Bytes)
  | pfMerge (dest : Key) (sources : List Key)

namespace KeyCommand

variable (db : Fin numDatabases)

def outOfRange : CacheError := .invalidCommandArguments "ERR DB index is out of range"

/-- `COPY` to another database. -/
def copyAcross (source destination : Key) (target : Nat) (replace : Bool) : Handler env Reply :=
  if h : target < numDatabases then do
    if ← existsIf (!replace) (env.addr ⟨target, h⟩ destination) destination then
      return .integer 0
    else
      return .ofBool (← copyEntry (env.addr db source) source
        (env.addr ⟨target, h⟩ destination) destination)
  else throw outOfRange

/-- `COPY`. -/
def copyTo (source destination : Key) (replace : Bool) : Option Nat → Handler env Reply
  | none => copyCmd db source destination replace
  | some target =>
    if target = db then copyCmd db source destination replace
    else copyAcross db source destination target replace

/-- `MOVE`, given the errors for the same database and for one that does not exist. -/
def moveTo (same invalid : CacheError) (key : Key) (target : Nat) : Handler env Reply :=
  if target = db then throw same
  else if h : target < numDatabases then do
    if ← exists_ (env.addr ⟨target, h⟩ key) key then return .integer 0
    else return .ofBool (← moveEntry (env.addr db key) key (env.addr ⟨target, h⟩ key) key)
  else throw invalid

def sameObject : CacheError :=
  .invalidCommandArguments "ERR source and destination objects are the same"

/-- `MSETNX`. -/
def mSetNxChecked (keyValues : List (Key × Bytes)) : Handler env Reply :=
  if keyValues = [] then
    throw (.invalidCommandArguments "ERR wrong number of arguments for 'msetnx' command")
  else msetnxCmd db keyValues

/-- The answer of `SET`, where `blocked` is what to say if the option forbids it. -/
def setReply (blocked : Reply) (done : Bool) : Reply := if done then .ok else blocked

/-- The arms of `execute_inner`. -/
def run : KeyCommand → Handler env Reply
  | .set key value expireOption setOption => do
    return setReply .nil (← setCmd db key value expireOption setOption)
  | .setNx key value => setnxCmd db key value
  | .setEx key seconds value => do
    return setReply .ok (← setCmd db key value (some (.ex seconds)) none)
  | .pSetEx key milliseconds value => do
    return setReply .ok (← setCmd db key value (some (.px milliseconds)) none)
  | .del keys => delCmd db keys
  | .unlink keys => unlinkCmd db keys
  | .rename key newKey => renameCmd db key newKey false
  | .renameNx key newKey => renameCmd db key newKey true
  | .copy source destination destinationDb replace =>
    copyTo db source destination replace destinationDb
  | .move key target => moveTo db sameObject outOfRange key target
  | .expire key seconds => expireCmd db key seconds
  | .pExpire key milliseconds => pexpireCmd db key milliseconds
  | .expireAt key timestamp => expireatCmd db key timestamp
  | .pExpireAt key milliseconds => pexpireatCmd db key milliseconds
  | .persist key => persistCmd db key
  | .flushDb => flushdbCmd db
  | .flushAll => do
    Prog.each (fun db => do let _ ← flushdbCmd db) (List.finRange numDatabases)
    return .ok
  | .append key value => appendCmd db key value
  | .setRange key offset value => setrangeCmd db key offset value
  | .getSet key value => getsetCmd db key value
  | .getDel key => getdelCmd db key
  | .getEx key option => getexCmd db key option
  | .mSet keyValues => msetCmd db keyValues
  | .mSetNx keyValues => mSetNxChecked db keyValues
  | .incr key => incrCmd db key
  | .decr key => decrCmd db key
  | .incrBy key increment => incrbyCmd db key increment
  | .decrBy key decrement => decrbyCmd db key decrement
  | .incrByFloat key increment => incrbyfloatCmd db key increment
  | .setBit key offset value => setbitCmd db key offset value
  | .bitOp op dest keys => bitopCmd db op dest keys
  | .pfAdd key elements => pfaddCmd db key elements
  | .pfMerge dest sources => pfmergeCmd db dest sources

/-- `mutated_keys`. -/
def mutatedKeys : KeyCommand → List Key
  | .set key .. | .setNx key _ | .setEx key .. | .pSetEx key .. => [key]
  | .del keys | .unlink keys => keys
  | .rename key newKey | .renameNx key newKey => [key, newKey]
  | .copy _ destination .. => [destination]
  | .move key _ => [key]
  | .expire key _ | .pExpire key _ | .expireAt key _ | .pExpireAt key _ | .persist key => [key]
  | .flushDb | .flushAll => []
  | .append key _ | .setRange key .. | .getSet key _ | .getDel key | .getEx key _ => [key]
  | .mSet keyValues | .mSetNx keyValues => keyValues.map Prod.fst
  | .incr key | .decr key | .incrBy key _ | .decrBy key _ | .incrByFloat key _ => [key]
  | .setBit key .. | .pfAdd key _ => [key]
  | .bitOp _ dest _ | .pfMerge dest _ => [dest]

/-- `should_log_to_wal`. -/
def shouldLogToWal : KeyCommand → Bool
  | .getEx _ option => option.isSome
  | _ => true

/-- Does the command write an expiry time? -/
def setsExpiry : KeyCommand → Bool
  | .set _ _ expireOption _ => expireOption.isSome
  | .setEx .. | .pSetEx .. | .expire .. | .pExpire .. | .expireAt .. | .pExpireAt .. => true
  | .getEx _ (some .persist) => false
  | .getEx _ option => option.isSome
  | _ => false

/-- Does the command clear whole databases? -/
def flushes : KeyCommand → Bool
  | .flushDb | .flushAll => true
  | _ => false

def footprint (cmd : KeyCommand) : Footprint where
  keys := cmd.mutatedKeys
  expiry := cmd.setsExpiry
  flushes := cmd.flushes

section

variable {J : ∀ α : Type, Handler env α → Prop}

theorem queries_copyTo (hJ : Queries J) {source destination : Key}
    (hl : ∀ b a value, J _ (setLike b source a destination value))
    (hc : ∀ b a, J _ (copyEntry b source a destination)) (replace : Bool) (target : Option Nat) :
    J _ (copyTo db source destination replace target) := by
  unfold copyTo
  split
  · exact hJ.copyCmd db hl replace
  split
  · exact hJ.copyCmd db hl replace
  unfold copyAcross
  split
  · refine hJ.bind (hJ.existsIf _ _ _) fun taken => ?_
    split
    · exact hJ.pure _
    · exact hJ.bind (hc _ _) fun _ => hJ.pure _
  · exact hJ.ofExcept _

theorem queries_mSetNxChecked (hJ : Queries J) {keyValues : List (Key × Bytes)}
    (hs : ∀ kv ∈ keyValues, ∀ a, J _ (Handler.set a kv.1 (.string kv.2) none)) :
    J _ (mSetNxChecked db keyValues) := by
  unfold mSetNxChecked
  split
  · exact hJ.ofExcept _
  · exact hJ.msetnxCmd db hs

theorem looks_flushAll (hJ : Looks J) (hc : ∀ a, J _ (clearAll a)) : J _ (flushAll.run db) :=
  hJ.bind (hJ.each fun db _ => hJ.bind (hJ.flushdbCmd db hc) fun _ => hJ.pure _) fun _ => hJ.pure _

end

theorem uses_moveTo {key : Key} (hr : Reads P) (hm : ∀ b a, P (.moveEntry b key a key))
    (same invalid : CacheError) (target : Nat) : Uses P (moveTo db same invalid key target) := by
  unfold moveTo
  split
  · exact .fail _
  split
  · refine .bind (uses_exists hr _ _) fun taken => ?_
    split
    · exact .pure _
    · exact .bind (.op (Access.moveEntry _ key _ key) (hm _ _)) fun _ => .pure _
  · exact .fail _

theorem uses_run (cmd : KeyCommand) :
    Uses (cmd.footprint.Allows db) (cmd.run db : Handler env Reply) := by
  have hr : Reads (cmd.footprint.Allows db : Access env → Prop) := Footprint.reads rfl
  have hw : ∀ key ∈ cmd.mutatedKeys, Writes (cmd.footprint.Allows db : Access env → Prop) key :=
    fun _ hk => Footprint.writes hk rfl
  have hx : ∀ key ∈ cmd.mutatedKeys, cmd.setsExpiry = true →
      Expires (cmd.footprint.Allows db : Access env → Prop) key :=
    fun _ hk he => Footprint.expires hk rfl he
  have hself : ∀ {key} {rest : List Key}, key ∈ key :: rest := List.mem_cons_self
  cases cmd with
  | set key value expireOption setOption =>
    refine .bind (hr.queries.setCmd db (fun a => ?_) setOption) fun _ => .pure _
    cases expireOption with
    | none => exact uses_set (hw key hself) a _
    | some e => exact .op (Access.set a key _ _) ((hx key hself rfl).set _ _ _)
  | setNx key value => exact hr.queries.setnxCmd db fun a => uses_set (hw key hself) a _
  | setEx key | pSetEx key =>
    refine .bind (hr.queries.setCmd db (fun a => ?_) none) fun _ => .pure _
    exact .op (Access.set a key _ _) ((hx key hself rfl).set _ _ _)
  | del | unlink => exact hr.queries.delCmd db fun key hk => uses_delete (hw key hk) _
  | rename key newKey => exact uses_renameCmd db hr (fun _ _ => ⟨hself, .tail _ hself, rfl⟩) false
  | renameNx key newKey => exact uses_renameCmd db hr (fun _ _ => ⟨hself, .tail _ hself, rfl⟩) true
  | copy source destination destinationDb replace =>
    exact queries_copyTo db hr.queries
      (fun b a value => .op (Access.setLike b source a destination value) ⟨hself, rfl⟩)
      (fun b a => .op (Access.copyEntry b source a destination) ⟨hself, rfl⟩) replace _
  | move key target => exact uses_moveTo db hr (fun _ _ => ⟨hself, hself, rfl⟩) _ _ target
  | expire key seconds => exact uses_expireCmd db (hx key hself rfl) seconds
  | pExpire key milliseconds => exact uses_pexpireCmd db (hx key hself rfl) milliseconds
  | expireAt key | pExpireAt key =>
    exact uses_setExpiryOrFail db fun a => (hx key hself rfl).setExpiry a _
  | persist key => exact uses_setExpiryOrFail db (hw key hself).persist
  | flushDb => exact hr.queries.flushdbCmd db fun a => .op (Access.clearAll a) ⟨rfl, rfl⟩
  | flushAll =>
    exact looks_flushAll db hr.queries.toLooks fun a => .op (Access.clearAll a) ⟨rfl, rfl⟩
  | append key | incrByFloat key =>
    exact Kind.uses_update hr.look (hw key hself).store _ _
      (.bind (uses_set (hw key hself) _ _) fun _ => .pure _) _
  | setRange key offset value => exact uses_setrangeCmd db hr (hw key hself) offset value
  | getSet key value => exact hr.queries.getsetCmd db fun a => uses_set (hw key hself) a _
  | getDel key =>
    exact hr.queries.getdelCmd db fun a _ => .bind (uses_delete (hw key hself) a) fun _ => .pure _
  | getEx key option =>
    refine uses_getexCmd db hr fun o ho => ⟨hw key hself, ?_⟩
    subst ho
    cases o with
    | persist => exact .inl rfl
    | _ => exact .inr (hx key hself rfl)
  | mSet keyValues =>
    refine .bind (hr.queries.setEach db (fun kv hkv a => ?_) _) fun _ => .pure _
    exact uses_set (hw kv.1 (List.mem_map_of_mem hkv)) a _
  | mSetNx keyValues =>
    refine queries_mSetNxChecked db hr.queries fun kv hkv a => ?_
    exact uses_set (hw kv.1 (List.mem_map_of_mem hkv)) a _
  | incr key | decr key | decrBy key => exact uses_incrbyCmd db hr (hw key hself) _
  | incrBy key increment => exact uses_incrbyCmd db hr (hw key hself) increment
  | setBit key offset value => exact uses_setbitCmd db hr (hw key hself) offset value
  | bitOp op dest keys =>
    exact hr.queries.bitopCmd db op keys
      (fun a _ => .bind (uses_delete (hw dest hself) a) fun _ => .pure _)
      (uses_set (hw dest hself))
  | pfAdd key elements => exact uses_pfaddCmd db hr (hw key hself) elements
  | pfMerge dest sources => exact hr.queries.pfmergeCmd db (uses_set (hw dest hself)) sources

end KeyCommand

/-! ## Collections -/

inductive CollectionCommand where
  | sAdd (key : Key) (members : List Bytes)
  | sRem (key : Key) (members : List Bytes)
  | sPop (key : Key) (count : Option Nat)
  | hSet (key : Key) (fieldValues : List (Bytes × Bytes))
  | hDel (key : Key) (fields : List Bytes)
  | hIncrBy (key : Key) (field : Bytes) (increment : Int)
  | hIncrByFloat (key : Key) (keyFieldIncrement : List (Bytes × F64))
  | hMSet (key : Key) (fieldValues : List (Bytes × Bytes))
  | hSetNx (key : Key) (field value : Bytes)
  | listLPush (key : Key) (values : List Bytes)
  | listRPush (key : Key) (values : List Bytes)
  | lPop (key : Key)
  | rPop (key : Key)
  | lInsert (key : Key) (beforeAfter : InsertOption) (pivot value : Bytes)
  | lSet (key : Key) (index : Int) (value : Bytes)
  | lTrim (key : Key) (start stop : Int)
  | lRem (key : Key) (count : Int) (value : Bytes)
  | rPopLPush (source destination : Key)
  | bLPop (keys : List Key) (timeout : F64)
  | bRPop (keys : List Key) (timeout : F64)
  | zAdd (key : Key) (flags : ZAddFlags) (members : List (F64 × Bytes))
  | zIncrBy (key : Key) (increment : F64) (member : Bytes)
  | zRem (key : Key) (members : List Bytes)
  | zPopMin (key : Key) (count : Option Nat)
  | zPopMax (key : Key) (count : Option Nat)
  | zRemRangeByRank (key : Key) (start stop : Int)
  | zRemRangeByScore (key : Key) (min max : String)
  | zRemRangeByLex (key : Key) (min max : String)
  | geoAdd (key : Key) (nx xx ch : Bool) (items : List (F64 × F64 × Bytes))

namespace CollectionCommand

variable (db : Fin numDatabases)

/-- The arms of `execute_inner`. -/
def run : CollectionCommand → Handler env Reply
  | .sAdd key members => saddCmd db key members
  | .sRem key members => sremCmd db key members
  | .sPop key count => spopCmd db key count
  | .hSet key fieldValues => hsetCmd db key fieldValues
  | .hDel key fields => hdelCmd db key fields
  | .hIncrBy key field increment => hincrbyCmd db key field increment
  | .hIncrByFloat key increments => hincrbyfloatCmd db key increments
  | .hMSet key fieldValues => hmsetCmd db key fieldValues
  | .hSetNx key field value => hsetnxCmd db key field value
  | .listLPush key values => lpushCmd db key values
  | .listRPush key values => rpushCmd db key values
  | .lPop key => lpopCmd db key
  | .rPop key => rpopCmd db key
  | .lInsert key option pivot value => linsertCmd db key option pivot value
  | .lSet key index value => lsetCmd db key index value
  | .lTrim key start stop => ltrimCmd db key start stop
  | .lRem key count value => lremCmd db key count value
  | .rPopLPush source destination => rpoplpushCmd db source destination
  | .bLPop keys timeout => blpopCmd db keys timeout
  | .bRPop keys timeout => brpopCmd db keys timeout
  | .zAdd key flags members => zaddCmd db key flags members
  | .zIncrBy key increment member => zincrbyCmd db key increment member
  | .zRem key members => zremCmd db key members
  | .zPopMin key count => zpopminCmd db key count
  | .zPopMax key count => zpopmaxCmd db key count
  | .zRemRangeByRank key start stop => zremrangebyrankCmd db key start stop
  | .zRemRangeByScore key min max => zremrangebyscoreCmd db key min max
  | .zRemRangeByLex key min max => zremrangebylexCmd db key min max
  | .geoAdd key nx xx ch items => geoaddCmd db key nx xx ch items

/-- `mutated_keys`. -/
def mutatedKeys : CollectionCommand → List Key
  | .sAdd key _ | .sRem key _ | .sPop key _ => [key]
  | .hSet key _ | .hDel key _ | .hIncrBy key .. | .hIncrByFloat key _ | .hMSet key _
  | .hSetNx key .. => [key]
  | .listLPush key _ | .listRPush key _ | .lPop key | .rPop key | .lInsert key .. | .lSet key ..
  | .lTrim key .. | .lRem key .. => [key]
  | .rPopLPush source destination => [source, destination]
  | .bLPop keys _ | .bRPop keys _ => keys
  | .zAdd key .. | .zIncrBy key .. | .zRem key _ | .zPopMin key _ | .zPopMax key _
  | .zRemRangeByRank key .. | .zRemRangeByScore key .. | .zRemRangeByLex key .. => [key]
  | .geoAdd key .. => [key]

/-- `should_log_to_wal`. -/
def shouldLogToWal : CollectionCommand → Bool
  | .bLPop .. | .bRPop .. => false
  | _ => true

/-- The keys that the command may create. -/
def creates : CollectionCommand → List Key
  | .sAdd key _ | .hSet key _ | .hIncrBy key .. | .hIncrByFloat key _ | .hMSet key _
  | .hSetNx key .. | .listLPush key _ | .listRPush key _ | .rPopLPush _ key | .zAdd key ..
  | .zIncrBy key .. | .geoAdd key .. => [key]
  | _ => []

def footprint (cmd : CollectionCommand) : Footprint where
  keys := cmd.mutatedKeys
  creates := cmd.creates
  order := cmd matches .sPop ..

theorem uses_run (cmd : CollectionCommand) :
    Uses (cmd.footprint.Allows db) (cmd.run db : Handler env Reply) := by
  obtain ⟨hr, hw, hc⟩ := cmd.footprint.allowed env db
  have hself : ∀ {key} {rest : List Key}, key ∈ key :: rest := List.mem_cons_self
  cases cmd with
  | sAdd key | hSet key | hIncrBy key | hIncrByFloat key | hMSet key | hSetNx key
  | listLPush key | listRPush key => exact Kind.uses_upsert (hc key hself hself) _ _ _
  | sRem key | hDel key | lInsert key | lTrim key | lRem key =>
    exact Kind.uses_update (hr rfl).look (hw rfl key hself).store _ _ (.pure _) _
  | sPop key count => exact uses_spopCmd db (hr rfl) (hw rfl key hself) (fun _ => rfl) count
  | lPop key => exact uses_lpopAt (hr rfl).look (hw rfl key hself).store _
  | rPop key => exact uses_rpopAt (hr rfl).look (hw rfl key hself).store _
  | lSet key =>
    exact Kind.uses_update (hr rfl).look (hw rfl key hself).store _ _ (.fail _) _
  | rPopLPush source destination =>
    exact uses_rpoplpushCmd db (fun _ _ => hself) (hc destination (.tail _ hself) hself)
  | bLPop keys timeout =>
    exact uses_blockingPop db (fun a key hk => uses_lpopAt (hr rfl).look (hw rfl key hk).store a) _
  | bRPop keys timeout =>
    exact uses_blockingPop db (fun a key hk => uses_rpopAt (hr rfl).look (hw rfl key hk).store a) _
  | zAdd key flags members => exact uses_zaddCmd db (hc key hself hself) flags members
  | zIncrBy key increment member => exact uses_zincrbyCmd db (hc key hself hself) increment member
  | zRem key | zPopMin key | zPopMax key | zRemRangeByRank key =>
    exact uses_shrink db (hr rfl) (hw rfl key hself) _ _
  | zRemRangeByScore key min max =>
    exact uses_zremrangebyscoreCmd db (hr rfl) (hw rfl key hself) min max
  | zRemRangeByLex key min max =>
    exact uses_zremrangebylexCmd db (hr rfl) (hw rfl key hself) min max
  | geoAdd key nx xx ch items => exact uses_geoaddCmd db (hc key hself hself) nx xx ch items

end CollectionCommand

/-! ## Streams -/

inductive StreamCommand where
  | xAdd (key : Key) (id : String) (nomkstream : Bool) (maxlen : Option Nat)
      (fields : List StreamField)
  | xDel (key : Key) (ids : List String)
  | xTrim (key : Key) (maxlen : Nat)
  | xSetId (key : Key) (id : String) (entriesAdded : Option Nat) (maxDeletedId : Option String)
  | xGroupCreate (key : Key) (group id : String) (mkstream : Bool)
  | xGroupSetId (key : Key) (group id : String)
  | xGroupDestroy (key : Key) (group : String)
  | xGroupCreateConsumer (key : Key) (group consumer : String)
  | xGroupDelConsumer (key : Key) (group consumer : String)
  | xReadGroup (group consumer : String) (count : Option Nat) (noack : Bool)
      (streams : List (Key × String))
  | xAck (key : Key) (group : String) (ids : List String)
  | xClaim (key : Key) (group consumer : String) (ids : List String) (options : ClaimOptions)
  | xAutoClaim (key : Key) (group consumer : String) (minIdle : Nat) (start : String)
      (count : Option Nat) (justid : Bool)

namespace StreamCommand

variable (db : Fin numDatabases)

/-- The arms of `execute_inner`. -/
def run : StreamCommand → Handler env Reply
  | .xAdd key id nomkstream maxlen fields => xaddCmd db key id nomkstream maxlen fields
  | .xDel key ids => xdelCmd db key ids
  | .xTrim key maxlen => xtrimCmd db key maxlen
  | .xSetId key id entriesAdded maxDeletedId => xsetidCmd db key id entriesAdded maxDeletedId
  | .xGroupCreate key group id mkstream => xgroupCreateCmd db key group id mkstream
  | .xGroupSetId key group id => xgroupSetidCmd db key group id
  | .xGroupDestroy key group => xgroupDestroyCmd db key group
  | .xGroupCreateConsumer key group consumer => xgroupCreateconsumerCmd db key group consumer
  | .xGroupDelConsumer key group consumer => xgroupDelconsumerCmd db key group consumer
  | .xReadGroup group consumer count noack streams =>
    xreadgroupCmd db group consumer count noack streams
  | .xAck key group ids => xackCmd db key group ids
  | .xClaim key group consumer ids options => xclaimCmd db key group consumer ids options
  | .xAutoClaim key group consumer minIdle start count justid =>
    xautoclaimCmd db key group consumer minIdle start count justid

/-- `mutated_keys`. -/
def mutatedKeys : StreamCommand → List Key
  | .xAdd key .. | .xDel key _ | .xTrim key _ | .xSetId key .. | .xGroupCreate key ..
  | .xGroupSetId key .. | .xGroupDestroy key _ | .xGroupCreateConsumer key ..
  | .xGroupDelConsumer key .. | .xAck key .. | .xClaim key .. | .xAutoClaim key .. => [key]
  | .xReadGroup _ _ _ _ streams => streams.map Prod.fst

/-- `should_log_to_wal`; the groups of a stream are not logged. -/
def shouldLogToWal : StreamCommand → Bool
  | .xAdd .. | .xDel .. | .xTrim .. | .xSetId .. => true
  | _ => false

/-- The keys that the command may create. -/
def creates : StreamCommand → List Key
  | .xAdd key .. | .xGroupCreate key .. => [key]
  | _ => []

/-- Does the effect depend on the clock? -/
def readsClock : StreamCommand → Bool
  | .xAdd _ id .. => id = "*"
  | .xGroupCreateConsumer .. | .xReadGroup .. | .xClaim .. | .xAutoClaim .. => true
  | _ => false

def footprint (cmd : StreamCommand) : Footprint where
  keys := cmd.mutatedKeys
  creates := cmd.creates
  clock := cmd.readsClock

theorem uses_run (cmd : StreamCommand) :
    Uses (cmd.footprint.Allows db) (cmd.run db : Handler env Reply) := by
  obtain ⟨hr, hw, hc⟩ := cmd.footprint.allowed env db
  have hself : ∀ {key} {rest : List Key}, key ∈ key :: rest := List.mem_cons_self
  cases cmd with
  | xAdd key id nomkstream maxlen fields =>
    exact uses_xaddCmd db (hc key hself hself) (fun h => decide_eq_true h) nomkstream maxlen fields
  | xDel key | xAck key =>
    exact .bind (.ofExcept _) fun _ =>
      Kind.uses_update (hr rfl).look (hw rfl key hself).store _ _ (.pure _) _
  | xTrim key maxlen =>
    exact Kind.uses_update (hr rfl).look (hw rfl key hself).store _ _ (.pure _) _
  | xSetId key id entriesAdded maxDeletedId =>
    exact Kind.uses_update (hr rfl).look (hw rfl key hself).store _ _ (.fail _) _
  | xGroupCreate key group id mkstream =>
    exact uses_xgroupCreateCmd db (hc key hself hself) group id mkstream
  | xGroupSetId key | xGroupDestroy key | xGroupDelConsumer key =>
    exact uses_xgroup db (hr rfl) (hw rfl key hself) _
  | xGroupCreateConsumer key group consumer =>
    exact .bind (uses_clock rfl) fun _ => uses_xgroup db (hr rfl) (hw rfl key hself) _
  | xReadGroup group consumer count noack streams =>
    refine uses_xreadgroupCmd db (hr rfl) (fun stream hs => ?_) rfl group consumer count noack
    exact hw rfl stream.1 (List.mem_map_of_mem hs)
  | xClaim key group consumer ids options =>
    exact uses_xclaimCmd db (hr rfl) (hw rfl key hself) rfl group consumer ids options
  | xAutoClaim key group consumer minIdle start count justid =>
    exact uses_xautoclaimCmd db (hr rfl) (hw rfl key hself) rfl group consumer minIdle start count
      justid

end StreamCommand

/-! ## Documents -/

inductive JsonCommand where
  | jsonSet (key : Key) (path value : String)
  | jsonDel (key : Key) (path : String)
  | jsonNumIncrBy (key : Key) (path : String) (increment : F64)
  | jsonStrAppend (key : Key) (path value : String)
  | jsonArrAppend (key : Key) (path : String) (values : List String)
  | jsonObjSet (key : Key) (path keyToSet value : String)
  | jsonArrInsert (key : Key) (path : String) (index : Int) (values : List String)
  | jsonArrPop (key : Key) (path : String) (index : Option Int)
  | jsonArrTrim (key : Key) (path : String) (start stop : Int)

namespace JsonCommand

variable (db : Fin numDatabases)

/-- The arms of `execute_inner`. -/
def run : JsonCommand → Handler env Reply
  | .jsonSet key path value => jsonSetCmd db key path value
  | .jsonDel key path => jsonDelCmd db key path
  | .jsonNumIncrBy key path increment => jsonNumincrbyCmd db key path increment
  | .jsonStrAppend key path value => jsonStrappendCmd db key path value
  | .jsonArrAppend key path values => jsonArrappendCmd db key path values
  | .jsonObjSet key path keyToSet value => jsonObjsetCmd db key path keyToSet value
  | .jsonArrInsert key path index values => jsonArrinsertCmd db key path index values
  | .jsonArrPop key path index => jsonArrpopCmd db key path index
  | .jsonArrTrim key path start stop => jsonArrtrimCmd db key path start stop

/-- `mutated_keys`. -/
def mutatedKeys : JsonCommand → List Key
  | .jsonSet key .. | .jsonDel key _ | .jsonNumIncrBy key .. | .jsonStrAppend key ..
  | .jsonArrAppend key .. | .jsonObjSet key .. | .jsonArrInsert key .. | .jsonArrPop key ..
  | .jsonArrTrim key .. => [key]

/-- The keys that the command may create. -/
def creates : JsonCommand → List Key
  | .jsonSet key .. => [key]
  | _ => []

def footprint (cmd : JsonCommand) : Footprint where
  keys := cmd.mutatedKeys
  creates := cmd.creates

theorem uses_run (cmd : JsonCommand) :
    Uses (cmd.footprint.Allows db) (cmd.run db : Handler env Reply) := by
  have hl : ∀ a key, cmd.footprint.Allows db (Access.look a key : Access env) :=
    fun _ _ => trivial
  have hs : ∀ key ∈ cmd.mutatedKeys, ∀ a value,
      cmd.footprint.Allows db (Access.store a key value : Access env) := fun _ hk _ _ => hk
  have hself : ∀ {key} {rest : List Key}, key ∈ key :: rest := List.mem_cons_self
  cases cmd with
  | jsonSet key path value => exact uses_jsonSetCmd db (Footprint.createsAt hself hself) path value
  | jsonDel key | jsonNumIncrBy key | jsonStrAppend key | jsonArrAppend key | jsonArrInsert key
  | jsonArrPop key | jsonArrTrim key => exact uses_onDocument db hl (hs key hself) _ _
  | jsonObjSet key path keyToSet value =>
    exact uses_jsonObjsetCmd db hl (hs key hself) path keyToSet value

end JsonCommand

/-! ## All of them -/

inductive WriteCommand where
  | key (cmd : KeyCommand)
  | collection (cmd : CollectionCommand)
  | stream (cmd : StreamCommand)
  | json (cmd : JsonCommand)

namespace WriteCommand

def run (db : Fin numDatabases) : WriteCommand → Handler env Reply
  | .key cmd => cmd.run db
  | .collection cmd => cmd.run db
  | .stream cmd => cmd.run db
  | .json cmd => cmd.run db

/-- `mutated_keys`. -/
def mutatedKeys : WriteCommand → List Key
  | .key cmd => cmd.mutatedKeys
  | .collection cmd => cmd.mutatedKeys
  | .stream cmd => cmd.mutatedKeys
  | .json cmd => cmd.mutatedKeys

/-- `should_log_to_wal`. -/
def shouldLogToWal : WriteCommand → Bool
  | .key cmd => cmd.shouldLogToWal
  | .collection cmd => cmd.shouldLogToWal
  | .stream cmd => cmd.shouldLogToWal
  | .json _ => true

def footprint : WriteCommand → Footprint
  | .key cmd => cmd.footprint
  | .collection cmd => cmd.footprint
  | .stream cmd => cmd.footprint
  | .json cmd => cmd.footprint

/-- **Every command stays within its footprint.** -/
theorem uses_run (db : Fin numDatabases) (cmd : WriteCommand) :
    Uses (cmd.footprint.Allows db) (cmd.run db : Handler env Reply) := by
  cases cmd with
  | key cmd | collection cmd | stream cmd | json cmd => exact cmd.uses_run db

/-- The keys that the watchers are told of are those of the footprint. -/
theorem footprint_keys (cmd : WriteCommand) : cmd.footprint.keys = cmd.mutatedKeys := by
  cases cmd <;> rfl

end WriteCommand

end Calod.Server
