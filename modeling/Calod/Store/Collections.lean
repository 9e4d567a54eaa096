import Calod.Store.Shard

/-!
# Hash, list, set and sorted set commands

The handlers of `calod_shard.rs` that change collections. Each command is a function on the value,
which says what it replies and what it leaves behind, and a handler that applies it to a key. The
commands that create a missing key do so before they look at its type, and do not count it.
-/

namespace Calod.Store

open Lib Prog

/-! ## Hashes -/

abbrev Fields := Map Bytes Bytes

namespace Fields

/-- Set the fields; the number counts those that are new. -/
def setAll (fields : Fields) (fieldValues : List (Bytes × Bytes)) : Nat × Fields :=
  fieldValues.foldl (fun state fv =>
    (if fv.1 ∈ state.2 then state.1 else state.1 + 1, state.2.insert fv.1 fv.2)) (0, fields)

/-- Remove the fields; the number counts those that were there. -/
def removeAll (fields : Fields) (names : List Bytes) : Nat × Fields :=
  names.foldl (fun state name =>
    (if name ∈ state.2 then state.1 + 1 else state.1, state.2.erase name)) (0, fields)

/-- `HINCRBY`. -/
def incrby (field : Bytes) (increment : Int) (fields : Fields) : Result Reply × Fields :=
  match (fields[field]?.map integerText).getD (some 0) with
  | some n =>
    let sum := wrapI64 (n + increment)
    (.ok (.integer sum), fields.insert field (Serde.utf8 (toString sum)))
  | none => (fail .notAnInteger, fields)

/-- `HINCRBYFLOAT`; a field that is no number ends the loop, and what was stored before it stays. -/
def incrbyfloat (platform : Platform) : List (Bytes × F64) → Fields → Fields → Result Reply × Fields
  | [], response, fields => (.ok (.hash response), fields)
  | (field, increment) :: rest, response, fields =>
    match (fields[field]?.map platform.floatText).getD (some .zero) with
    | some x =>
      let text := Serde.utf8 (platform.displayF64 (platform.add x increment))
      incrbyfloat platform rest (response.insert field text) (fields.insert field text)
    | none => (fail .invalidScoreFormat, fields)

/-- `HSETNX`. -/
def setnx (field value : Bytes) (fields : Fields) : Result Reply × Fields :=
  if field ∈ fields then (.ok (.integer 0), fields)
  else (.ok (.integer 1), fields.insert field value)

end Fields

/-! ## Lists -/

inductive InsertOption where
  | before
  | after
  deriving DecidableEq, Repr

namespace Items

/-- Pop the head. -/
def lpop : List Bytes → Result Reply × List Bytes
  | [] => (.ok .nil, [])
  | value :: rest => (.ok (.string value), rest)

/-- Pop the last element. -/
def rpop (items : List Bytes) : Result Reply × List Bytes :=
  match items.getLast? with
  | none => (.ok .nil, items)
  | some value => (.ok (.string value), items.dropLast)

/-- `LINSERT`. -/
def linsert (option : InsertOption) (pivot value : Bytes) (items : List Bytes) :
    Result Reply × List Bytes :=
  match items.findIdx? (· = pivot) with
  | some i =>
    let items := items.insertIdx (if option = .before then i else i + 1) value
    (.ok (.integer items.length), items)
  | none => (.ok (.integer (-1)), items)

/-- `LSET`. -/
def lset (index : Int) (value : Bytes) (items : List Bytes) : Result Reply × List Bytes :=
  let pos := if index < 0 then index + items.length else index
  if pos < 0 ∨ (items.length : Int) ≤ pos then (fail .indexOutOfRange, items)
  else (.ok .ok, items.set pos.toNat value)

/-- An index of `LTRIM`, counted from the end if negative and cut at the length. -/
def trimIndex (index : Int) (len : Nat) : Nat :=
  min (if index < 0 then index + len else index).toNat len

/-- `LTRIM`; the inclusive slice panics if its end is the length. -/
def ltrim (start stop : Int) (items : List Bytes) : Result Reply × List Bytes :=
  let lo := trimIndex start items.length
  let hi := trimIndex stop items.length
  if hi < lo then (.ok .ok, [])
  else if hi = items.length then (.error .panicked, items)
  else (.ok .ok, (items.drop lo).take (hi - lo + 1))

/-- Remove the first occurrences of `value`, at most `count`. -/
def removeFirst (value : Bytes) : Nat → List Bytes → List Bytes
  | 0, items => items
  | _ + 1, [] => []
  | count + 1, item :: rest =>
    if item = value then removeFirst value count rest
    else item :: removeFirst value (count + 1) rest

/-- `LREM`; a negative count starts at the tail. -/
def lrem (count : Int) (value : Bytes) (items : List Bytes) : Result Reply × List Bytes :=
  let left :=
    if 0 < count then removeFirst value count.toNat items
    else if count < 0 then (removeFirst value count.natAbs items.reverse).reverse
    else items.filter (· ≠ value)
  (.ok (.integer ↑(items.length - left.length)), left)

end Items

/-! ## Sets -/

abbrev Members := Map Bytes Unit

namespace Members

def add (members : Members) (items : List Bytes) : Nat × Members :=
  items.foldl (fun state item =>
    (if item ∈ state.2 then state.1 else state.1 + 1, state.2.insert item ())) (0, members)

def removeAll (members : Members) (items : List Bytes) : Nat × Members :=
  items.foldl (fun state item =>
    (if item ∈ state.2 then state.1 + 1 else state.1, state.2.erase item)) (0, members)

end Members

/-! ## Sorted sets -/

structure ZAddFlags where
  nx : Bool
  xx : Bool
  gt : Bool
  lt : Bool
  ch : Bool
  incr : Bool
  deriving DecidableEq, Repr

namespace SortedSetData

/-- Do `GT` and `LT` keep a member at its old score? -/
def keepsOld (flags : ZAddFlags) (score old : F64) : Bool :=
  flags.gt && score.le old || flags.lt && old.le score

/-- `ZADD` with `INCR`. -/
def zaddIncr (platform : Platform) (flags : ZAddFlags) (members : List (F64 × Bytes))
    (data : SortedSetData) : Result Reply × SortedSetData :=
  match members with
  | [] =>
    (fail (.invalidCommandArguments "ERR INCR option supports a single increment-element pair"),
      data)
  | (increment, member) :: _ =>
    let existing := data.score member
    let score := platform.add (existing.getD .zero) increment
    if flags.nx && existing.isSome || flags.xx && existing.isNone then (.ok .nil, data)
    else if score.isNan then (fail .invalidScoreFormat, data)
    else if existing.any (keepsOld flags score) then (.ok .nil, data)
    else (.ok (.double score), data.insert member score)

/-- Add or update one member; the numbers count the added and the changed ones. -/
def zaddOne (flags : ZAddFlags) (state : Nat × Nat × SortedSetData) (pair : F64 × Bytes) :
    Nat × Nat × SortedSetData :=
  let (added, changed, data) := state
  match data.score pair.2 with
  | some old =>
    if flags.nx || keepsOld flags pair.1 old || pair.1 = old then state
    else (added, changed + 1, data.insert pair.2 pair.1)
  | none => if flags.xx then state else (added + 1, changed, data.insert pair.2 pair.1)

/-- `ZADD` without `INCR`. -/
def zaddAll (flags : ZAddFlags) (members : List (F64 × Bytes)) (data : SortedSetData) :
    Result Reply × SortedSetData :=
  let (added, changed, data) := members.foldl (zaddOne flags) (0, 0, data)
  (.ok (.integer ↑(if flags.ch then added + changed else added)), data)

/-- `ZINCRBY`. -/
def zincrby (platform : Platform) (increment : F64) (member : Bytes) (data : SortedSetData) :
    Result Reply × SortedSetData :=
  let score := platform.add ((data.score member).getD .zero) increment
  if score.isNan then (fail .invalidScoreFormat, data)
  else (.ok (.double score), data.insert member score)

/-- `ZREM`. -/
def zrem (members : List Bytes) (data : SortedSetData) : Reply × SortedSetData :=
  let (removed, data) := members.foldl (fun (state : Nat × SortedSetData) member =>
    (if (state.2.score member).isSome then state.1 + 1 else state.1, state.2.remove member))
    (0, data)
  (.integer removed, data)

/-- `zset_pairs_to_reply` with the scores. -/
def pairsReply (pairs : List (Bytes × F64)) : Reply :=
  .array (pairs.flatMap fun pair => [.string pair.1, .double pair.2])

end SortedSetData

/-! ## Handlers -/

namespace Handler

variable {env : Env} (db : Fin numDatabases) {P : Access env → Prop} {key : Key}

/-- `hset_cmd`. -/
def hsetCmd (key : Key) (fieldValues : List (Bytes × Bytes)) : Handler env Reply :=
  Kind.hash.upsert (env.addr db key) key ∅ fun fields =>
    let r := Fields.setAll fields fieldValues
    (.ok (.integer r.1), r.2)

/-- `hdel_cmd`. -/
def hdelCmd (key : Key) (names : List Bytes) : Handler env Reply :=
  Kind.hash.update (env.addr db key) key (pure (.integer 0)) fun fields =>
    let r := Fields.removeAll fields names
    (.ok (.integer r.1), r.2)

/-- `hincrby_cmd`. -/
def hincrbyCmd (key : Key) (field : Bytes) (increment : Int) : Handler env Reply :=
  Kind.hash.upsert (env.addr db key) key ∅ (Fields.incrby field increment)

/-- `hincrbyfloat_cmd`. -/
def hincrbyfloatCmd (key : Key) (increments : List (Bytes × F64)) : Handler env Reply :=
  Kind.hash.upsert (env.addr db key) key ∅ (Fields.incrbyfloat env.toPlatform increments ∅)

/-- `hmset_cmd`. -/
def hmsetCmd (key : Key) (fieldValues : List (Bytes × Bytes)) : Handler env Reply :=
  Kind.hash.upsert (env.addr db key) key ∅ fun fields =>
    (.ok .ok, (Fields.setAll fields fieldValues).2)

/-- `hsetnx_cmd`. -/
def hsetnxCmd (key : Key) (field value : Bytes) : Handler env Reply :=
  Kind.hash.upsert (env.addr db key) key ∅ (Fields.setnx field value)

/-- `lpush_cmd`; each value becomes the new head. -/
def lpushCmd (key : Key) (values : List Bytes) : Handler env Reply :=
  Kind.list.upsert (env.addr db key) key [] fun items =>
    let items := values.foldl (fun items value => value :: items) items
    (.ok (.integer items.length), items)

/-- `rpush_cmd`. -/
def rpushCmd (key : Key) (values : List Bytes) : Handler env Reply :=
  Kind.list.upsert (env.addr db key) key [] fun items =>
    (.ok (.integer (items ++ values).length), items ++ values)

/-- `lpop_cmd` of a shard. -/
def lpopAt (a : Addr env) (key : Key) : Handler env Reply :=
  Kind.list.update a key (pure .nil) Items.lpop

/-- `rpop_cmd` of a shard. -/
def rpopAt (a : Addr env) (key : Key) : Handler env Reply :=
  Kind.list.update a key (pure .nil) Items.rpop

/-- `lpop_cmd`. -/
def lpopCmd (key : Key) : Handler env Reply := lpopAt (env.addr db key) key

/-- `rpop_cmd`. -/
def rpopCmd (key : Key) : Handler env Reply := rpopAt (env.addr db key) key

/-- `linsert_cmd`. -/
def linsertCmd (key : Key) (option : InsertOption) (pivot value : Bytes) : Handler env Reply :=
  Kind.list.update (env.addr db key) key (pure (.integer 0)) (Items.linsert option pivot value)

/-- `lset_cmd`. -/
def lsetCmd (key : Key) (index : Int) (value : Bytes) : Handler env Reply :=
  Kind.list.update (env.addr db key) key (throw (.keyNotFound key)) (Items.lset index value)

/-- `ltrim_cmd`. -/
def ltrimCmd (key : Key) (start stop : Int) : Handler env Reply :=
  Kind.list.update (env.addr db key) key (pure .ok) (Items.ltrim start stop)

/-- `lrem_cmd`. -/
def lremCmd (key : Key) (count : Int) (value : Bytes) : Handler env Reply :=
  Kind.list.update (env.addr db key) key (pure (.integer 0)) (Items.lrem count value)

/-- `rpoplpush_cmd`; the source has lost its element when the push fails. -/
def rpoplpushCmd (source destination : Key) : Handler env Reply := do
  match ← rpopCmd db source with
  | .string popped =>
    let _ ← lpushCmd db destination [popped]
    return .string popped
  | _ => return .nil

/-- An error counts as nothing found. -/
def quietly (m : Handler env Reply) : Handler env Reply :=
  rescue m fun
    | .error _ => .ok .nil
    | .panicked => .error .panicked

/-- Pop from the first list that has an element; the element `nil` is popped and passed over. -/
def popFirst (pop : Key → Handler env Reply) : List Key → Handler env Reply
  | [] => pure .nilArray
  | key :: rest => do
    match ← quietly (pop key) with
    | .string value =>
      if value ≠ Serde.utf8 "nil" then return .list [Serde.utf8 key, value] else popFirst pop rest
    | _ => popFirst pop rest

/-- `Duration::from_secs_f64` panics from `2 ^ 64` seconds on. -/
def overflowsDuration (seconds : F64) : Bool :=
  !seconds.isNan && !seconds.isNegative && 0x43F0000000000000 ≤ seconds.magnitude

/-- `blpop_cmd` and `brpop_cmd`, as far as the first pass; every key is looked up in the shard of
the first one. -/
def blockingPop (pop : Addr env → Key → Handler env Reply) (keys : List Key) (timeout : F64) :
    Handler env Reply :=
  match keys with
  | [] => pure .nil
  | first :: rest =>
    if overflowsDuration timeout then Prog.fail .panicked
    else popFirst (pop (env.addr db first)) (first :: rest)

/-- `blpop_cmd`. -/
def blpopCmd (keys : List Key) (timeout : F64) : Handler env Reply :=
  blockingPop db lpopAt keys timeout

/-- `brpop_cmd`. -/
def brpopCmd (keys : List Key) (timeout : F64) : Handler env Reply :=
  blockingPop db rpopAt keys timeout

/-- `sadd_cmd`. -/
def saddCmd (key : Key) (items : List Bytes) : Handler env Reply :=
  Kind.set.upsert (env.addr db key) key ∅ fun members =>
    let r := Members.add members items
    (.ok (.integer r.1), r.2)

/-- `srem_cmd`. -/
def sremCmd (key : Key) (items : List Bytes) : Handler env Reply :=
  Kind.set.update (env.addr db key) key (pure (.integer 0)) fun members =>
    let r := Members.removeAll members items
    (.ok (.integer r.1), r.2)

/-- Reply of `spop_cmd` for the popped members. -/
def spopReply (count : Option Nat) (popped : List Bytes) : Reply :=
  match count, popped with
  | some _, popped => .array (popped.map .string)
  | none, [] => .nil
  | none, member :: _ => .string member

/-- `spop_cmd`; which members are popped depends on the iteration order of the set. -/
def spopCmd (key : Key) (count : Option Nat) : Handler env Reply := do
  match ← look (env.addr db key) key with
  | none => return spopReply count []
  | some entry =>
    match Kind.set.project entry.value with
    | some members =>
      let popped := (← order members.keys).take (count.getD 1)
      store (env.addr db key) key (.set (Members.removeAll members popped).2)
      return spopReply count popped
    | none => throw (.dataTypeMismatch key "Set" entry.value.dataType)

/-- `zadd_cmd`. -/
def zaddCmd (key : Key) (flags : ZAddFlags) (members : List (F64 × Bytes)) : Handler env Reply :=
  if members.any fun pair => pair.1.isNan then throw .invalidScoreFormat
  else
    unlessAbsent flags.xx (env.addr db key) key (.ok (if flags.incr then .nil else .integer 0))
      (Kind.sortedSet.upsert (env.addr db key) key .new
        (if flags.incr then SortedSetData.zaddIncr env.toPlatform flags members
        else SortedSetData.zaddAll flags members))

/-- `zincrby_cmd`. -/
def zincrbyCmd (key : Key) (increment : F64) (member : Bytes) : Handler env Reply :=
  if increment.isNan then throw .invalidScoreFormat
  else
    Kind.sortedSet.upsert (env.addr db key) key .new
      (SortedSetData.zincrby env.toPlatform increment member)

/-- Change a sorted set and delete its key if nothing is left. -/
def shrink (key : Key) (missing : Reply) (f : SortedSetData → Reply × SortedSetData) :
    Handler env Reply := do
  let r ← Kind.sortedSet.update (env.addr db key) key (pure (missing, false)) fun data =>
    (.ok ((f data).1, (f data).2.isEmpty), (f data).2)
  if r.2 then
    let _ ← delete (env.addr db key) key
    return r.1
  else return r.1

/-- `zrem_cmd`. -/
def zremCmd (key : Key) (members : List Bytes) : Handler env Reply :=
  shrink db key (.integer 0) (SortedSetData.zrem members)

/-- `zpopmin_cmd`. -/
def zpopminCmd (key : Key) (count : Option Nat) : Handler env Reply :=
  shrink db key (.array []) fun data =>
    ((data.popMin (count.getD 1)).map SortedSetData.pairsReply id)

/-- `zpopmax_cmd`. -/
def zpopmaxCmd (key : Key) (count : Option Nat) : Handler env Reply :=
  shrink db key (.array []) fun data =>
    ((data.popMax (count.getD 1)).map SortedSetData.pairsReply id)

/-- `zremrangebyrank_cmd`. -/
def zremrangebyrankCmd (key : Key) (start stop : Int) : Handler env Reply :=
  shrink db key (.integer 0) fun data =>
    (data.removeRangeByRank start stop).map (fun (removed : Nat) => .integer removed) id

/-- `zremrangebyscore_cmd`. -/
def zremrangebyscoreCmd (key : Key) (min max : String) : Handler env Reply :=
  match parseScoreBound env.toPlatform min, parseScoreBound env.toPlatform max with
  | some min, some max =>
    shrink db key (.integer 0) fun data =>
      (data.removeRangeByScore min max).map (fun (removed : Nat) => .integer removed) id
  | _, _ => throw .invalidScoreFormat

/-- `zremrangebylex_cmd`. -/
def zremrangebylexCmd (key : Key) (min max : String) : Handler env Reply :=
  match parseLexBound min, parseLexBound max with
  | some min, some max =>
    shrink db key (.integer 0) fun data =>
      (data.removeRangeByLex min max).map (fun (removed : Nat) => .integer removed) id
  | _, _ => throw (.invalidCommandArguments "min or max not valid string range item")

/-- `geo::encode` of all positions. -/
def geoScores (platform : Platform) (items : List (F64 × F64 × Bytes)) :
    Option (List (F64 × Bytes)) :=
  items.mapM fun item =>
    (platform.geoEncode item.1 item.2.1).map fun bits => (platform.ofInt bits, item.2.2)

/-- `geoadd_cmd`; on the set it is `ZADD` without the conditions on the score. -/
def geoaddCmd (key : Key) (nx xx ch : Bool) (items : List (F64 × F64 × Bytes)) :
    Handler env Reply :=
  match geoScores env.toPlatform items with
  | none => throw (.invalidCommandArguments "ERR invalid longitude,latitude pair")
  | some members =>
    unlessAbsent xx (env.addr db key) key (.ok (.integer 0))
      (Kind.sortedSet.upsert (env.addr db key) key .new
        (SortedSetData.zaddAll ⟨nx, xx, false, false, ch, false⟩ members))

/-! ## What the handlers use -/

theorem uses_lpopAt (hl : ∀ a key, P (.look a key)) (hs : ∀ a value, P (.store a key value))
    (a : Addr env) : Uses P (lpopAt a key) :=
  Kind.uses_update hl hs _ _ (.pure _) _

theorem uses_rpopAt (hl : ∀ a key, P (.look a key)) (hs : ∀ a value, P (.store a key value))
    (a : Addr env) : Uses P (rpopAt a key) :=
  Kind.uses_update hl hs _ _ (.pure _) _

theorem uses_rpoplpushCmd {source destination : Key} (hs : ∀ a value, P (.store a source value))
    (hd : Creates P (env.addr db destination) destination) :
    Uses P (rpoplpushCmd db source destination) := by
  refine .bind (uses_rpopAt hd.look hs _) fun popped => ?_
  split
  · exact .bind (Kind.uses_upsert hd _ _ _) fun _ => .pure _
  · exact .pure _

theorem uses_popFirst {pop : Key → Handler env Reply} {keys : List Key}
    (hp : ∀ key ∈ keys, Uses P (pop key)) : Uses P (popFirst pop keys) := by
  induction keys with
  | nil => exact .pure _
  | cons key rest ih =>
    have hrest : Uses P (popFirst pop rest) := ih fun k hk => hp k (List.mem_cons_of_mem _ hk)
    refine .bind (.rescue _ (hp key (List.mem_cons_self ..))) fun popped => ?_
    split
    · split
      · exact .pure _
      · exact hrest
    · exact hrest

theorem uses_blockingPop {pop : Addr env → Key → Handler env Reply} {keys : List Key}
    (hp : ∀ a, ∀ key ∈ keys, Uses P (pop a key)) (timeout : F64) :
    Uses P (blockingPop db pop keys timeout) := by
  unfold blockingPop
  split
  · exact .pure _
  · split
    · exact .fail _
    · exact uses_popFirst (hp _)

theorem uses_spopCmd (hr : Reads P) (hw : Writes P key) (ho : ∀ items, P (.order items))
    (count : Option Nat) : Uses P (spopCmd db key count) := by
  refine .bind (uses_look hr.look _ key) fun e => ?_
  cases e with
  | none => exact .pure _
  | some entry =>
    dsimp only
    split
    · exact .bind (uses_order (ho _)) fun _ => .bind (uses_store hw.store _ _) fun _ => .pure _
    · exact .fail _

theorem uses_zaddCmd (hc : Creates P (env.addr db key) key) (flags : ZAddFlags)
    (members : List (F64 × Bytes)) :
    Uses P (zaddCmd db key flags members) := by
  unfold zaddCmd
  split
  · exact .fail _
  · exact uses_unlessAbsent hc.look _ _ (Kind.uses_upsert hc _ _ _)

theorem uses_zincrbyCmd (hc : Creates P (env.addr db key) key) (increment : F64)
    (member : Bytes) : Uses P (zincrbyCmd db key increment member) := by
  unfold zincrbyCmd
  split
  · exact .fail _
  · exact Kind.uses_upsert hc _ _ _

theorem uses_shrink (hr : Reads P) (hw : Writes P key) (missing : Reply)
    (f : SortedSetData → Reply × SortedSetData) :
    Uses P (shrink db key missing f) := by
  refine .bind (Kind.uses_update hr.look hw.store _ _ (.pure _) _) fun r => ?_
  split
  · exact .bind (uses_delete hw _) fun _ => .pure _
  · exact .pure _

theorem uses_zremrangebyscoreCmd (hr : Reads P) (hw : Writes P key) (min max : String) :
    Uses P (zremrangebyscoreCmd db key min max) := by
  unfold zremrangebyscoreCmd
  split
  · exact uses_shrink db hr hw _ _
  · exact .fail _

theorem uses_zremrangebylexCmd (hr : Reads P) (hw : Writes P key) (min max : String) :
    Uses P (zremrangebylexCmd db key min max) := by
  unfold zremrangebylexCmd
  split
  · exact uses_shrink db hr hw _ _
  · exact .fail _

theorem uses_geoaddCmd (hc : Creates P (env.addr db key) key) (nx xx ch : Bool)
    (items : List (F64 × F64 × Bytes)) :
    Uses P (geoaddCmd db key nx xx ch items) := by
  unfold geoaddCmd
  split
  · exact .fail _
  · exact uses_unlessAbsent hc.look _ _ (Kind.uses_upsert hc _ _ _)

end Handler

end Calod.Store
