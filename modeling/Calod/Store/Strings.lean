import Calod.Store.HyperLogLog
import Calod.Store.Shard

/-!
# Generic and string commands

The handlers of `sharded_store.rs` and `calod_shard.rs` that change keys, strings, counters, bitmaps
and HyperLogLog sketches. A handler of one database takes its number; the shard follows from the
key.
Each handler is followed by what it uses: it reads anywhere, and writes under the keys it is given.
Where a handler only looks for live keys before it writes, it is followed by more than that: any
judgement that `Looks` holds of the handler if it holds of what is written.
-/

namespace Calod.Store

open Lib Prog

inductive SetExpireOption where
  | ex (seconds : Nat)
  | px (milliseconds : Nat)
  deriving DecidableEq, Repr

inductive SetOption where
  | nx
  | xx
  deriving DecidableEq, Repr

inductive GetExOption where
  | ex (seconds : Nat)
  | px (milliseconds : Nat)
  | exAt (timestamp : Nat)
  | pxAt (timestamp : Nat)
  | persist
  deriving DecidableEq, Repr

inductive BitOperation where
  | and
  | or
  | xor
  | not
  deriving DecidableEq, Repr

/-- The duration in milliseconds. -/
def SetExpireOption.duration : SetExpireOption → Nat
  | .ex seconds => seconds * 1000
  | .px milliseconds => milliseconds

variable {value : Bytes} {keyValues : List (Key × Bytes)}

namespace Handler

variable {env : Env} (db : Fin numDatabases) {P : Access env → Prop} {key : Key}

/-! ## Keys -/

/-- `exists`; `touch_cmd` of a shard removes an expired key alike. -/
def exists_ (a : Addr env) (key : Key) : Handler env Bool := do
  match ← fetch a key with
  | .live _ => return true
  | _ => return false

theorem uses_exists (hr : Reads P) (a : Addr env) (key : Key) : Uses P (exists_ a key) := by
  refine .bind (uses_fetch hr a key) fun e => ?_
  split <;> exact .pure _

/-- `get`, where a key that is missing or has expired is no error. -/
def find (key : Key) : Handler env (Option DataType) := do
  match ← fetch (env.addr db key) key with
  | .live entry => return some entry.value
  | _ => return none

theorem uses_find (hr : Reads P) (key : Key) : Uses P (find db key) := by
  refine .bind (uses_fetch hr _ key) fun e => ?_
  split <;> exact .pure _

/-- The judgement composes, and holds of looking for a live key. -/
structure Looks (J : ∀ α : Type, Handler env α → Prop) : Prop extends Composes J where
  exists_ : ∀ a key, J Bool (exists_ a key)
  find : ∀ db key, J (Option DataType) (find db key)

/-- It also holds of an error. -/
structure Queries (J : ∀ α : Type, Handler env α → Prop) : Prop extends Looks J where
  ofExcept : ∀ {α : Type} (r : Result α), J α (ofExcept r)

theorem Reads.queries (hr : Reads P) : Queries fun _ m => Uses P m where
  toComposes := Uses.composes
  exists_ := uses_exists hr
  find db := uses_find db hr
  ofExcept := .ofExcept

section

variable {J : ∀ α : Type, Handler env α → Prop}

/-- `condition && exists`. -/
def existsIf (condition : Bool) (a : Addr env) (key : Key) : Handler env Bool :=
  if condition then exists_ a key else pure false

theorem Looks.existsIf (hJ : Looks J) (condition : Bool) (a : Addr env) (key : Key) :
    J _ (existsIf condition a key) := by
  unfold Handler.existsIf
  split
  · exact hJ.exists_ a key
  · exact hJ.pure _

/-- `del_cmd`. -/
def delCmd (keys : List Key) : Handler env Reply := do
  let deleted ← collect (fun key => delete (env.addr db key) key) keys
  return .integer (deleted.countP id)

theorem Looks.delCmd (hJ : Looks J) {keys : List Key}
    (hd : ∀ key ∈ keys, J _ (delete (env.addr db key) key)) : J _ (delCmd db keys) :=
  hJ.bind (hJ.collect hd) fun _ => hJ.pure _

/-- `unlink_cmd`. -/
def unlinkCmd (keys : List Key) : Handler env Reply := delCmd db keys

/-- `expire_cmd`. -/
def expireCmd (key : Key) (seconds : Nat) : Handler env Reply := do
  return .ofBool (← setExpiry (env.addr db key) key (.after (seconds * 1000)))

/-- `pexpire_cmd`. -/
def pexpireCmd (key : Key) (milliseconds : Nat) : Handler env Reply := do
  return .ofBool (← setExpiry (env.addr db key) key (.after milliseconds))

/-- For the commands with an absolute time and for `PERSIST` a missing key is an error. -/
def setExpiryOrFail (key : Key) (expiry : Expiry) : Handler env Reply := do
  if ← setExpiry (env.addr db key) key expiry then return .integer 1 else throw (.keyNotFound key)

/-- `expireat_cmd`, with `saturating_mul`. -/
def expireatCmd (key : Key) (seconds : Nat) : Handler env Reply :=
  setExpiryOrFail db key (.at (min (seconds * 1000) u64Max))

/-- `pexpireat_cmd`. -/
def pexpireatCmd (key : Key) (milliseconds : Nat) : Handler env Reply :=
  setExpiryOrFail db key (.at milliseconds)

/-- `persist_cmd`. -/
def persistCmd (key : Key) : Handler env Reply := setExpiryOrFail db key .never

theorem uses_setExpiryOrFail {expiry : Expiry} (h : ∀ a, P (.setExpiry a key expiry)) :
    Uses P (setExpiryOrFail db key expiry) := by
  refine .bind (.op (Access.setExpiry _ key expiry) (h _)) fun found => ?_
  split
  · exact .pure _
  · exact .fail _

theorem uses_expireCmd (hx : Expires P key) (seconds : Nat) :
    Uses P (expireCmd db key seconds) :=
  .bind (.op (Access.setExpiry _ key _) (hx.setExpiry _ _)) fun _ => .pure _

theorem uses_pexpireCmd (hx : Expires P key) (milliseconds : Nat) :
    Uses P (pexpireCmd db key milliseconds) :=
  .bind (.op (Access.setExpiry _ key _) (hx.setExpiry _ _)) fun _ => .pure _

/-- `rename_cmd`; its branches for one shard and for two do the same. -/
def renameCmd (key newKey : Key) (nx : Bool) : Handler env Reply := do
  if key = newKey then
    throw (.invalidCommandArguments "ERR source and destination objects are the same")
  else if ← existsIf nx (env.addr db newKey) newKey then return .integer 0
  else if ← moveEntry (env.addr db key) key (env.addr db newKey) newKey then
    return if nx then .integer 1 else .ok
  else throw (.keyNotFound key)

theorem uses_renameCmd {newKey : Key} (hr : Reads P)
    (hm : ∀ source a, P (.moveEntry source key a newKey)) (nx : Bool) :
    Uses P (renameCmd db key newKey nx) := by
  unfold renameCmd
  split
  · exact .fail _
  · refine .bind (hr.queries.existsIf _ _ _) fun taken => ?_
    split
    · exact .pure _
    · refine .bind (.op (Access.moveEntry _ key _ newKey) (hm _ _)) fun moved => ?_
      split
      · exact .pure _
      · exact .fail _

/-- `copy_cmd`. -/
def copyCmd (source destination : Key) (replace : Bool) : Handler env Reply := do
  match ← find db source with
  | none => return .integer 0
  | some value =>
    if ← existsIf (!replace) (env.addr db destination) destination then return .integer 0
    else
      setLike (env.addr db source) source (env.addr db destination) destination value
      return .integer 1

theorem Looks.copyCmd (hJ : Looks J) {source destination : Key}
    (hc : ∀ b a value, J _ (setLike b source a destination value)) (replace : Bool) :
    J _ (copyCmd db source destination replace) := by
  refine hJ.bind (hJ.find db source) fun found => ?_
  split
  · exact hJ.pure _
  · refine hJ.bind (hJ.existsIf _ _ _) fun taken => ?_
    split
    · exact hJ.pure _
    · exact hJ.bind (hc _ _ _) fun _ => hJ.pure _

/-- `flushdb_cmd`. -/
def flushdbCmd : Handler env Reply := do
  each (fun shard => clearAll ⟨db, shard⟩) (List.finRange env.numShards)
  return .ok

theorem Looks.flushdbCmd (hJ : Looks J) (hc : ∀ a, J _ (clearAll a)) : J _ (flushdbCmd db) :=
  hJ.bind (hJ.each fun _ _ => hc _) fun _ => hJ.pure _

/-! ## Strings -/

/-- Does the condition of `SET` keep it from setting the key? -/
def blocked (a : Addr env) (key : Key) : Option SetOption → Handler env Bool
  | some .nx => exists_ a key
  | some .xx => do return !(← exists_ a key)
  | none => pure false

theorem Looks.blocked (hJ : Looks J) (a : Addr env) (key : Key) (option : Option SetOption) :
    J _ (blocked a key option) := by
  unfold Handler.blocked
  split
  · exact hJ.exists_ a key
  · exact hJ.bind (hJ.exists_ a key) fun _ => hJ.pure _
  · exact hJ.pure _

/-- `set_cmd`. -/
def setCmd (key : Key) (value : Bytes) (expire : Option SetExpireOption)
    (option : Option SetOption) : Handler env Bool := do
  if ← blocked (env.addr db key) key option then return false
  else
    set (env.addr db key) key (.string value) (expire.map SetExpireOption.duration)
    return true

theorem Looks.setCmd (hJ : Looks J) {expire : Option SetExpireOption}
    (hs : ∀ a, J _ (set a key (.string value) (expire.map SetExpireOption.duration)))
    (option : Option SetOption) : J _ (setCmd db key value expire option) := by
  refine hJ.bind (hJ.blocked _ _ _) fun b => ?_
  split
  · exact hJ.pure _
  · exact hJ.bind (hs _) fun _ => hJ.pure _

/-- `setnx_cmd`. -/
def setnxCmd (key : Key) (value : Bytes) : Handler env Reply := do
  if ← exists_ (env.addr db key) key then return .integer 0
  else return .ofBool (← setCmd db key value none (some .nx))

theorem Looks.setnxCmd (hJ : Looks J) (hs : ∀ a, J _ (set a key (.string value) none)) :
    J _ (setnxCmd db key value) := by
  refine hJ.bind (hJ.exists_ _ _) fun taken => ?_
  split
  · exact hJ.pure _
  · exact hJ.bind (hJ.setCmd db hs _) fun _ => hJ.pure _

/-- `get_cmd`. -/
def getCmd (key : Key) : Handler env Reply := do
  match ← find db key with
  | none => return .nil
  | some (.string bytes) => return .string bytes
  | some other => throw (.dataTypeMismatch key "string" other.dataType)

theorem Queries.getCmd (hJ : Queries J) (key : Key) : J _ (getCmd db key) := by
  refine hJ.bind (hJ.find db key) fun found => ?_
  split
  · exact hJ.pure _
  · exact hJ.pure _
  · exact hJ.ofExcept _

/-- `getdel_cmd`. -/
def getdelCmd (key : Key) : Handler env Reply := do
  match ← getCmd db key with
  | .nil => return .nil
  | current =>
    let _ ← delete (env.addr db key) key
    return current

theorem Queries.getdelCmd (hJ : Queries J)
    (hd : ∀ a (r : Reply), J _ (delete a key >>= fun _ => pure r)) : J _ (getdelCmd db key) := by
  refine hJ.bind (hJ.getCmd db key) fun current => ?_
  split
  · exact hJ.pure _
  · exact hd _ _

/-- The part of `getex_cmd` that changes the expiry. -/
def applyGetEx (key : Key) : GetExOption → Handler env Reply
  | .persist => persistCmd db key
  | .ex seconds => expireCmd db key seconds
  | .px milliseconds => pexpireCmd db key milliseconds
  | .exAt timestamp => expireatCmd db key timestamp
  | .pxAt timestamp => pexpireatCmd db key timestamp

theorem uses_applyGetEx {option : GetExOption} (hw : Writes P key)
    (hx : option = .persist ∨ Expires P key) :
    Uses P (applyGetEx db key option) := by
  rcases hx with rfl | hx
  · exact uses_setExpiryOrFail db hw.persist
  · cases option with
    | ex seconds => exact uses_expireCmd db hx seconds
    | px milliseconds => exact uses_pexpireCmd db hx milliseconds
    | exAt | pxAt => exact uses_setExpiryOrFail db fun a => hx.setExpiry a _
    | persist => exact uses_setExpiryOrFail db hw.persist

/-- `getex_cmd`. -/
def getexCmd (key : Key) (option : Option GetExOption) : Handler env Reply := do
  match ← getCmd db key with
  | .nil => return .nil
  | current =>
    match option with
    | none => return current
    | some option =>
      let _ ← applyGetEx db key option
      return current

/-- Without an option, `GETEX` only reads. -/
theorem uses_getexCmd {option : Option GetExOption} (hr : Reads P)
    (h : ∀ o, option = some o → Writes P key ∧ (o = .persist ∨ Expires P key)) :
    Uses P (getexCmd db key option) := by
  refine .bind (hr.queries.getCmd db key) fun current => ?_
  split
  · exact .pure _
  · cases option with
    | none => exact .pure _
    | some o =>
      obtain ⟨hw, hx⟩ := h o rfl
      exact .bind (uses_applyGetEx db hw hx) fun _ => .pure _

/-- `append_cmd`. -/
def appendCmd (key : Key) (value : Bytes) : Handler env Reply :=
  (Kind.string "String").update (env.addr db key) key
    (do
      set (env.addr db key) key (.string value) none
      return .integer value.length)
    fun s => (.ok (.integer (s ++ value).length), s ++ value)

/-- Zero bytes up to a length. -/
def zeroExtend (s : Bytes) (len : Nat) : Bytes := s ++ List.replicate (len - s.length) 0

/-- Overwrite `s` from `offset` on. -/
def overwrite (offset : Nat) (value s : Bytes) : Bytes :=
  let s := zeroExtend s (offset + value.length)
  s.take offset ++ value ++ s.drop (offset + value.length)

/-- `set`, if the key is missing. -/
def setIfMissing (a : Addr env) (key : Key) (value : DataType) : Handler env Unit := do
  match ← look a key with
  | some _ => return ()
  | none => set a key value none

theorem uses_setIfMissing (hr : Reads P) (hw : Writes P key) (a : Addr env) (value : DataType) :
    Uses P (setIfMissing a key value) := by
  refine .bind (uses_look hr.look a key) fun e => ?_
  cases e with
  | some entry => exact .pure _
  | none => exact uses_set hw a value

/-- Create a string of zeros if the key is missing, then do `f` to it. -/
def zeroFilled (key : Key) (expected : String) (len : Nat) (f : Bytes → Result Reply × Bytes) :
    Handler env Reply := do
  setIfMissing (env.addr db key) key (.string (List.replicate len 0))
  (Kind.string expected).update (env.addr db key) key (Prog.fail .panicked) f

theorem uses_zeroFilled (hr : Reads P) (hw : Writes P key) (expected : String) (len : Nat)
    (f : Bytes → Result Reply × Bytes) :
    Uses P (zeroFilled db key expected len f) :=
  .bind (uses_setIfMissing hr hw _ _) fun _ => Kind.uses_update hr.look hw.store _ _ (.fail _) _

section

variable {s : Dbs env} {a : Addr env} {draw : Draw}

/-- Changing a string that is there. -/
theorem update_string {b : Bytes} (he : s.entry a key = some ⟨.string b, 0⟩) (expected : String)
    (missing : Handler env Reply) (f : Bytes → Result Reply × Bytes) :
    (Kind.string expected).update a key missing f draw s
      = ((f b).1, (store a key (.string (f b).2) draw s).2) := by
  simp only [Kind.update, Kind.apply, Kind.string, Prog.bind_apply, look, store, he, Prog.ofExcept]

theorem entry_set_self (value : DataType) :
    (set a key value none draw s).2.entry a key = some ⟨value, 0⟩ := by
  show (Dbs.update _ _ _).entry _ _ = _
  rw [Dbs.entry_insert, if_pos ⟨rfl, rfl⟩, CacheEntry.new_none]

theorem setIfMissing_of_entry {e : CacheEntry} (he : s.entry a key = some e) (value : DataType) :
    setIfMissing a key value draw s = (.ok (), s) := by
  simp only [setIfMissing, Prog.bind_apply, look, he]
  rfl

theorem setIfMissing_of_missing (he : s.entry a key = none) (value : DataType) :
    setIfMissing a key value draw s = set a key value none draw s := by
  simp only [setIfMissing, Prog.bind_apply, look, he]

/-- A missing key is created and then changed. -/
theorem zeroFilled_of_missing {db : Fin numDatabases}
    (he : s.entry (env.addr db key) key = none) (expected : String) (len : Nat)
    (f : Bytes → Result Reply × Bytes) :
    zeroFilled db key expected len f draw s
      = ((f (List.replicate len 0)).1,
        (store (env.addr db key) key (.string (f (List.replicate len 0)).2) draw
          (set (env.addr db key) key (.string (List.replicate len 0)) none draw s).2).2) := by
  unfold zeroFilled
  rw [Prog.bind_apply, setIfMissing_of_missing he]
  exact update_string (entry_set_self _) expected _ f

theorem zeroFilled_of_entry {db : Fin numDatabases} {e : CacheEntry}
    (he : s.entry (env.addr db key) key = some e) (expected : String) (len : Nat)
    (f : Bytes → Result Reply × Bytes) :
    zeroFilled db key expected len f draw s
      = (Kind.string expected).update (env.addr db key) key (Prog.fail .panicked) f draw s := by
  unfold zeroFilled
  rw [Prog.bind_apply, setIfMissing_of_entry he]

end

/-- `setrange_cmd`. -/
def setrangeCmd (key : Key) (offset : Nat) (value : Bytes) : Handler env Reply := do
  match value, (← look (env.addr db key) key).map CacheEntry.value with
  | [], some (.string s) => return .integer (max s.length offset)
  | _, _ =>
    zeroFilled db key "String" offset fun s =>
      (.ok (.integer (overwrite offset value s).length), overwrite offset value s)

theorem uses_setrangeCmd (hr : Reads P) (hw : Writes P key) (offset : Nat) (value : Bytes) :
    Uses P (setrangeCmd db key offset value) := by
  refine .bind (uses_look hr.look _ key) fun e => ?_
  split
  · exact .pure _
  · exact uses_zeroFilled db hr hw _ _ _

/-- `getset_cmd`. -/
def getsetCmd (key : Key) (value : Bytes) : Handler env Reply := do
  let old ← find db key
  set (env.addr db key) key (.string value) none
  return (old.map Reply.stored).getD .nil

theorem Looks.getsetCmd (hJ : Looks J) (hs : ∀ a, J _ (set a key (.string value) none)) :
    J _ (getsetCmd db key value) :=
  hJ.bind (hJ.find db key) fun _ => hJ.bind (hs _) fun _ => hJ.pure _

/-- Set each of the keys. -/
def setEach (keyValues : List (Key × Bytes)) (option : Option SetOption) : Handler env Unit :=
  each (fun kv => do let _ ← setCmd db kv.1 kv.2 none option) keyValues

theorem Looks.setEach (hJ : Looks J)
    (hs : ∀ kv ∈ keyValues, ∀ a, J _ (set a kv.1 (.string kv.2) none)) (option : Option SetOption) :
    J _ (setEach db keyValues option) :=
  hJ.each fun kv hk => hJ.bind (hJ.setCmd db (hs kv hk) _) fun _ => hJ.pure _

/-- `mset_cmd`. -/
def msetCmd (keyValues : List (Key × Bytes)) : Handler env Reply := do
  setEach db keyValues none
  return .ok

/-- Does one of the keys exist? The first one that does ends the search. -/
def anyExists : List Key → Handler env Bool
  | [] => pure false
  | key :: rest => do if ← exists_ (env.addr db key) key then return true else anyExists rest

theorem Looks.anyExists (hJ : Looks J) (keys : List Key) : J _ (anyExists db keys) := by
  induction keys with
  | nil => exact hJ.pure _
  | cons key rest ih =>
    refine hJ.bind (hJ.exists_ _ _) fun found => ?_
    split
    · exact hJ.pure _
    · exact ih

/-- `msetnx_cmd`. -/
def msetnxCmd (keyValues : List (Key × Bytes)) : Handler env Reply := do
  if ← anyExists db (keyValues.map Prod.fst) then return .integer 0
  else
    setEach db keyValues (some .nx)
    return .integer 1

theorem Looks.msetnxCmd (hJ : Looks J)
    (hs : ∀ kv ∈ keyValues, ∀ a, J _ (set a kv.1 (.string kv.2) none)) :
    J _ (msetnxCmd db keyValues) := by
  refine hJ.bind (hJ.anyExists db _) fun found => ?_
  split
  · exact hJ.pure _
  · exact hJ.bind (hJ.setEach db hs _) fun _ => hJ.pure _

/-! ## Counters -/

/-- The integer that `incrby_cmd` finds in a value. -/
def counterOf (key : Key) : DataType → Result Int
  | .integer n => .ok n
  | .string s =>
    match integerText s with
    | some n => .ok n
    | none => Store.fail .notAnInteger
  | other =>
    Store.fail (.dataTypeMismatch key "Integer or String representable as integer" other.dataType)

/-- `incrby_cmd`. -/
def incrbyCmd (key : Key) (increment : Int) : Handler env Reply := do
  let a := env.addr db key
  match ← look a key with
  | some entry =>
    let n ← ofExcept (counterOf key entry.value)
    store a key (.integer (wrapI64 (n + increment)))
    return .integer (wrapI64 (n + increment))
  | none =>
    set a key (.integer increment) none
    return .integer increment

theorem uses_incrbyCmd (hr : Reads P) (hw : Writes P key) (increment : Int) :
    Uses P (incrbyCmd db key increment) := by
  refine .bind (uses_look hr.look _ key) fun e => ?_
  cases e with
  | some entry =>
    exact .bind (.ofExcept _) fun _ => .bind (uses_store hw.store _ _) fun _ => .pure _
  | none => exact .bind (uses_set hw _ _) fun _ => .pure _

/-- `incr_cmd`. -/
def incrCmd (key : Key) : Handler env Reply := incrbyCmd db key 1

/-- `decr_cmd`. -/
def decrCmd (key : Key) : Handler env Reply := incrbyCmd db key (-1)

/-- `decrby_cmd`; the negation wraps. -/
def decrbyCmd (key : Key) (decrement : Int) : Handler env Reply :=
  incrbyCmd db key (wrapI64 (-decrement))

/-- `incrbyfloat_cmd`. -/
def incrbyfloatCmd (key : Key) (increment : F64) : Handler env Reply :=
  let text := fun (x : F64) => Serde.utf8 (env.displayF64 x)
  (Kind.string "String representable as float").update (env.addr db key) key
    (do
      set (env.addr db key) key (.string (text increment)) none
      return .string (text increment))
    fun s =>
      match env.floatText s with
      | some x => (.ok (.string (text (env.add x increment))), text (env.add x increment))
      | none => (Store.fail .invalidScoreFormat, s)

/-! ## Bitmaps -/

/-- Set or clear the bit at `offset`, counted from the most significant bit of the first byte. -/
def setBitAt (offset : Nat) (value : UInt8) (s : Bytes) : Result Reply × Bytes :=
  let s := zeroExtend s (offset / 8 + 1)
  let byte := s[offset / 8]?.getD 0
  let mask : UInt8 := 1 <<< UInt8.ofNat (7 - offset % 8)
  (.ok (.ofBool (byte &&& mask ≠ 0)),
    s.set (offset / 8) (if value ≠ 0 then byte ||| mask else byte &&& ~~~mask))

/-- `setbit_cmd`. -/
def setbitCmd (key : Key) (offset : Nat) (value : UInt8) : Handler env Reply :=
  if 2 ^ 32 ≤ offset then
    throw (.invalidCommandArguments "ERR bit offset is not an integer or out of range")
  else zeroFilled db key "string" (offset / 8 + 1) (setBitAt offset value)

theorem uses_setbitCmd (hr : Reads P) (hw : Writes P key) (offset : Nat) (value : UInt8) :
    Uses P (setbitCmd db key offset value) := by
  unfold setbitCmd
  split
  · exact .fail _
  · exact uses_zeroFilled db hr hw _ _ _

/-- `read_string_bytes`. -/
def readStringBytes (key : Key) : Handler env Bytes := do
  match ← find db key with
  | none => return []
  | some (.string bytes) => return bytes
  | some other => throw (.dataTypeMismatch key "string" other.dataType)

theorem Queries.readStringBytes (hJ : Queries J) (key : Key) : J _ (readStringBytes db key) := by
  refine hJ.bind (hJ.find db key) fun found => ?_
  split
  · exact hJ.pure _
  · exact hJ.pure _
  · exact hJ.ofExcept _

/-- Combine the operands byte by byte; a short operand is extended with zeros. -/
def combine (op : UInt8 → UInt8 → UInt8) (operands : List Bytes) : Bytes :=
  (List.range ((operands.map List.length).foldl max 0)).map fun i =>
    match operands.map fun operand => operand[i]?.getD 0 with
    | [] => 0
    | byte :: rest => rest.foldl op byte

/-- The bytes that `bitop_cmd` stores, from the operands. -/
def bitopResult : BitOperation → List Bytes → Result Bytes
  | .not, [operand] => .ok (operand.map (~~~ ·))
  | .not, _ => Store.fail
    (.invalidCommandArguments "ERR BITOP NOT must be called with a single source key.")
  | .and, operands => .ok (combine (· &&& ·) operands)
  | .or, operands => .ok (combine (· ||| ·) operands)
  | .xor, operands => .ok (combine (· ^^^ ·) operands)

/-- The operands; `NOT` with several keys, which the parser refuses, reads none of them. -/
def bitopOperands (op : BitOperation) (keys : List Key) : Handler env (List Bytes) :=
  if op = .not ∧ keys.length ≠ 1 then pure [] else collect (readStringBytes db) keys

theorem Queries.bitopOperands (hJ : Queries J) (op : BitOperation) (keys : List Key) :
    J _ (bitopOperands db op keys) := by
  unfold Handler.bitopOperands
  split
  · exact hJ.pure _
  · exact hJ.collect fun key _ => hJ.readStringBytes db key

/-- `bitop_cmd`. -/
def bitopCmd (op : BitOperation) (dest : Key) (keys : List Key) : Handler env Reply := do
  let operands ← bitopOperands db op keys
  let result ← ofExcept (bitopResult op operands)
  if result = [] then
    let _ ← delete (env.addr db dest) dest
    return .integer 0
  else
    set (env.addr db dest) dest (.string result) none
    return .integer result.length

theorem Queries.bitopCmd (hJ : Queries J) {dest : Key} (op : BitOperation) (keys : List Key)
    (hd : ∀ a (r : Reply), J _ (delete a dest >>= fun _ => pure r))
    (hs : ∀ a value, J _ (set a dest value none)) : J _ (bitopCmd db op dest keys) := by
  refine hJ.bind (hJ.bitopOperands db op keys) fun operands => ?_
  refine hJ.bind (hJ.ofExcept _) fun result => ?_
  split
  · exact hd _ _
  · exact hJ.bind (hs _ _) fun _ => hJ.pure _

/-! ## HyperLogLog -/

def notHll : CacheError :=
  .invalidCommandArguments "WRONGTYPE Key is not a valid HyperLogLog string value."

/-- Add the elements; the flag says whether the sketch has to be stored. -/
def addElements (platform : Platform) (start : Bool × Hll) (elements : List Bytes) : Bool × Hll :=
  elements.foldl (fun state element =>
    let r := state.2.add platform element
    (state.1 || r.1, r.2)) start

/-- The sketch that `pfadd_cmd` starts from. -/
def hllOf (key : Key) : Option DataType → Result (Bool × Hll)
  | none => .ok (true, .new)
  | some (.string s) =>
    match Hll.fromBytes s with
    | some h => .ok (false, h)
    | none => if s = [] then .ok (true, .new) else Store.fail notHll
  | some other => Store.fail (.dataTypeMismatch key "string" other.dataType)

/-- `pfadd_cmd`. -/
def pfaddCmd (key : Key) (elements : List Bytes) : Handler env Reply := do
  let a := env.addr db key
  let current ← look a key
  let start ← ofExcept (hllOf key (current.map CacheEntry.value))
  let result := addElements env.toPlatform start elements
  if result.1 then
    set a key (.string result.2.toBytes) none
    return .integer 1
  else return .integer 0

theorem uses_pfaddCmd (hr : Reads P) (hw : Writes P key) (elements : List Bytes) :
    Uses P (pfaddCmd db key elements) := by
  refine .bind (uses_look hr.look _ key) fun e => .bind (.ofExcept _) fun start => ?_
  dsimp only
  split
  · exact .bind (uses_set hw _ _) fun _ => .pure _
  · exact .pure _

/-- The sketch stored under `key`; a missing or empty string contributes nothing. -/
def readHll (key : Key) : Handler env (Option Hll) := do
  match ← readStringBytes db key with
  | [] => return none
  | bytes =>
    match Hll.fromBytes bytes with
    | some h => return some h
    | none => throw notHll

theorem Queries.readHll (hJ : Queries J) (key : Key) : J _ (readHll db key) := by
  refine hJ.bind (hJ.readStringBytes db key) fun bytes => ?_
  split
  · exact hJ.pure _
  · split
    · exact hJ.pure _
    · exact hJ.ofExcept _

/-- `pfmerge_cmd`. -/
def pfmergeCmd (dest : Key) (sources : List Key) : Handler env Reply := do
  let sketches ← collect (readHll db) (dest :: sources)
  let merged := (sketches.filterMap id).foldl Hll.merge .new
  set (env.addr db dest) dest (.string merged.toBytes) none
  return .ok

theorem Queries.pfmergeCmd (hJ : Queries J) {dest : Key}
    (hs : ∀ a value, J _ (set a dest value none)) (sources : List Key) :
    J _ (pfmergeCmd db dest sources) :=
  hJ.bind (hJ.collect fun key _ => hJ.readHll db key) fun _ =>
    hJ.bind (hs _ _) fun _ => hJ.pure _

end

end Handler

end Calod.Store
