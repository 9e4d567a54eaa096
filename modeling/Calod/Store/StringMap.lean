import Calod.Store.Counters
import Calod.Store.Decimal

/-!
# The string commands as operations on a map

`GET`, `MGET`, `STRLEN`, `GETRANGE` and `GETBIT` of `sharded_store.rs` and `calod_shard.rs`, and
what the string commands are for: a map from keys to byte strings, in which a counter is its decimal
text. The store keeps a counter as an integer instead, and only `INCR` and its kin convert.

* `refines_map` — the replies are those of the map, as long as no other command meets a key while it
  holds a counter, and `SETRANGE` has something to write or leaves the length alone
* `counter_not_text` — `GET` after `INCR` fails
-/

namespace Calod.Store

open Lib Handler Store.Sample
open Serde (utf8)

variable {env : Env}

/-! ## Commands that read -/

namespace Handler

variable (db : Fin numDatabases)

/-- One of the replies of `mget_cmd`. -/
def mgetItem : Option DataType → Reply
  | none => .nil
  | some (.string s) => .string s
  | some other => .text ("ERR unexpected type " ++ other.dataType)

/-- `mget_cmd`. -/
def mgetCmd (keys : List Key) : Handler env Reply := do
  return .array ((← Prog.collect (find db) keys).map mgetItem)

/-- The answer of a command that reads a string. -/
def onString (key : Key) (f : Bytes → Reply) : Handler env Reply := do
  match ← find db key with
  | none => return f []
  | some (.string s) => return f s
  | some other => throw (.dataTypeMismatch key "string" other.dataType)

/-- `strlen_cmd`. -/
def strlenCmd (key : Key) : Handler env Reply := onString db key fun s => .integer s.length

/-- A position of `getrange_cmd`; a negative one counts from the end. -/
def rangeIndex (len : Nat) (position : Int) : Nat :=
  (if position < 0 then max (position + len) 0 else min position len).toNat

/-- The slice of `getrange_cmd`. -/
def rangeOf (start stop : Int) (s : Bytes) : Bytes :=
  let startIndex := rangeIndex s.length start
  let endIndex := rangeIndex s.length stop
  if endIndex < startIndex ∨ s.length ≤ startIndex then []
  else if s.length ≤ endIndex then s.drop startIndex
  else (s.drop startIndex).take (endIndex - startIndex + 1)

/-- `getrange_cmd`. -/
def getrangeCmd (key : Key) (start stop : Int) : Handler env Reply :=
  onString db key fun s => .string (rangeOf start stop s)

/-- The bit at `offset`, counted from the most significant bit of the first byte; `0` past the
end. -/
def bitAt (offset : Nat) (s : Bytes) : Bool :=
  s[offset / 8]?.getD 0 &&& (1 <<< UInt8.ofNat (7 - offset % 8)) ≠ 0

/-- `getbit_cmd`. -/
def getbitCmd (key : Key) (offset : Nat) : Handler env Reply :=
  onString db key fun s => .ofBool (bitAt offset s)

end Handler

/-! ## The commands -/

inductive StringCommand where
  | set (key : Key) (value : Bytes) (option : Option SetOption)
  | get (key : Key)
  | mGet (keys : List Key)
  | getSet (key : Key) (value : Bytes)
  | append (key : Key) (value : Bytes)
  | strLen (key : Key)
  | getRange (key : Key) (start stop : Int)
  | setRange (key : Key) (offset : Nat) (value : Bytes)
  | incr (key : Key)
  | incrBy (key : Key) (increment : Int)
  | decr (key : Key)
  | decrBy (key : Key) (decrement : Int)
  | setBit (key : Key) (offset : Nat) (value : UInt8)
  | getBit (key : Key) (offset : Nat)

namespace StringCommand

/-- The handlers. -/
def run (db : Fin numDatabases) : StringCommand → Handler env Reply
  | .set key value option => do
    return if ← Handler.setCmd db key value none option then .ok else .nil
  | .get key => Handler.getCmd db key
  | .mGet keys => Handler.mgetCmd db keys
  | .getSet key value => Handler.getsetCmd db key value
  | .append key value => Handler.appendCmd db key value
  | .strLen key => Handler.strlenCmd db key
  | .getRange key start stop => Handler.getrangeCmd db key start stop
  | .setRange key offset value => Handler.setrangeCmd db key offset value
  | .incr key => Handler.incrCmd db key
  | .incrBy key increment => Handler.incrbyCmd db key increment
  | .decr key => Handler.decrCmd db key
  | .decrBy key decrement => Handler.decrbyCmd db key decrement
  | .setBit key offset value => Handler.setbitCmd db key offset value
  | .getBit key offset => Handler.getbitCmd db key offset

end StringCommand

/-! ## The map -/

/-- A map from keys to byte strings. -/
def StringMap := Key → Option Bytes

namespace StringMap

variable (m : StringMap)

def put (key : Key) (value : Bytes) : StringMap := fun k => if key = k then some value else m k

theorem put_put (key : Key) (value value' : Bytes) :
    (m.put key value).put key value' = m.put key value' := by
  funext k
  unfold put
  split <;> rfl

/-- The bytes of a key; none if it is missing. -/
def bytes (key : Key) : Bytes := (m key).getD []

/-- A string, or nothing. -/
def reply (key : Key) : Reply :=
  match m key with
  | none => .nil
  | some s => .string s

/-- The bytes from one position to another, both included; a negative position counts from the end,
and at most to the beginning. -/
def slice (start stop : Int) (s : Bytes) : Bytes :=
  let position := fun (p : Int) => (if p < 0 then p + s.length else p).toNat
  (s.drop (position start)).take (position stop + 1 - position start)

/-- The number whose text a key holds; `0` for a missing key. -/
def number (key : Key) : Option Int :=
  match m key with
  | none => some 0
  | some s => integerText s

/-- Count a key up. -/
def addTo (key : Key) (increment : Int) : Result Reply × StringMap :=
  match m.number key with
  | none => (Store.fail .notAnInteger, m)
  | some n => (.ok (.integer (n + increment)), m.put key (utf8 (toString (n + increment))))

/-- Does the option of `SET` forbid to set the key? -/
def forbids (key : Key) : Option SetOption → Bool
  | some .nx => (m key).isSome
  | some .xx => (m key).isNone
  | none => false

end StringMap

namespace StringCommand

/-- What the commands mean. `GETSET` answers with the value itself, which is sent as a string. -/
def meaning (m : StringMap) : StringCommand → Result Reply × StringMap
  | .set key value option =>
    if m.forbids key option then (.ok .nil, m) else (.ok .ok, m.put key value)
  | .get key => (.ok (m.reply key), m)
  | .mGet keys => (.ok (.array (keys.map m.reply)), m)
  | .getSet key value =>
    (.ok (((m key).map fun s => Reply.stored (.string s)).getD .nil), m.put key value)
  | .append key value =>
    (.ok (.integer (m.bytes key ++ value).length), m.put key (m.bytes key ++ value))
  | .strLen key => (.ok (.integer (m.bytes key).length), m)
  | .getRange key start stop => (.ok (.string (StringMap.slice start stop (m.bytes key))), m)
  | .setRange key offset value =>
    if value = [] then (.ok (.integer (m.bytes key).length), m)
    else
      let s := Handler.overwrite offset value (m.bytes key)
      (.ok (.integer s.length), m.put key s)
  | .incr key => m.addTo key 1
  | .incrBy key increment => m.addTo key increment
  | .decr key => m.addTo key (-1)
  | .decrBy key decrement => m.addTo key (-decrement)
  | .setBit key offset value =>
    if 2 ^ 32 ≤ offset then
      (Store.fail
        (.invalidCommandArguments "ERR bit offset is not an integer or out of range"), m)
    else
      ((Handler.setBitAt offset value (m.bytes key)).1,
        m.put key (Handler.setBitAt offset value (m.bytes key)).2)
  | .getBit key offset => (.ok (.ofBool (Handler.bitAt offset (m.bytes key))), m)

/-- The key that a command counts up, and by how much. -/
def increment : StringCommand → Option (Key × Int)
  | .incr key => some (key, 1)
  | .incrBy key n => some (key, n)
  | .decr key => some (key, -1)
  | .decrBy key n => some (key, -n)
  | _ => none

/-- The result of counting up is an `i64`. -/
def InRange (m : StringMap) (cmd : StringCommand) : Prop :=
  ∀ key i n, cmd.increment = some (key, i) → m.number key = some n → InI64 (n + i)

/-- The keys whose bytes a command looks at. -/
def byteKeys : StringCommand → List Key
  | .get key | .getSet key _ | .append key _ | .strLen key | .getRange key .. | .setRange key ..
  | .setBit key .. | .getBit key _ => [key]
  | .mGet keys => keys
  | _ => []

/-- The command does not look at the bytes of a counter, and is no `SETRANGE` that writes nothing to
a missing key or past the end. -/
structure Suits (db : Fin numDatabases) (s : Dbs env) (m : StringMap) (cmd : StringCommand) :
    Prop where
  bytes : ∀ key ∈ cmd.byteKeys, ∀ e n, s.entry (env.addr db key) key = some e →
    e.value ≠ .integer n
  empty : ∀ key offset, cmd = .setRange key offset [] → ∃ b, m key = some b ∧ offset ≤ b.length

end StringCommand

/-! ## Stores that represent a map -/

/-- An entry without expiry that stands for some bytes. -/
inductive Represents : Option CacheEntry → Option Bytes → Prop where
  | missing : Represents none none
  | bytes (b : Bytes) : Represents (some ⟨.string b, 0⟩) (some b)
  | counter (n : Int) (h : InI64 n) : Represents (some ⟨.integer n, 0⟩) (some (utf8 (toString n)))

/-- The database holds the map. -/
def Dbs.Holds (db : Fin numDatabases) (s : Dbs env) (m : StringMap) : Prop :=
  ∀ key, Represents (s.entry (env.addr db key) key) (m key)

theorem holds_fresh (db : Fin numDatabases) : (Dbs.fresh : Dbs env).Holds db fun _ => none := by
  intro key
  rw [Dbs.entry_fresh]
  exact .missing

variable {b : Bytes} {e : CacheEntry}

namespace Dbs.Holds

variable {db : Fin numDatabases} {s s' : Dbs env} {m : StringMap} {key : Key} {draw : Draw}

section

variable (h : s.Holds db m)

include h

/-- One key has changed. -/
theorem put (he : Represents (some e) (some b))
    (hs : ∀ k, s'.entry (env.addr db k) k = if key = k then some e else s.entry (env.addr db k) k) :
    s'.Holds db (m.put key b) := by
  intro k
  rw [hs, StringMap.put]
  by_cases hk : key = k
  · rw [if_pos hk, if_pos hk]
    exact he
  · rw [if_neg hk, if_neg hk]
    exact h k

theorem set (hd : draw.Evictionless) {v : DataType} (hv : Represents (some ⟨v, 0⟩) (some b)) :
    (Handler.set (env.addr db key) key v none draw s).2.Holds db (m.put key b) := by
  refine h.put hv fun k => ?_
  show (Dbs.update _ _ _).entry _ _ = _
  rw [Dbs.entry_insert, Dbs.entry_makeRoom hd, CacheEntry.new_none]
  by_cases hk : key = k
  · subst hk
    simp
  · simp [hk]

theorem store (he : s.entry (env.addr db key) key = some e) (h0 : e.expiresAtMs = 0) {v : DataType}
    (hv : Represents (some ⟨v, 0⟩) (some b)) :
    (Handler.store (env.addr db key) key v draw s).2.Holds db (m.put key b) := by
  refine h.put hv fun k => ?_
  unfold Handler.store
  rw [he]
  dsimp only
  rw [Dbs.entry_write, h0]
  by_cases hk : key = k
  · subst hk
    simp
  · simp [hk]

/-! ## What the handlers find -/

theorem fetch (key : Key) (draw : Draw) :
    Handler.fetch (env.addr db key) key draw s
      = (.ok (((s.entry (env.addr db key) key).map Fetched.live).getD .missing), s) := by
  unfold Handler.fetch
  have hk := h key
  revert hk
  generalize s.entry (env.addr db key) key = e
  generalize m key = o
  rintro (_ | b | ⟨n, hn⟩)
  · rfl
  · rfl
  · rfl

theorem find (key : Key) (draw : Draw) :
    Handler.find db key draw s
      = (.ok ((s.entry (env.addr db key) key).map CacheEntry.value), s) := by
  unfold Handler.find
  rw [Prog.bind_apply, h.fetch]
  cases s.entry (env.addr db key) key <;> rfl

theorem exists_ (key : Key) (draw : Draw) :
    Handler.exists_ (env.addr db key) key draw s = (.ok (m key).isSome, s) := by
  have hk := h key
  unfold Handler.exists_
  rw [Prog.bind_apply, h.fetch]
  revert hk
  generalize s.entry (env.addr db key) key = e
  generalize m key = o
  rintro (_ | b | ⟨n, hn⟩) <;> rfl

/-- A key that holds no counter. -/
theorem entry_bytes (hb : ∀ e n, s.entry (env.addr db key) key = some e → e.value ≠ .integer n) :
    s.entry (env.addr db key) key = (m key).map fun b => ⟨.string b, 0⟩ := by
  have hk := h key
  revert hb hk
  generalize s.entry (env.addr db key) key = e
  generalize m key = o
  rintro hb (_ | b | ⟨n, hn⟩)
  · rfl
  · rfl
  · exact absurd rfl (hb _ n rfl)

/-- Reading a string. -/
theorem onString (hb : ∀ e n, s.entry (env.addr db key) key = some e → e.value ≠ .integer n)
    (f : Bytes → Reply) (draw : Draw) :
    Handler.onString db key f draw s = (.ok (f (m.bytes key)), s) := by
  unfold Handler.onString StringMap.bytes
  rw [Prog.bind_apply, h.find, h.entry_bytes hb]
  cases m key <;> rfl

end

end Dbs.Holds

namespace Handler

variable {s : Dbs env} {a : Addr env} {key : Key} {draw : Draw}

/-- The handler cuts its positions off at the end of the string. -/
theorem rangeIndex_eq (len : Nat) (p : Int) :
    rangeIndex len p = min (if p < 0 then p + len else p).toNat len := by
  unfold rangeIndex
  split <;> omega

theorem rangeOf_eq_slice (start stop : Int) (b : Bytes) :
    rangeOf start stop b = StringMap.slice start stop b := by
  unfold rangeOf StringMap.slice
  rw [rangeIndex_eq, rangeIndex_eq]
  dsimp only
  generalize (if start < 0 then start + (b.length : Int) else start).toNat = p
  generalize (if stop < 0 then stop + (b.length : Int) else stop).toNat = q
  by_cases hp : b.length ≤ p
  · rw [if_pos (.inr (by omega)), List.drop_of_length_le hp, List.take_nil]
  rw [min_eq_left (by omega : p ≤ b.length)]
  by_cases hqp : q < p
  · rw [if_pos (.inl (by omega)), show q + 1 - p = 0 by omega, List.take_zero]
  rw [if_neg (by omega)]
  by_cases hq : b.length ≤ q
  · rw [if_pos (by omega), List.take_of_length_le (by rw [List.length_drop]; omega)]
  · rw [if_neg (by omega), min_eq_left (by omega), show q - p + 1 = q + 1 - p by omega]

end Handler

/-! ## One command -/

/-- The handler ends with `r`, and the store then holds `m`. -/
def Handler.Yields (h : Handler env Reply) (db : Fin numDatabases) (draw : Draw) (s : Dbs env)
    (r : Result Reply) (m : StringMap) : Prop :=
  (h draw s).1 = r ∧ (h draw s).2.Holds db m

namespace Dbs.Holds

variable {db : Fin numDatabases} {s : Dbs env} {m : StringMap} {draw : Draw} {key : Key}

theorem yields_of_eq {h : Handler env Reply} {r : Result Reply} (hs : s.Holds db m)
    (he : h draw s = (r, s)) : h.Yields db draw s r m := by
  unfold Yields
  rw [he]
  exact ⟨rfl, hs⟩

theorem yields_set (h : s.Holds db m) (hd : draw.Evictionless) (value : Bytes)
    (option : Option SetOption) :
    Yields (do return if ← setCmd db key value none option then .ok else .nil)
      db draw s ((StringCommand.set key value option).meaning m).1
      ((StringCommand.set key value option).meaning m).2 := by
  have hblocked : blocked (env.addr db key) key option draw s
      = (.ok (m.forbids key option), s) := by
    rcases option with _ | _ | _
    · rfl
    · exact h.exists_ key draw
    · show ((do return !(← Handler.exists_ (env.addr db key) key)) : Handler env Bool) draw s = _
      rw [Prog.bind_apply, h.exists_]
      unfold StringMap.forbids
      cases m key <;> rfl
  have hset : setCmd db key value none option draw s =
      if m.forbids key option then (.ok false, s)
      else (.ok true, (Handler.set (env.addr db key) key (.string value) none draw s).2) := by
    unfold setCmd
    rw [Prog.bind_apply, hblocked]
    cases m.forbids key option <;> rfl
  unfold Yields StringCommand.meaning
  dsimp only
  rw [Prog.bind_apply, hset]
  cases m.forbids key option
  · exact ⟨rfl, h.set hd (.bytes value)⟩
  · exact ⟨rfl, h⟩

section

variable (hb : ∀ e n, s.entry (env.addr db key) key = some e → e.value ≠ .integer n)

include hb

theorem yields_get (h : s.Holds db m) :
    (getCmd db key).Yields db draw s (.ok (m.reply key)) m := by
  refine h.yields_of_eq ?_
  unfold getCmd StringMap.reply
  rw [Prog.bind_apply, h.find, h.entry_bytes hb]
  cases m key <;> rfl

variable (h : s.Holds db m) (hd : draw.Evictionless) (offset : Nat) (value : Bytes)

include h hd value in
theorem yields_getSet :
    (getsetCmd db key value).Yields db draw s
      (.ok (((m key).map fun s => Reply.stored (.string s)).getD .nil)) (m.put key value) := by
  unfold Yields getsetCmd
  rw [Prog.bind_apply, h.find, h.entry_bytes hb]
  refine ⟨?_, h.set hd (.bytes value)⟩
  cases m key <;> rfl

include h hd value in
theorem yields_append :
    (appendCmd db key value).Yields db draw s
      (.ok (.integer (m.bytes key ++ value).length)) (m.put key (m.bytes key ++ value)) := by
  have he := h.entry_bytes hb
  unfold Yields appendCmd StringMap.bytes
  cases hm : m key with
  | none =>
    rw [hm] at he
    simp only [Kind.update, Prog.bind_apply, look, he]
    exact ⟨rfl, h.set hd (.bytes value)⟩
  | some b =>
    rw [hm] at he
    rw [update_string he]
    exact ⟨rfl, h.store he rfl (.bytes _)⟩

include h hd in
/-- `SETRANGE` and `SETBIT`: a missing key is created first, with zeros that the change would have
put there anyway. -/
theorem yields_zeroFilled (expected : String) {len : Nat} {f : Bytes → Result Reply × Bytes}
    (hf : f (List.replicate len 0) = f []) :
    (zeroFilled db key expected len f).Yields db draw s (f (m.bytes key)).1
      (m.put key (f (m.bytes key)).2) := by
  have he := h.entry_bytes hb
  unfold Yields StringMap.bytes
  cases hm : m key with
  | none =>
    rw [hm] at he
    have hset : (Handler.set (env.addr db key) key (.string (List.replicate len 0)) none draw
        s).2.Holds db (m.put key (List.replicate len 0)) := h.set hd (.bytes _)
    have hstore : (Handler.store (env.addr db key) key (.string (f []).2) draw
        (Handler.set (env.addr db key) key (.string (List.replicate len 0)) none draw s).2).2.Holds
          db ((m.put key (List.replicate len 0)).put key (f []).2) :=
      hset.store (entry_set_self _) rfl (.bytes _)
    rw [StringMap.put_put] at hstore
    rw [zeroFilled_of_missing he, hf]
    exact ⟨rfl, hstore⟩
  | some b =>
    rw [hm] at he
    rw [zeroFilled_of_entry he, update_string he]
    exact ⟨rfl, h.store he rfl (.bytes _)⟩

include h hd offset value in
theorem yields_setRange (hempty : value = [] → ∃ b, m key = some b ∧ offset ≤ b.length) :
    (setrangeCmd db key offset value).Yields db draw s
      ((StringCommand.setRange key offset value).meaning m).1
      ((StringCommand.setRange key offset value).meaning m).2 := by
  cases value with
  | nil =>
    obtain ⟨b, hm, hlen⟩ := hempty rfl
    have he := h.entry_bytes hb
    rw [hm] at he
    refine h.yields_of_eq ?_
    unfold setrangeCmd
    rw [Prog.bind_apply, look, he]
    show (Except.ok (Reply.integer (max b.length offset)), s)
      = (Except.ok (Reply.integer ((m key).getD []).length), s)
    rw [hm, Option.getD_some, max_eq_left (Int.ofNat_le.mpr hlen)]
  | cons x rest =>
    -- with something to write, the handler does not look at what is there first
    have hrun : setrangeCmd db key offset (x :: rest) draw s
        = zeroFilled db key "String" offset (fun s =>
          (.ok (.integer (overwrite offset (x :: rest) s).length),
            overwrite offset (x :: rest) s)) draw s := rfl
    unfold Yields
    rw [hrun]
    exact h.yields_zeroFilled hb hd "String" (by
      simp [overwrite, zeroExtend])

include h hd offset in
theorem yields_setBit (value : UInt8) :
    (setbitCmd db key offset value).Yields db draw s
      ((StringCommand.setBit key offset value).meaning m).1
      ((StringCommand.setBit key offset value).meaning m).2 := by
  unfold setbitCmd StringCommand.meaning
  dsimp only
  split
  · exact h.yields_of_eq rfl
  · exact h.yields_zeroFilled hb hd "string" (by
      simp [setBitAt, zeroExtend])

end

theorem yields_mGet (h : s.Holds db m) (keys : List Key)
    (hb : ∀ key ∈ keys, ∀ e n, s.entry (env.addr db key) key = some e → e.value ≠ .integer n) :
    (mgetCmd db keys).Yields db draw s (.ok (.array (keys.map m.reply))) m := by
  have hcollect : ∀ l : List Key, Prog.collect (Handler.find db) l draw s
      = (.ok (l.map fun key => (s.entry (env.addr db key) key).map CacheEntry.value), s) := by
    intro l
    induction l with
    | nil => rfl
    | cons key rest ih =>
      rw [Prog.collect, Prog.bind_apply, h.find]
      dsimp only
      rw [Prog.bind_apply, ih]
      rfl
  have hitem : ∀ key ∈ keys,
      mgetItem ((s.entry (env.addr db key) key).map CacheEntry.value) = m.reply key := by
    intro key hk
    rw [h.entry_bytes (hb key hk), StringMap.reply]
    cases m key <;> rfl
  refine h.yields_of_eq ?_
  unfold mgetCmd
  rw [Prog.bind_apply, hcollect]
  show (Except.ok (Reply.array (List.map _ (List.map _ keys))), s) = _
  rw [List.map_map]
  exact congrArg (fun items => (Except.ok (Reply.array items), s)) (List.map_congr_left hitem)

/-- A number that is stored, as an integer or as text. -/
theorem yields_incrBy_stored (h : s.Holds db m) {n increment total : Int}
    (he : s.entry (env.addr db key) key = some e) (h0 : e.expiresAtMs = 0)
    (hn : counterOf key e.value = .ok n) (ht : wrapI64 (n + increment) = total) :
    (incrbyCmd db key increment).Yields db draw s (.ok (.integer total))
      (m.put key (utf8 (toString total))) := by
  have hin : InI64 total := ht ▸ inI64_wrapI64 _
  have hrun : incrbyCmd db key increment draw s = (.ok (.integer total),
      (Handler.store (env.addr db key) key (.integer total) draw s).2) := by
    simp only [incrbyCmd, Prog.bind_apply, look, he, hn, Prog.ofExcept, ht,
      Handler.store]
    rfl
  unfold Yields
  rw [hrun]
  exact ⟨rfl, h.store he h0 (.counter total hin)⟩

/-- A counter is read as an integer, a string is parsed, and both are stored as an integer. The
increment of `DECRBY` has been wrapped already. -/
theorem yields_incrBy (h : s.Holds db m) (hd : draw.Evictionless) {increment exact : Int}
    (hw : increment = exact ∨ increment = wrapI64 exact)
    (hrange : ∀ n, m.number key = some n → InI64 (n + exact)) :
    (incrbyCmd db key increment).Yields db draw s (m.addTo key exact).1
      (m.addTo key exact).2 := by
  have htotal : ∀ n, m.number key = some n → wrapI64 (n + increment) = n + exact := by
    intro n hn
    rcases hw with rfl | rfl
    · exact wrapI64_eq_iff.mpr (hrange n hn)
    · rw [wrapI64_add_wrapI64, wrapI64_eq_iff.mpr (hrange n hn)]
  have hk := h key
  unfold StringMap.addTo
  cases hm : m key with
  | none =>
    have hnum : m.number key = some 0 := by rw [StringMap.number, hm]
    have hinc : increment = 0 + exact := by
      have hin := hrange 0 hnum
      rw [Int.zero_add] at hin ⊢
      rcases hw with rfl | rfl
      · rfl
      · exact wrapI64_eq_iff.mpr hin
    rw [hm] at hk
    generalize he : s.entry (env.addr db key) key = e at hk
    cases hk
    rw [hnum]
    dsimp only
    rw [← hinc]
    have hin : InI64 increment := hinc ▸ hrange 0 hnum
    have hrun : incrbyCmd db key increment draw s = (.ok (.integer increment),
        (Handler.set (env.addr db key) key (.integer increment) none draw s).2) := by
      simp only [incrbyCmd, Prog.bind_apply, look, he]
      rfl
    unfold Yields
    rw [hrun]
    exact ⟨rfl, h.set hd (.counter increment hin)⟩
  | some b =>
    have hnum : m.number key = integerText b := by rw [StringMap.number, hm]
    rw [hm] at hk
    generalize he : s.entry (env.addr db key) key = e at hk
    cases hk with
    | bytes b =>
      rw [hnum]
      cases hi : integerText b with
      | none =>
        refine h.yields_of_eq ?_
        simp only [incrbyCmd, Prog.bind_apply, look, he, counterOf, hi,
          Prog.ofExcept]
        rfl
      | some n =>
        refine h.yields_incrBy_stored he rfl ?_ (htotal n (hnum.trans hi))
        simp only [counterOf, hi]
    | counter n hin =>
      have hi := integerText_toString hin.1 hin.2
      rw [hnum, hi]
      exact h.yields_incrBy_stored he rfl rfl (htotal n (hnum.trans hi))

/-- **One command answers as the map does**, and the store then holds the new map. -/
theorem yields (h : s.Holds db m) (hd : draw.Evictionless) {cmd : StringCommand}
    (hs : cmd.Suits db s m) (hr : cmd.InRange m) :
    (cmd.run db : Handler env Reply).Yields db draw s (cmd.meaning m).1 (cmd.meaning m).2 := by
  cases cmd with
  | set key value option => exact h.yields_set hd value option
  | get key => exact h.yields_get (hs.bytes key List.mem_cons_self)
  | mGet keys => exact h.yields_mGet keys hs.bytes
  | getSet key value => exact h.yields_getSet (hs.bytes key List.mem_cons_self) hd value
  | append key value => exact h.yields_append (hs.bytes key List.mem_cons_self) hd value
  | strLen key =>
    exact h.yields_of_eq
      (h.onString (hs.bytes key List.mem_cons_self) (fun b => .integer b.length) draw)
  | getRange key start stop =>
    rw [StringCommand.meaning, ← rangeOf_eq_slice]
    exact h.yields_of_eq (h.onString (hs.bytes key List.mem_cons_self)
      (fun b => .string (rangeOf start stop b)) draw)
  | setRange key offset value =>
    refine h.yields_setRange (hs.bytes key List.mem_cons_self) hd offset value ?_
    rintro rfl
    exact hs.empty key offset rfl
  | incr key => exact h.yields_incrBy hd (.inl rfl) fun n => hr key 1 n rfl
  | incrBy key i => exact h.yields_incrBy hd (.inl rfl) fun n => hr key i n rfl
  | decr key => exact h.yields_incrBy hd (.inl rfl) fun n => hr key (-1) n rfl
  | decrBy key i => exact h.yields_incrBy hd (.inr rfl) fun n => hr key (-i) n rfl
  | setBit key offset value =>
    exact h.yields_setBit (hs.bytes key List.mem_cons_self) hd offset value
  | getBit key offset =>
    exact h.yields_of_eq (h.onString (hs.bytes key List.mem_cons_self)
      (fun b => .ofBool (bitAt offset b)) draw)

end Dbs.Holds

/-! ## A sequence of commands -/

namespace StringCommand

/-- The replies of the store. -/
def replies (db : Fin numDatabases) : List (Draw × StringCommand) → Dbs env → List (Result Reply)
  | [], _ => []
  | (draw, cmd) :: rest, s =>
    (cmd.run db draw s).1 :: replies db rest (cmd.run db draw s).2

/-- The replies of the map. -/
def meanings : List (Draw × StringCommand) → StringMap → List (Result Reply)
  | [], _ => []
  | (_, cmd) :: rest, m => (cmd.meaning m).1 :: meanings rest (cmd.meaning m).2

/-- No result leaves the range of `i64`. -/
def AllInRange : List (Draw × StringCommand) → StringMap → Prop
  | [], _ => True
  | (_, cmd) :: rest, m => cmd.InRange m ∧ AllInRange rest (cmd.meaning m).2

/-- Each command suits what it finds. -/
def AllSuit (db : Fin numDatabases) : List (Draw × StringCommand) → Dbs env → StringMap → Prop
  | [], _, _ => True
  | (draw, cmd) :: rest, s, m =>
    cmd.Suits db s m ∧ AllSuit db rest (cmd.run db draw s).2 (cmd.meaning m).2

end StringCommand

open StringCommand

/-- **The string commands refine a map from keys to byte strings**, where the commands suit what
they find. -/
theorem refines_map (db : Fin numDatabases) (calls : List (Draw × StringCommand)) (s : Dbs env)
    (m : StringMap) (h : s.Holds db m) (hd : ∀ call ∈ calls, call.1.Evictionless)
    (hr : AllInRange calls m) (hs : AllSuit db calls s m) :
    replies db calls s = meanings calls m := by
  induction calls generalizing s m with
  | nil => rfl
  | cons call rest ih =>
    obtain ⟨draw, cmd⟩ := call
    obtain ⟨hreply, hholds⟩ := h.yields (hd _ List.mem_cons_self) hs.1 hr.1
    have htail := ih _ _ hholds (fun c hc => hd c (List.mem_cons_of_mem _ hc)) hr.2 hs.2
    rw [replies, meanings, hreply, htail]

namespace Sample

/-- The commands at one moment, without eviction. -/
def calls (cmds : List StringCommand) : List (Draw × StringCommand) := cmds.map (draw 0, ·)

theorem calls_evictionless (cmds : List StringCommand) :
    ∀ call ∈ calls cmds, call.1.Evictionless := by
  intro call hc
  obtain ⟨cmd, -, rfl⟩ := List.mem_map.mp hc
  exact draw_evictionless 0

def isCounter : DataType → Bool
  | .integer _ => true
  | _ => false

theorem not_counter {s : Dbs env} {a : Addr env} {key : Key}
    (h : (s.entry a key).any (fun e => isCounter e.value) = false) :
    ∀ e n, s.entry a key = some e → e.value ≠ .integer n := by
  intro e n he hv
  simp [he, hv, isCounter] at h

/-- The text of a reply. -/
def text : Result Reply → Option Bytes
  | .ok (.integer n) => some (utf8 (toString n))
  | .ok (.string s) => some s
  | _ => none

end Sample

/-- A counter, and a string next to it. -/
theorem refines_map_beside_counter :
    replies 0 (Sample.calls [.incr "k", .append "j" [0x61], .get "j"]) (Dbs.fresh : Dbs Sample.env)
      = meanings (Sample.calls [.incr "k", .append "j" [0x61], .get "j"]) fun _ => none := by
  refine refines_map 0 _ _ _ (holds_fresh 0) (calls_evictionless _) ?_ ?_
  · refine ⟨?_, ?_, ?_, trivial⟩
    · rintro key i n ⟨⟩ ⟨⟩
      exact (by decide : InI64 (0 + 1))
    · rintro key i n ⟨⟩
    · rintro key i n ⟨⟩
  · refine ⟨⟨nofun, nofun⟩, ⟨?_, nofun⟩, ⟨?_, nofun⟩, trivial⟩
    · intro key hk
      obtain rfl := List.mem_singleton.mp hk
      exact not_counter (by decide +kernel)
    · intro key hk
      obtain rfl := List.mem_singleton.mp hk
      exact not_counter (by decide +kernel)

/-- Commands within `i64` that the store does not answer as the map does. -/
def Sample.Differ (cmds : List StringCommand) : Prop :=
  (∀ call ∈ Sample.calls cmds, call.1.Evictionless) ∧
  AllInRange (Sample.calls cmds) (fun _ => none) ∧
  replies 0 (Sample.calls cmds) (Dbs.fresh : Dbs Sample.env)
    ≠ meanings (Sample.calls cmds) fun _ => none

/-- `GET` of a counter fails, and `SETRANGE` with nothing to write answers with its offset. -/
theorem counter_not_text :
    Differ [.incr "k", .get "k"] ∧ Differ [.setRange "k" 3 []] := by
  refine ⟨⟨calls_evictionless _, ⟨?_, ?_, trivial⟩, fun he => ?_⟩,
    ⟨calls_evictionless _, ⟨?_, trivial⟩, fun he => ?_⟩⟩
  · rintro key i n ⟨⟩ ⟨⟩
    exact (by decide : InI64 (0 + 1))
  · rintro key i n ⟨⟩
  · exact absurd (congrArg (List.map text) he) (by decide +kernel)
  · rintro key i n ⟨⟩
  · exact absurd (congrArg (List.map text) he) (by decide +kernel)

end Calod.Store
