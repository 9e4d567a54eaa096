import Calod.Store.SortedSet
import Calod.Store.Stream

/-!
# Values, entries and replies

`calod-core/src/store/calod_data.rs` and `error.rs`. The source has one type for stored values and
for replies; here `DataType` holds what a key can store and `Reply` what a handler returns.
-/

namespace Calod.Store

open Lib

/-! ## Stored values -/

inductive DataType where
  | integer (n : Int)
  | string (bytes : Bytes)
  | list (items : List Bytes)
  | set (members : Map Bytes Unit)
  | hash (fields : Map Bytes Bytes)
  | sortedSet (data : SortedSetData)
  | stream (data : StreamData)
  | document (json : Json)

namespace DataType

/-- `data_type`. -/
def dataType : DataType → String
  | .integer _ => "Integer"
  | .string _ => "String"
  | .list _ => "List"
  | .set _ => "Set"
  | .hash _ => "DashMap"
  | .sortedSet _ => "SortedSet"
  | .stream _ => "Stream"
  | .document _ => "Document"

end DataType

/-- The creation time is left out: only the order of the eviction candidates depends on it. -/
structure CacheEntry where
  value : DataType
  /-- `0` for no expiry. -/
  expiresAtMs : Nat

namespace CacheEntry

/-- `now_ms + duration.as_millis() as u64`, for a duration in milliseconds. -/
def deadline (now duration : Nat) : Nat := wrapU64 (now + wrapU64 duration)

/-- `CacheEntry::new`. -/
def new (now : Nat) (value : DataType) (ttl : Option Nat) : CacheEntry where
  value := value
  expiresAtMs := (ttl.map (deadline now)).getD 0

/-- `is_expired`. -/
def isExpired (now : Nat) (entry : CacheEntry) : Bool :=
  entry.expiresAtMs ≠ 0 && entry.expiresAtMs ≤ now

/-- An entry that is created without a time to live does not depend on the clock. -/
@[simp] theorem new_none (now : Nat) (value : DataType) : new now value none = ⟨value, 0⟩ := rfl

/-- `pttl`. -/
def pttl (now : Nat) (entry : CacheEntry) : Option Int :=
  if entry.expiresAtMs = 0 then none else some (wrapI64 ↑(entry.expiresAtMs - now))

theorem isExpired_of_eq_zero {now : Nat} {entry : CacheEntry} (h : entry.expiresAtMs = 0) :
    entry.isExpired now = false := by
  simp [isExpired, h]

end CacheEntry

/-- What the commands do to the expiry of an entry. -/
inductive Expiry where
  /-- `expire_in`, in milliseconds. -/
  | after (duration : Nat)
  /-- `expire_at_ms`. -/
  | at (ms : Nat)
  /-- `persist`. -/
  | never
  deriving DecidableEq, Repr

/-- The expiry time that is written at `now`. -/
def Expiry.time (now : Nat) : Expiry → Nat
  | .after duration => CacheEntry.deadline now duration
  | .at ms => ms
  | .never => 0

/-! ## Replies and errors -/

inductive Reply where
  | nil
  | nilArray
  | integer (n : Int)
  | status (s : String)
  | string (bytes : Bytes)
  | double (x : F64)
  | array (items : List Reply)
  | list (items : List Bytes)
  | hash (fields : Map Bytes Bytes)
  | stored (value : DataType)

namespace Reply

def ok : Reply := .status "OK"

def ofBool (b : Bool) : Reply := .integer (if b then 1 else 0)

def text (s : String) : Reply := .string (Serde.utf8 s)

end Reply

/-- `CacheError`, the variants that the commands return. -/
inductive CacheError where
  | keyNotFound (key : Key)
  | keyExpired (key : Key)
  | invalidCommandArguments (msg : String)
  | internalError (msg : String)
  | dataTypeMismatch (key : Key) (expected found : String)
  | invalidScoreFormat
  | indexOutOfRange
  | notAnInteger
  deriving DecidableEq, Repr

/-- How a handler ends if it does not return a value; the release profile aborts on a panic. -/
inductive Failure where
  | error (e : CacheError)
  | panicked
  deriving DecidableEq, Repr

abbrev Result := Except Failure

def fail {α : Type} (e : CacheError) : Result α := .error (.error e)

end Calod.Store
