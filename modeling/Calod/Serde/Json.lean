import Mathlib

/-!
# JSON values and their canonical bytes

`serde_json::Value` as the ledger uses it, and the canonical rendering of
`calod-ledger/src/digest.rs`. The input digest, the event hash and the checkpoint digest
are all taken over these bytes.

* `Number` keeps the three cases of `serde_json::Number`. A float is held by its bits;
  its decimal rendering belongs to `serde_json` and is a parameter (`formatF64`).
* `Value.json` stands for the `json!` macro. `serde_json::Map` is a `BTreeMap` here
  (`preserve_order` is off), so the entries are kept in key order.
-/

namespace Calod.Serde

/-- The UTF-8 bytes of a string (`str::as_bytes`). -/
def utf8 (s : String) : List UInt8 := s.toUTF8.data.toList

inductive Number where
  | posInt (n : Nat)
  | negInt (n : Int)
  | float (bits : UInt64)
  deriving DecidableEq, Repr

inductive Value where
  | null
  | bool (b : Bool)
  | number (n : Number)
  | string (s : String)
  | array (items : List Value)
  | object (entries : List (String × Value))

namespace Value

/-- Induction over values: the items of an array and the values of an object have the property. -/
@[elab_as_elim, induction_eliminator]
theorem induct {motive : Value → Prop} (null : motive .null) (bool : ∀ b, motive (.bool b))
    (number : ∀ n, motive (.number n)) (string : ∀ s, motive (.string s))
    (array : ∀ items, (∀ v ∈ items, motive v) → motive (.array items))
    (object : ∀ entries, (∀ e ∈ entries, motive e.2) → motive (.object entries)) (v : Value) :
    motive v :=
  @Value.rec motive (fun items => ∀ v ∈ items, motive v) (fun entries => ∀ e ∈ entries, motive e.2)
    (fun e => motive e.2) null bool number string array object nofun
    (fun _ _ hv hrest => List.forall_mem_cons.mpr ⟨hv, hrest⟩) nofun
    (fun _ _ he hrest => List.forall_mem_cons.mpr ⟨he, hrest⟩) (fun _ _ hv => hv) v

/-- `json!({ ... })`: the entries go into a `BTreeMap`, so they come out in key order. -/
def json (entries : List (String × Value)) : Value :=
  .object (entries.insertionSort fun a b => a.1 ≤ b.1)

/-- `Value::from(i64)`. -/
def ofInt (n : Int) : Value :=
  if 0 ≤ n then .number (.posInt n.toNat) else .number (.negInt n)

end Value

/-! ## Rendering -/

/-- `serde_json::Number::to_string`. -/
def Number.render (formatF64 : UInt64 → String) : Number → String
  | .posInt n => toString n
  | .negInt n => toString n
  | .float bits => formatF64 bits

/-- One lowercase hex digit. -/
def hexDigit (n : Nat) : Char :=
  if n < 10 then Char.ofNat (0x30 + n) else Char.ofNat (0x61 + n - 10)

/-- The minimal JSON escape of one character, as `serde_json` writes it. -/
def escapeChar (c : Char) : List Char :=
  if c = '"' then ['\\', '"']
  else if c = '\\' then ['\\', '\\']
  else if c.toNat = 0x08 then ['\\', 'b']
  else if c.toNat = 0x09 then ['\\', 't']
  else if c.toNat = 0x0A then ['\\', 'n']
  else if c.toNat = 0x0C then ['\\', 'f']
  else if c.toNat = 0x0D then ['\\', 'r']
  else if c.toNat < 0x20 then
    ['\\', 'u', '0', '0', hexDigit (c.toNat / 16), hexDigit (c.toNat % 16)]
  else [c]

/-- `serde_json::to_string` of a string: quoted and escaped. -/
def encodeString (s : String) : List UInt8 :=
  utf8 (String.ofList ('"' :: s.toList.flatMap escapeChar ++ ['"']))

/-- Items separated by commas. -/
def commaSeparated : List (List UInt8) → List UInt8
  | [] => []
  | [item] => item
  | item :: rest => item ++ 0x2C :: commaSeparated rest

/-- `{` … `}` around entries that are already rendered, sorted by key. -/
def renderObject (entries : List (String × List UInt8)) : List UInt8 :=
  let sorted := entries.insertionSort fun a b => a.1 ≤ b.1
  0x7B :: commaSeparated (sorted.map fun e => encodeString e.1 ++ 0x3A :: e.2) ++ [0x7D]

mutual

/--
`canonical_json`. The source sorts the keys and then renders; here every entry is
rendered first and the rendered entries are sorted, so that the recursion follows the value.
-/
def canonicalJson (formatF64 : UInt64 → String) : Value → List UInt8
  | .null => utf8 "null"
  | .bool b => utf8 (if b then "true" else "false")
  | .number n => utf8 (n.render formatF64)
  | .string s => encodeString s
  | .array items => 0x5B :: commaSeparated (canonicalItems formatF64 items) ++ [0x5D]
  | .object entries => renderObject (canonicalEntries formatF64 entries)

def canonicalItems (formatF64 : UInt64 → String) : List Value → List (List UInt8)
  | [] => []
  | v :: rest => canonicalJson formatF64 v :: canonicalItems formatF64 rest

def canonicalEntries (formatF64 : UInt64 → String) :
    List (String × Value) → List (String × List UInt8)
  | [] => []
  | (key, v) :: rest =>
    (key, canonicalJson formatF64 v) :: canonicalEntries formatF64 rest

end

/-- `canonical_json_into`: the canonical bytes are appended to `out`. -/
def canonicalJsonInto (formatF64 : UInt64 → String) (value : Value) (out : List UInt8) :
    List UInt8 :=
  out ++ canonicalJson formatF64 value

end Calod.Serde
