import Calod.Serde.Json

/-!
# Digests and timestamps

`calod-ledger/src/digest.rs`: hex, `sha256_digest`, `digest_bytes`, `input_digest` and
`format_timestamp`.

What the crate takes from other crates is one record, `Crates`. Every result of the
development holds for all values of it, except where a hypothesis names the property it
needs (that `sha256` does not collide on the lease tokens of a run).
-/

namespace Calod.Ledger

open Calod.Serde

/-- `uuid::Uuid`, a `u128`. -/
abbrev Uuid := BitVec 128

instance : Std.TransOrd Uuid := inferInstance

/-- The functions of third-party crates that the ledger calls. -/
structure Crates where
  /-- `sha2::Sha256::digest`. -/
  sha256 : List UInt8 → List UInt8
  /-- How `serde_json` prints an `f64`, given by its bits. -/
  formatF64 : UInt64 → String
  /-- `uuid::Uuid::parse_str`. -/
  parseUuid : String → Option Uuid

/-! ## Uuid rendering -/

/-- The 32 hex digits of a uuid, most significant first. -/
def Uuid.hexDigits (id : Uuid) : List Char :=
  (List.range 32).map fun i => hexDigit (id.toNat / 16 ^ (31 - i) % 16)

/-- `Uuid::simple`: 32 hex digits without hyphens. -/
def Uuid.simple (id : Uuid) : String := String.ofList id.hexDigits

/-- `Uuid::to_string`, also its JSON form: groups of 8, 4, 4, 4 and 12 digits. -/
def Uuid.toString (id : Uuid) : String :=
  let d := id.hexDigits
  String.ofList (d.take 8 ++ '-' :: (d.drop 8).take 4 ++ '-' :: (d.drop 12).take 4
    ++ '-' :: (d.drop 16).take 4 ++ '-' :: d.drop 20)

/-! ## Hex and SHA-256 -/

/-- SHA-256 of the empty byte string: the `previous_hash` of every run's first event. -/
def genesisHash : String :=
  "sha256:e3b0c44298fc1c149afbf4c8996fb92427ae41e4649b934ca495991b7852b855"

def hexEncode (bytes : List UInt8) : String :=
  String.ofList (bytes.flatMap fun b => [hexDigit (b.toNat / 16), hexDigit (b.toNat % 16)])

/-- `char::to_digit(16)`. Upper case is accepted too. -/
def toDigit16 (c : Char) : Option Nat :=
  let n := c.toNat
  if 0x30 ≤ n && n ≤ 0x39 then some (n - 0x30)
  else if 0x61 ≤ n && n ≤ 0x66 then some (n - 0x61 + 10)
  else if 0x41 ≤ n && n ≤ 0x46 then some (n - 0x41 + 10)
  else none

/-- The loop of `hex_decode_32`: two digits a byte, failing on the first bad digit. -/
def hexDecodePairs : List Char → Option (List UInt8)
  | [] => some []
  | [_] => none
  | hi :: lo :: rest => do
    let hi ← toDigit16 hi
    let lo ← toDigit16 lo
    let bytes ← hexDecodePairs rest
    return UInt8.ofNat (hi * 16 + lo) :: bytes

def hexDecode32 (hex : String) : Option (List UInt8) :=
  if hex.utf8ByteSize ≠ 64 then none else hexDecodePairs hex.toList

/-- SHA-256 of `bytes`, rendered as `sha256:` and 64 lowercase hex digits. -/
def sha256Digest (crates : Crates) (bytes : List UInt8) : String :=
  "sha256:" ++ hexEncode (crates.sha256 bytes)

/-- Strip the `sha256:` prefix and decode the 32 raw bytes. -/
def digestBytes (rendered : String) : Option (List UInt8) :=
  if "sha256:".toList.isPrefixOf rendered.toList then
    hexDecode32 (String.ofList (rendered.toList.drop 7))
  else none

/-- The idempotency digest of an input: over its canonical bytes. -/
def inputDigest (crates : Crates) (input : Value) : String :=
  sha256Digest crates (canonicalJson crates.formatF64 input)

/-! ## Timestamps -/

/-- `{n:0width}`: zero padded, the sign counting towards the width. -/
def padded (width : Nat) (n : Int) : String :=
  let sign := if n < 0 then "-" else ""
  let digits := ToString.toString n.natAbs
  sign ++ String.ofList (List.replicate (width - sign.length - digits.length) '0') ++ digits

/-- Days since 1970-01-01 to (year, month, day) in the proleptic Gregorian calendar. -/
def civilFromDays (days : Int) : Int × Int × Int :=
  let z := days + 719468
  let era := z / 146097
  let doe := z % 146097
  let yoe := (doe - doe / 1460 + doe / 36524 - doe / 146096) / 365
  let year := yoe + era * 400
  let doy := doe - (365 * yoe + yoe / 4 - yoe / 100)
  let mp := (5 * doy + 2) / 153
  let day := doy - (153 * mp + 2) / 5 + 1
  let month := if mp < 10 then mp + 3 else mp - 9
  (if month ≤ 2 then year + 1 else year, month, day)

/-- Milliseconds since the epoch as RFC 3339; the fraction is printed only when nonzero. -/
def formatTimestamp (ms : Int) : String :=
  let secs := ms / 1000
  let subMs := ms % 1000
  let days := secs / 86400
  let secsOfDay := secs % 86400
  let (year, month, day) := civilFromDays days
  let hour := secsOfDay / 3600
  let minute := secsOfDay % 3600 / 60
  let second := secsOfDay % 60
  let whole := padded 4 year ++ "-" ++ padded 2 month ++ "-" ++ padded 2 day ++ "T"
    ++ padded 2 hour ++ ":" ++ padded 2 minute ++ ":" ++ padded 2 second
  if subMs = 0 then whole ++ "Z" else whole ++ "." ++ padded 3 subMs ++ "Z"

end Calod.Ledger
