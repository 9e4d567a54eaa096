import Calod.Lib.Sha256
import Calod.Ledger.Indexes

/-!
# Configuration, leases and partitions

`LedgerConfig` of `calod-ledger/src/ledger.rs`, and the helpers that read it. A `Duration` is a
number of nanoseconds.

`Env` is what every operation is given: the configuration, the functions of other crates, and
the sizes of what `serde_json` writes. Encoded records themselves do not appear: a WAL record
holds its `RecordKind`, and only its length decides where it goes.
-/

namespace Calod.Ledger

open Calod.Serde

/-! ## Durations -/

def Duration.fromSecs (secs : Nat) : Nat := secs * 1000000000

def Duration.asSecs (duration : Nat) : Nat := duration / 1000000000

def Duration.asMillis (duration : Nat) : Nat := duration / 1000000

/-! ## Configuration -/

structure LedgerConfig where
  /-- `wal.max_segment_size`. -/
  maxSegmentSize : Nat
  snapshotDir : String
  partitions : Nat
  defaultLease : Nat
  minLease : Nat
  maxLease : Nat

def defaultMaxSegmentSize : Nat := 64 * 1024 * 1024

def defaultPartitions : Nat := 64

/-- `LedgerConfig::new`. -/
def LedgerConfig.new (dir : String) : LedgerConfig where
  maxSegmentSize := defaultMaxSegmentSize
  snapshotDir := dir ++ "/snapshots"
  partitions := defaultPartitions
  defaultLease := Duration.fromSecs 30
  minLease := Duration.fromSecs 5
  maxLease := Duration.fromSecs 3600

structure Env where
  config : LedgerConfig
  crates : Crates
  /-- Bytes of the WAL payload of a record. -/
  encodedLen : RecordKind → Nat
  /-- Bytes of the state file of a snapshot. -/
  stateLen : PersistedState → Nat
  /-- `crc32c` of the state file. -/
  stateCrc : PersistedState → Nat

/-- What a call draws from outside: the clock, the ids of `new_id`, and a lease token's bits. -/
structure Draws where
  now : Int
  id : Uuid
  eventId : Uuid
  token : Uuid × Uuid

/-! ## Leases and partitions -/

/-- `resolve_lease_ms`: the lease in milliseconds, if within the configured bounds. -/
def resolveLeaseMs (config : LedgerConfig) (seconds : Option Nat) (field : String) :
    Except LedgerError Int :=
  let duration := match seconds with
    | some secs => Duration.fromSecs secs
    | none => config.defaultLease
  if duration < config.minLease ∨ config.maxLease < duration then
    .error (.validation field ("must be between " ++ toString (Duration.asSecs config.minLease)
      ++ " and " ++ toString (Duration.asSecs config.maxLease) ++ " seconds"))
  else
    -- `i64::try_from(..).unwrap_or(i64::MAX)`
    .ok (min (Duration.asMillis duration) (2 ^ 63 - 1))

/-- `u64::from_le_bytes`. -/
def fromLeBytes (bytes : List UInt8) : Nat :=
  bytes.foldr (fun b n => b.toNat + 256 * n) 0

/-- Index of the partition lock of a key. The tenant is not part of the hash. -/
def partition (env : Env) (key : EffectKey) : Nat :=
  let bytes := utf8 (key.projectId ++ "\x00" ++ key.scope ++ "\x00" ++ key.idempotencyKey)
  fromLeBytes ((env.crates.sha256 bytes).take 8) % max env.config.partitions 1

/-- 256 random bits rendered `lease_` and 64 hex digits; only the SHA-256 is stored. -/
def generateLeaseToken (bits : Uuid × Uuid) : String :=
  "lease_" ++ bits.1.simple ++ bits.2.simple

/-! ## An environment to evaluate in -/

namespace Sample

/-- SHA-256 as the standard defines it. The sample calls hold no floats and no cursors. -/
def crates : Crates where
  sha256 := Lib.Sha256.sha256
  formatF64 := fun _ => "0.0"
  parseUuid := fun _ => none

/-- The default configuration. Its segments are far larger than what a sample run writes. -/
def env : Env where
  config := .new "data"
  crates := crates
  encodedLen := fun _ => 512
  stateLen := fun _ => 1024
  stateCrc := fun _ => 0

def scope : Scope := { tenantId := "tenant", projectId := "project" }

/-- The `n`th draw: ids, tokens and clock readings that differ from each other. -/
def draws (n : Nat) : Draws where
  now := 1700000000000 + 1000 * n
  id := BitVec.ofNat 128 n
  eventId := BitVec.ofNat 128 (1000 + n)
  token := (BitVec.ofNat 128 (2000 + n), BitVec.ofNat 128 (3000 + n))

end Sample

end Calod.Ledger
