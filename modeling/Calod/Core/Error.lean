import Mathlib

/-!
# Persistence errors

`calod-core/src/store/error.rs`, the variants that the WAL, the ledger and the store
produce.
-/

namespace Calod.Core

inductive PersistenceError where
  | io (message : String)
  | corruption (message : String)
  | walWriteFailed (message : String)
  | snapshotCreationFailed (message : String)
  | serialization (message : String)
  deriving DecidableEq, Repr

end Calod.Core
