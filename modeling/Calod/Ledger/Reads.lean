import Calod.Ledger.Runs

/-!
# Reads: lists, cursors and exports

The read operations of `calod-ledger/src/ledger.rs`.
-/

namespace Calod.Ledger

open Calod.Serde

/-! ## Pagination -/

structure Page (α : Type) where
  data : List α
  pagination : CursorPage

def resolveLimit (limit : Option Nat) : Except LedgerError Nat :=
  let limit := limit.getD 50
  if 1 ≤ limit ∧ limit ≤ 100 then .ok limit
  else .error (.validation "limit" "must be between 1 and 100")

/-- The digits of `n` in base 16, most significant first; `width` of them. -/
def hexDigits (width n : Nat) : List Char :=
  (List.range width).map fun i => hexDigit (n / 16 ^ (width - 1 - i) % 16)

/-- `{sort_key:016x}_{id}`; a negative key prints as its two's complement. -/
def encodeCursor (sortKey : Int) (id : Uuid) : String :=
  String.ofList (hexDigits 16 (sortKey % 2 ^ 64).toNat) ++ "_" ++ id.simple

/-- The digits of `from_str_radix`, from the left. -/
def parseDigits (radix : Nat) : List Char → Nat → Option Nat
  | [], n => some n
  | c :: rest, n => do
    let d ← toDigit16 c
    if d < radix then parseDigits radix rest (n * radix + d) else none

/-- `i64::from_str_radix`: an optional sign, at least one digit, within range. -/
def fromStrRadix (radix : Nat) (s : String) : Option Int :=
  let (negative, digits) := match s.toList with
    | '-' :: rest => (true, rest)
    | '+' :: rest => (false, rest)
    | chars => (false, chars)
  if digits.isEmpty then none
  else do
    let n ← parseDigits radix digits 0
    let v : Int := if negative then -n else n
    if -2 ^ 63 ≤ v ∧ v < 2 ^ 63 then some v else none

def malformedCursor : LedgerError := .validation "cursor" "malformed cursor"

/-- `decode_cursor` and `decode_seq_id_cursor`. -/
def decodeCursor (crates : Crates) : Option String → Except LedgerError (Option (Int × Uuid))
  | none => .ok none
  | some cursor =>
    let chars := cursor.toList
    if chars.contains '_' then
      let keyHex := String.ofList (chars.takeWhile (· ≠ '_'))
      let idHex := String.ofList ((chars.dropWhile (· ≠ '_')).drop 1)
      match fromStrRadix 16 keyHex, crates.parseUuid idHex with
      | some key, some id => .ok (some (key, id))
      | _, _ => .error malformedCursor
    else .error malformedCursor

/-- The order of `(sort_key, id)` pairs. -/
def cursorLt (a b : Int × Uuid) : Bool := a.1 < b.1 || (a.1 == b.1 && a.2.toNat < b.2.toNat)

/-- Split sorted items into one page and its metadata. -/
def paginate {α : Type} (items : List α) (limit : Nat) (cursorOf : α → String) :
    List α × CursorPage :=
  let hasMore := decide (limit < items.length)
  let page := items.take limit
  (page,
    { nextCursor := if hasMore then page.getLast?.map cursorOf else none, hasMore, limit })

/--
Newest first from a cursor on: the body shared by `list_effects`, `list_runs` and
`list_checkpoints`, on the records that passed the filter.
-/
def listFrom {α β : Type} (items : List α) (key : α → Int × Uuid) (view : α → β)
    (after : Option (Int × Uuid)) (limit : Nat) : Page β :=
  let sorted := items.insertionSort fun a b => cursorLt (key b) (key a) ∨ key a = key b
  let rest := match after with
    | some cursor => sorted.filter fun a => cursorLt (key a) cursor
    | none => sorted
  let (page, pagination) := paginate rest limit fun a => encodeCursor (key a).1 (key a).2
  { data := page.map view, pagination }

/-! ## Lists -/

/-- `Option::is_none_or`. -/
def isNoneOr {α : Type} (o : Option α) (p : α → Bool) : Bool :=
  match o with
  | none => true
  | some a => p a

def EffectFilter.accepts (filter : EffectFilter) (scope : Scope) (e : EffectRecord) : Bool :=
  e.tenantId == scope.tenantId && e.projectId == scope.projectId
    && isNoneOr filter.runId (fun r => e.runId == some r)
    && isNoneOr filter.state (fun s => e.state.apiState = s)
    && isNoneOr filter.toolName (fun t => e.toolName == t)
    && isNoneOr filter.createdAfterMs (fun t => t ≤ e.createdAtMs)

def listEffects (crates : Crates) (idx : Indexes) (scope : Scope) (filter : EffectFilter)
    (cursor : Option String) (limit : Option Nat) : Except LedgerError (Page Effect) := do
  let limit ← resolveLimit limit
  let after ← decodeCursor crates cursor
  return listFrom (idx.effectsById.values.filter (filter.accepts scope))
    (fun e => (e.createdAtMs, e.id)) EffectRecord.view after limit

def RunFilter.accepts (filter : RunFilter) (scope : Scope) (r : RunRecord) : Bool :=
  r.tenantId == scope.tenantId && r.projectId == scope.projectId
    && isNoneOr filter.status (fun s => r.status = s)
    && isNoneOr filter.agentName (fun a => r.agentName == a)
    && isNoneOr filter.createdAfterMs (fun t => t ≤ r.createdAtMs)

def listRuns (crates : Crates) (idx : Indexes) (scope : Scope) (filter : RunFilter)
    (cursor : Option String) (limit : Option Nat) : Except LedgerError (Page Run) := do
  let limit ← resolveLimit limit
  let after ← decodeCursor crates cursor
  return listFrom (idx.runs.values.filter (filter.accepts scope))
    (fun r => (r.createdAtMs, r.id)) RunRecord.view after limit

def EventFilter.accepts (filter : EventFilter) (after : Option Int) (e : EventRecord) : Bool :=
  isNoneOr filter.eventType (fun t => e.eventType == t)
    && isNoneOr filter.afterSequence (fun s => s < e.sequence)
    && isNoneOr after (fun s => s < e.sequence)

def decodeEventCursor : Option String → Except LedgerError (Option Int)
  | none => .ok none
  | some cursor =>
    match fromStrRadix 10 cursor with
    | some sequence => .ok (some sequence)
    | none => .error (.validation "cursor" "invalid event cursor")

def listEvents (idx : Indexes) (scope : Scope) (runId : Uuid) (filter : EventFilter)
    (cursor : Option String) (limit : Option Nat) : Except LedgerError (Page Event) := do
  let limit ← resolveLimit limit
  let _ ← runInScope idx scope runId
  let after ← decodeEventCursor cursor
  let events := ((idx.timeline runId).filter (filter.accepts after)).insertionSort
    fun a b => a.sequence ≤ b.sequence
  let (page, pagination) := paginate events limit fun e => toString e.sequence
  return { data := page.map EventRecord.view, pagination }

def listCheckpoints (crates : Crates) (idx : Indexes) (scope : Scope) (runId : Uuid)
    (cursor : Option String) (limit : Option Nat) : Except LedgerError (Page Checkpoint) := do
  let limit ← resolveLimit limit
  let _ ← runInScope idx scope runId
  let after ← decodeCursor crates cursor
  return listFrom (idx.checkpoints[runId]?.getD [])
    (fun c => (c.eventSequence, c.id)) CheckpointRecord.view after limit

/-! ## Single reads -/

def getEffect (idx : Indexes) (scope : Scope) (effectId : Uuid) : Except LedgerError Effect := do
  let effect ← effectInScope idx scope effectId
  return effect.view

def getRun (idx : Indexes) (scope : Scope) (runId : Uuid) : Except LedgerError Run := do
  let run ← runInScope idx scope runId
  return run.view

def verifyRunEvents (crates : Crates) (idx : Indexes) (scope : Scope) (runId : Uuid) :
    Except LedgerError Bool := do
  let _ ← runInScope idx scope runId
  return verifyEventChain crates ((idx.timeline runId).map EventRecord.view)

/-- Everything an evidence export needs for one run. Effects are chosen by run id alone. -/
def exportRun (idx : Indexes) (scope : Scope) (runId : Uuid) : Except LedgerError RunExport := do
  let run ← runInScope idx scope runId
  let effects := (idx.effectsById.values.filter fun e => e.runId == some runId).map
    EffectRecord.view
  let checkpoints := (idx.checkpoints[runId]?.getD []).map CheckpointRecord.view
  return {
    run := run.view
    effects := effects.insertionSort fun a b =>
      a.createdAt < b.createdAt ∨ a.createdAt = b.createdAt ∧ a.id ≤ b.id
    events := (idx.timeline runId).map EventRecord.view
    checkpoints := checkpoints.insertionSort fun a b => a.eventSequence ≤ b.eventSequence }

end Calod.Ledger
