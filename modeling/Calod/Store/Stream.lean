import Calod.Lib.Map
import Calod.Store.Text

/-!
# Streams

`calod-core/src/store/stream.rs`, the operations of the commands that write: the entries in the
order of their ids, and the consumer groups with their lists of pending entries.
-/

namespace Calod.Store

open Lib
open Std (TransOrd LawfulEqOrd)

/-! ## Ids -/

structure StreamId where
  ms : Nat
  seq : Nat
  deriving DecidableEq, Repr

namespace StreamId

instance : Ord StreamId := ⟨compareLex (compareOn ms) (compareOn seq)⟩

instance : TransOrd StreamId :=
  inferInstanceAs (Std.TransCmp (compareLex (compareOn ms) (compareOn seq)))

instance : LawfulEqOrd StreamId where
  eq_of_compare {a b} h := by
    obtain ⟨hms, hseq⟩ := Ordering.then_eq_eq.mp h
    obtain ⟨ms, seq⟩ := a
    obtain ⟨ms', seq'⟩ := b
    rw [StreamId.mk.injEq]
    exact ⟨Std.LawfulEqOrd.eq_of_compare (α := Nat) hms,
      Std.LawfulEqOrd.eq_of_compare (α := Nat) hseq⟩

instance : LE StreamId := ⟨fun a b => (compare a b).isLE⟩

instance : LT StreamId := ⟨fun a b => compare a b = .lt⟩

instance (a b : StreamId) : Decidable (a ≤ b) := inferInstanceAs (Decidable (_ = true))

instance (a b : StreamId) : Decidable (a < b) := inferInstanceAs (Decidable (_ = Ordering.lt))

/-- `StreamId::MIN`. -/
def minimum : StreamId := ⟨0, 0⟩

/-- `to_redis_string`. -/
def toRedisString (id : StreamId) : String := toString id.ms ++ "-" ++ toString id.seq

end StreamId

/-- `parse_id`. -/
def parseId (s : String) (defaultSeq : Nat) : Option StreamId :=
  match splitOnce '-' s.toList with
  | some (ms, seq) => do
    let ms ← parseU64 ms
    let seq ← parseU64 seq
    return ⟨ms, seq⟩
  | none => (parseU64 s.toList).map fun ms => ⟨ms, defaultSeq⟩

/-- `parse_range_start`. -/
def parseRangeStart (s : String) : Option StreamId :=
  if s = "-" then some .minimum else parseId s 0

/-! ## Streams and their groups -/

abbrev StreamField := Bytes × Bytes

abbrev StreamEntry := StreamId × List StreamField

structure PendingEntry where
  consumer : String
  deliveryTimeMs : Nat
  deliveryCount : Nat
  deriving DecidableEq, Repr

structure Consumer where
  pending : Map StreamId Unit := ∅
  seenTimeMs : Nat := 0
  activeTimeMs : Nat := 0

structure ConsumerGroup where
  lastDeliveredId : StreamId := .minimum
  pending : Map StreamId PendingEntry := ∅
  consumers : Map String Consumer := ∅
  entriesRead : Nat := 0

structure StreamData where
  entries : Map StreamId (List StreamField) := ∅
  lastId : StreamId := .minimum
  maxDeletedId : StreamId := .minimum
  entriesAdded : Nat := 0
  groups : Map String ConsumerGroup := ∅

/-- `ClaimOptions`. -/
structure ClaimOptions where
  minIdleMs : Nat
  setIdleMs : Option Nat
  setTimeMs : Option Nat
  setRetry : Option Nat
  force : Bool
  justid : Bool
  deriving DecidableEq, Repr

inductive StreamError where
  | idTooSmall
  | zeroId

namespace Consumer

def own (id : StreamId) (c : Consumer) : Consumer := { c with pending := c.pending.insert id () }

def disown (id : StreamId) (c : Consumer) : Consumer := { c with pending := c.pending.erase id }

def seen (now : Nat) (c : Consumer) : Consumer := { c with seenTimeMs := now }

def active (now : Nat) (c : Consumer) : Consumer :=
  { c with seenTimeMs := now, activeTimeMs := now }

end Consumer

namespace ConsumerGroup

/-- `consumers.get_mut(name)`. -/
def modifyConsumer (g : ConsumerGroup) (name : String) (f : Consumer → Consumer) : ConsumerGroup :=
  { g with consumers := g.consumers.modify name f }

/-- `consumers.entry(name).or_default()`. -/
def ensureConsumer (g : ConsumerGroup) (name : String) : ConsumerGroup :=
  { g with consumers := g.consumers.insertIfNew name {} }

/-- Remove an id from the pending list and from the consumer that owns it. -/
def removePending (g : ConsumerGroup) (id : StreamId) : ConsumerGroup :=
  match g.pending[id]? with
  | some p => { g with pending := g.pending.erase id }.modifyConsumer p.consumer (.disown id)
  | none => g

/-- Give `id` to `consumer`, taking it from its previous owner. -/
def assign (g : ConsumerGroup) (consumer : String) (id : StreamId) (deliveryTime count now : Nat) :
    ConsumerGroup :=
  let g := match g.pending[id]? with
    | some p => if p.consumer ≠ consumer then g.modifyConsumer p.consumer (.disown id) else g
    | none => g
  { g with pending := g.pending.insert id ⟨consumer, deliveryTime, count⟩ }.modifyConsumer consumer
    fun c => (c.own id).active now

/-- One entry of `group_read_new`. -/
def deliver (consumer : String) (now : Nat) (noack : Bool) (g : ConsumerGroup) (id : StreamId) :
    ConsumerGroup :=
  let g := { g with lastDeliveredId := id, entriesRead := wrapU64 (g.entriesRead + 1) }
  if noack then g
  else
    { g with pending := g.pending.insert id ⟨consumer, now, 1⟩ }.modifyConsumer consumer (.own id)

end ConsumerGroup

namespace StreamData

/-- `next_auto_id`. -/
def nextAutoId (s : StreamData) (now : Nat) : StreamId :=
  if now > s.lastId.ms then ⟨now, 0⟩ else ⟨s.lastId.ms, min (s.lastId.seq + 1) u64Max⟩

/-- `add`. -/
def add (s : StreamData) (id : StreamId) (fields : List StreamField) :
    Except StreamError StreamData :=
  if id = .minimum then .error .zeroId
  else if id ≤ s.lastId then .error .idTooSmall
  else .ok { s with
    entries := s.entries.insert id fields
    lastId := id
    entriesAdded := wrapU64 (s.entriesAdded + 1) }

/-- The entries after `id`, ascending. -/
def after (s : StreamData) (id : StreamId) : List StreamEntry :=
  s.entries.toList.filter fun e => id < e.1

/-- `delete`. -/
def delete (s : StreamData) (ids : List StreamId) : Nat × StreamData :=
  ids.foldl (fun (removed, s) id =>
    if id ∈ s.entries then
      (removed + 1, { s with
        entries := s.entries.erase id
        maxDeletedId := if s.maxDeletedId < id then id else s.maxDeletedId })
    else (removed, s)) (0, s)

/-- `trim_maxlen`. -/
def trimMaxlen (s : StreamData) (maxlen : Nat) : Nat × StreamData :=
  let victims := s.entries.keys.take (s.entries.size - maxlen)
  (victims.length, { s with
    entries := s.entries.eraseAll victims
    maxDeletedId := match victims.getLast? with
      | some largest => if s.maxDeletedId < largest then largest else s.maxDeletedId
      | none => s.maxDeletedId })

/-- `set_last_id`. -/
def setLastId (s : StreamData) (id : StreamId) (entriesAdded : Option Nat)
    (maxDeleted : Option StreamId) : StreamData :=
  { s with
    lastId := id
    entriesAdded := entriesAdded.getD s.entriesAdded
    maxDeletedId := maxDeleted.getD s.maxDeletedId }

/-! ## Consumer groups -/

/-- `create_group`. -/
def createGroup (s : StreamData) (name : String) (start : StreamId) : Bool × StreamData :=
  if name ∈ s.groups then (false, s)
  else (true, { s with groups := s.groups.insert name { lastDeliveredId := start } })

/-- `set_group_id`. -/
def setGroupId (s : StreamData) (name : String) (id : StreamId) : Bool × StreamData :=
  (name ∈ s.groups,
    { s with groups := s.groups.modify name fun g => { g with lastDeliveredId := id } })

/-- `destroy_group`. -/
def destroyGroup (s : StreamData) (name : String) : Bool × StreamData :=
  (name ∈ s.groups, { s with groups := s.groups.erase name })

/-- `groups.get_mut(name)?`. -/
def withGroup {α : Type} (s : StreamData) (name : String)
    (f : ConsumerGroup → α × ConsumerGroup) : Option (α × StreamData) :=
  s.groups[name]?.map fun g => ((f g).1, { s with groups := s.groups.insert name (f g).2 })

/-- `create_consumer`. -/
def createConsumer (s : StreamData) (group consumer : String) (now : Nat) :
    Option (Bool × StreamData) :=
  s.withGroup group fun g =>
    if consumer ∈ g.consumers then (false, g)
    else
      let c : Consumer := { seenTimeMs := now, activeTimeMs := now }
      (true, { g with consumers := g.consumers.insert consumer c })

/-- `del_consumer`. -/
def delConsumer (s : StreamData) (group consumer : String) : Option (Nat × StreamData) :=
  s.withGroup group fun g =>
    match g.consumers[consumer]? with
    | some c => (c.pending.size, { g with
        consumers := g.consumers.erase consumer
        pending := g.pending.eraseAll c.pending.keys })
    | none => (0, g)

/-- `it.take(n)` where there is a count. -/
def limited {α : Type} (count : Option Nat) (l : List α) : List α :=
  match count with
  | some n => l.take n
  | none => l

/-- `group_read_new`. -/
def groupReadNew (s : StreamData) (group consumer : String) (count : Option Nat) (now : Nat)
    (noack : Bool) : Option (List StreamEntry × StreamData) :=
  s.withGroup group fun g =>
    let entries := limited count (s.after g.lastDeliveredId)
    let g := (entries.map Prod.fst).foldl (.deliver consumer now noack) (g.ensureConsumer consumer)
    (entries, g.modifyConsumer consumer fun c =>
      if entries.isEmpty then c.seen now else c.active now)

/-- `group_read_history`. -/
def groupReadHistory (s : StreamData) (group consumer : String) (from_ : StreamId)
    (count : Option Nat) (now : Nat) : Option (List StreamEntry × StreamData) :=
  s.withGroup group fun g =>
    let ids := limited count ((g.pending.toList.filter fun e =>
      from_ ≤ e.1 ∧ e.2.consumer = consumer).map Prod.fst)
    (ids.map fun id => (id, s.entries[id]?.getD []), g.modifyConsumer consumer (.seen now))

/-- `ack`. -/
def ack (s : StreamData) (group : String) (ids : List StreamId) : Option (Nat × StreamData) :=
  s.withGroup group fun g =>
    ids.foldl
      (fun (n, g) id => if id ∈ g.pending then (n + 1, g.removePending id) else (n, g)) (0, g)

/-- One id of `claim`. -/
def claimOne (s : StreamData) (consumer : String) (opt : ClaimOptions) (now : Nat)
    (claimed : List StreamEntry) (g : ConsumerGroup) (id : StreamId) :
    List StreamEntry × ConsumerGroup :=
  let previous := g.pending[id]?
  if previous.isNone ∧ !opt.force then (claimed, g)
  else
    match s.entries[id]? with
    | none => (claimed, g.removePending id)
    | some fields =>
      if previous.any fun p => now - p.deliveryTimeMs < opt.minIdleMs then (claimed, g)
      else
        let count := (previous.map PendingEntry.deliveryCount).getD 0
        let deliveryTime := opt.setTimeMs.getD (now - opt.setIdleMs.getD 0)
        let deliveryCount := match opt.setRetry with
          | some n => n
          | none => if opt.justid then count else wrapU64 (count + 1)
        (claimed ++ [(id, fields)], g.assign consumer id deliveryTime deliveryCount now)

/-- `claim`. -/
def claim (s : StreamData) (group consumer : String) (ids : List StreamId) (opt : ClaimOptions)
    (now : Nat) : Option (List StreamEntry × StreamData) :=
  s.withGroup group fun g =>
    ids.foldl (fun acc id => s.claimOne consumer opt now acc.1 acc.2 id)
      ([], g.ensureConsumer consumer)

/-- `AutoclaimResult`. -/
structure AutoclaimResult where
  cursor : StreamId := .minimum
  claimed : List StreamEntry := []
  deleted : List StreamId := []

/-- The scan of `autoclaim`; the ids are pending, so each has an entry in the list. -/
def autoclaimScan (s : StreamData) (consumer : String) (minIdle attempts now : Nat)
    (justid : Bool) : List StreamId → AutoclaimResult → ConsumerGroup →
      AutoclaimResult × ConsumerGroup
  | [], acc, g => (acc, g)
  | id :: rest, acc, g =>
    if acc.claimed.length ≥ attempts then ({ acc with cursor := id }, g)
    else
      match g.pending[id]? with
      | none => s.autoclaimScan consumer minIdle attempts now justid rest acc g
      | some p =>
        if now - p.deliveryTimeMs < minIdle then
          s.autoclaimScan consumer minIdle attempts now justid rest acc g
        else
          match s.entries[id]? with
          | none =>
            s.autoclaimScan consumer minIdle attempts now justid rest
              { acc with deleted := acc.deleted ++ [id] } (g.removePending id)
          | some fields =>
            let count := if justid then p.deliveryCount else wrapU64 (p.deliveryCount + 1)
            s.autoclaimScan consumer minIdle attempts now justid rest
              { acc with claimed := acc.claimed ++ [(id, fields)] }
              (g.assign consumer id now count now)

/-- `autoclaim`. -/
def autoclaim (s : StreamData) (group consumer : String) (minIdle : Nat) (start : StreamId)
    (count now : Nat) (justid : Bool) : Option (AutoclaimResult × StreamData) :=
  s.withGroup group fun g =>
    let g := g.ensureConsumer consumer
    s.autoclaimScan consumer minIdle (max count 1) now justid
      ((g.pending.keys).filter fun id => start ≤ id) {} g

end StreamData

end Calod.Store
