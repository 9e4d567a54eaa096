import Calod.Core.Error

/-!
# The segmented write-ahead log

`calod-storage/src/wal.rs` at the level of records: which segment file a record goes to, at
which offset, when a segment rolls, and what `truncate_before` deletes. A segment file is the
list of its payloads; offsets follow from the lengths of the records before.

The writer always has one active segment, the one with the highest id. `Wal` holds it apart
from the sealed ones and carries the order of the ids, so a log whose active file is missing
or not the last one cannot be built.

* `records_handleAppend` — an append adds one record, past every earlier position
* `records_removeSegment` — deleting a file removes exactly its records
* `records_open` — reopening the directory changes no record
-/

namespace Calod.Storage

open Calod.Core

/-! ## Positions -/

/-- Segment id and byte offset of a record header. -/
structure WalPosition where
  segmentId : Nat
  offset : Nat
  deriving DecidableEq, Repr

/-- Rust's order on the pair `(segment_id, offset)`. -/
instance : LE WalPosition where
  le p q := p.segmentId < q.segmentId ∨ p.segmentId = q.segmentId ∧ p.offset ≤ q.offset

instance : LT WalPosition where
  lt p q := p.segmentId < q.segmentId ∨ p.segmentId = q.segmentId ∧ p.offset < q.offset

variable {p q : WalPosition}

theorem WalPosition.le_def :
    p ≤ q ↔ p.segmentId < q.segmentId ∨ p.segmentId = q.segmentId ∧ p.offset ≤ q.offset :=
  Iff.rfl

theorem WalPosition.lt_def :
    p < q ↔ p.segmentId < q.segmentId ∨ p.segmentId = q.segmentId ∧ p.offset < q.offset :=
  Iff.rfl

instance (p q : WalPosition) : Decidable (p ≤ q) := decidable_of_iff' _ WalPosition.le_def

theorem WalPosition.le_refl (p : WalPosition) : p ≤ p := by
  rw [le_def]; omega

theorem WalPosition.le_trans {p q r : WalPosition} (h₁ : p ≤ q) (h₂ : q ≤ r) : p ≤ r := by
  rw [le_def] at *; omega

theorem WalPosition.le_of_lt (h : p < q) : p ≤ q := by
  rw [lt_def] at h; rw [le_def]; omega

theorem WalPosition.lt_of_le_of_lt {p q r : WalPosition} (h₁ : p ≤ q) (h₂ : q < r) : p < r := by
  rw [le_def] at h₁; rw [lt_def] at *; omega

theorem WalPosition.lt_of_lt_of_le {p q r : WalPosition} (h₁ : p < q) (h₂ : q ≤ r) : p < r := by
  rw [le_def] at h₂; rw [lt_def] at *; omega

theorem WalPosition.not_le_of_lt (h : p < q) : ¬ q ≤ p := by
  rw [lt_def] at h; rw [le_def]; omega

/-! ## Segments -/

/-- Size of a record header: magic, version, type, payload length and checksum. -/
def headerLen : Nat := 13

structure WalRecord (α : Type) where
  position : WalPosition
  payload : α

/-- A segment file: its id and the payloads written to it, in order. -/
structure Segment (α : Type) where
  id : Nat
  payloads : List α

section

variable {α : Type} (payloadLen : α → Nat)

def recordLen (payload : α) : Nat := headerLen + payloadLen payload

/-- File length in bytes. -/
def Segment.len (segment : Segment α) : Nat :=
  (segment.payloads.map (recordLen payloadLen)).sum

/-- `scan_segment`: the records of a segment buffer from `offset` on. -/
def scanSegment (segmentId : Nat) : Nat → List α → List (WalRecord α)
  | _, [] => []
  | offset, payload :: rest =>
    { position := { segmentId, offset }, payload } ::
      scanSegment segmentId (offset + recordLen payloadLen payload) rest

def Segment.records (segment : Segment α) : List (WalRecord α) :=
  scanSegment payloadLen segment.id 0 segment.payloads

/-- `replay_all`: segment id order, then offset order. -/
def replayAll (segments : List (Segment α)) : List (WalRecord α) :=
  segments.flatMap (Segment.records payloadLen)

theorem scanSegment_append (segmentId : Nat) (payload : α) (l : List α) : ∀ offset : Nat,
    scanSegment payloadLen segmentId offset (l ++ [payload])
      = scanSegment payloadLen segmentId offset l
        ++ [{ position := { segmentId, offset := offset + (l.map (recordLen payloadLen)).sum },
              payload }] := by
  induction l with
  | nil => intro offset; simp [scanSegment]
  | cons p l ih =>
    intro offset
    rw [List.cons_append, scanSegment, ih, scanSegment]
    simp [Nat.add_assoc]

theorem mem_scanSegment {segmentId : Nat} {r : WalRecord α} (l : List α) : ∀ offset : Nat,
    r ∈ scanSegment payloadLen segmentId offset l →
      r.position.segmentId = segmentId ∧ offset ≤ r.position.offset ∧
        r.position.offset < offset + (l.map (recordLen payloadLen)).sum := by
  induction l with
  | nil => intro offset h; cases h
  | cons p l ih =>
    intro offset h
    have hpos : 0 < recordLen payloadLen p := by unfold recordLen headerLen; omega
    simp only [List.map_cons, List.sum_cons]
    rcases List.mem_cons.mp h with rfl | h
    · exact ⟨rfl, Nat.le_refl _, by simp only []; omega⟩
    · obtain ⟨h1, h2, h3⟩ := ih _ h
      exact ⟨h1, by omega, by omega⟩

theorem mem_segment_records {segment : Segment α} {r : WalRecord α}
    (h : r ∈ segment.records payloadLen) :
    r.position.segmentId = segment.id ∧ r.position.offset < segment.len payloadLen := by
  obtain ⟨h1, -, h3⟩ := mem_scanSegment payloadLen _ _ h
  exact ⟨h1, by simpa [Segment.len] using h3⟩

end

/-! ## The log -/

/-- The segment files of a WAL directory, in id order (`list_segments`). -/
structure WalDir (α : Type) where
  segments : List (Segment α)
  sorted : segments.Pairwise fun a b => a.id < b.id

/-- The directory with a writer on it. `active` is the file being appended to. -/
structure Wal (α : Type) where
  closed : List (Segment α)
  active : Segment α
  sorted : (closed ++ [active]).Pairwise fun a b => a.id < b.id

namespace Wal

variable {α : Type}

def segments (wal : Wal α) : List (Segment α) := wal.closed ++ [wal.active]

def dir (wal : Wal α) : WalDir α := { segments := wal.segments, sorted := wal.sorted }

theorem closed_sorted (wal : Wal α) : wal.closed.Pairwise fun a b => a.id < b.id :=
  (List.pairwise_append.mp wal.sorted).1

theorem closed_lt_active (wal : Wal α) {segment : Segment α} (h : segment ∈ wal.closed) :
    segment.id < wal.active.id :=
  (List.pairwise_append.mp wal.sorted).2.2 segment h wal.active (by simp)

theorem sorted_active (wal : Wal α) {segment : Segment α} (h : segment.id = wal.active.id) :
    (wal.closed ++ [segment]).Pairwise fun a b => a.id < b.id := by
  refine List.pairwise_append.mpr ⟨wal.closed_sorted, List.pairwise_singleton _ _, ?_⟩
  intro a ha b hb
  rw [List.mem_singleton.mp hb, h]
  exact wal.closed_lt_active ha

/-- `roll_segment`: seal the active file and start the next one. -/
def rollSegment (wal : Wal α) : Wal α where
  closed := wal.segments
  active := { id := wal.active.id + 1, payloads := [] }
  sorted := by
    refine List.pairwise_append.mpr ⟨wal.sorted, List.pairwise_singleton _ _, ?_⟩
    intro a ha b hb
    rw [List.mem_singleton.mp hb]
    rcases List.mem_append.mp ha with ha | ha
    · have := wal.closed_lt_active ha
      simp only []; omega
    · rw [List.mem_singleton.mp ha]; simp

/-- Write one record at the end of the active file. -/
def writeRecord (wal : Wal α) (payload : α) : Wal α where
  closed := wal.closed
  active := { wal.active with payloads := wal.active.payloads ++ [payload] }
  sorted := wal.sorted_active rfl

/-- The log without the last record of its active file, as a crash before the write leaves it. -/
def dropLast (wal : Wal α) : Wal α where
  closed := wal.closed
  active := { wal.active with payloads := wal.active.payloads.dropLast }
  sorted := wal.sorted_active rfl

/--
`handle_append`. A record larger than the limit gets a segment of its own, and the writer
never rolls away from an empty segment.
-/
def handleAppend (payloadLen : α → Nat) (maxSegmentSize : Nat) (wal : Wal α) (payload : α) :
    WalPosition × Wal α :=
  let len := wal.active.len payloadLen
  let wal := if 0 < len ∧ maxSegmentSize < len + recordLen payloadLen payload
    then wal.rollSegment else wal
  ({ segmentId := wal.active.id, offset := wal.active.len payloadLen }, wal.writeRecord payload)

/-- The files that `truncate_before` lists for deletion; never the active one. -/
def truncateTargets (wal : Wal α) (segmentId : Nat) : List Nat :=
  (wal.segments.map Segment.id).filter fun id => id < min segmentId wal.active.id

/-- Delete one sealed segment file. -/
def removeSegment (wal : Wal α) (id : Nat) : Wal α where
  closed := wal.closed.filter fun segment => segment.id ≠ id
  active := wal.active
  sorted := by
    refine List.pairwise_append.mpr
      ⟨wal.closed_sorted.filter _, List.pairwise_singleton _ _, fun a ha b hb => ?_⟩
    rw [List.mem_singleton.mp hb]
    exact wal.closed_lt_active (List.mem_filter.mp ha).1

def truncateBefore (wal : Wal α) (segmentId : Nat) : Wal α :=
  (wal.truncateTargets segmentId).foldl removeSegment wal

end Wal

/-! ## Opening a directory -/

theorem mem_getLast_le {α : Type} {segments : List (Segment α)}
    (hs : segments.Pairwise fun a b => a.id < b.id) {last : Segment α}
    (hl : segments.getLast? = some last) {a : Segment α} (ha : a ∈ segments) : a.id ≤ last.id := by
  obtain ⟨init, rfl⟩ := List.getLast?_eq_some_iff.mp hl
  rcases List.mem_append.mp ha with ha | ha
  · exact Nat.le_of_lt ((List.pairwise_append.mp hs).2.2 a ha last (by simp))
  · rw [List.mem_singleton.mp ha]

/--
`WalWriter::open` on a directory without a crash tail: appends continue in the last segment,
or in a fresh one when the last is full or there is none.
-/
def Wal.open {α : Type} (payloadLen : α → Nat) (maxSegmentSize : Nat) (dir : WalDir α) :
    Except PersistenceError (Wal α) :=
  if maxSegmentSize ≤ headerLen then
    .error (.walWriteFailed "max_segment_size must exceed the record header (13 bytes)")
  else
    match h : dir.segments.getLast? with
    | none => .ok { closed := [], active := { id := 1, payloads := [] }, sorted := by simp }
    | some last =>
      if last.len payloadLen < maxSegmentSize then
        .ok { closed := dir.segments.dropLast, active := last, sorted := by
                rw [List.dropLast_append_getLast? last h]; exact dir.sorted }
      else
        .ok { closed := dir.segments, active := { id := last.id + 1, payloads := [] }, sorted := by
                refine List.pairwise_append.mpr
                  ⟨dir.sorted, List.pairwise_singleton _ _, fun a ha b hb => ?_⟩
                rw [List.mem_singleton.mp hb]
                exact Nat.lt_succ_of_le (mem_getLast_le dir.sorted h ha) }

/-! ## Which records are in the log -/

namespace Wal

variable {α : Type} (payloadLen : α → Nat) {wal : Wal α}

/-- What `Replay` reads from the directory. -/
def records (wal : Wal α) : List (WalRecord α) := replayAll payloadLen wal.segments

/-- The position just past the last record, where the next one goes unless the segment rolls. -/
def endPosition (wal : Wal α) : WalPosition :=
  { segmentId := wal.active.id, offset := wal.active.len payloadLen }

theorem mem_records {r : WalRecord α} :
    r ∈ wal.records payloadLen ↔
      ∃ segment ∈ wal.segments, r ∈ segment.records payloadLen := by
  simp [records, replayAll]

theorem records_rollSegment : wal.rollSegment.records payloadLen = wal.records payloadLen := by
  simp [records, replayAll, rollSegment, segments, Segment.records, scanSegment]

theorem records_writeRecord (payload : α) :
    (wal.writeRecord payload).records payloadLen
      = wal.records payloadLen ++ [{ position := wal.endPosition payloadLen, payload }] := by
  have hscan := scanSegment_append payloadLen wal.active.id payload wal.active.payloads 0
  rw [Nat.zero_add] at hscan
  simp only [records, replayAll, segments, writeRecord, List.flatMap_append, List.flatMap_cons,
    List.flatMap_nil, List.append_nil, List.append_assoc, Segment.records, hscan]
  rfl

/-- The record that was written last is the one that gets dropped. -/
@[simp] theorem dropLast_writeRecord (payload : α) : (wal.writeRecord payload).dropLast = wal := by
  cases wal
  simp [dropLast, writeRecord]

theorem position_lt_endPosition {r : WalRecord α} (h : r ∈ wal.records payloadLen) :
    r.position < wal.endPosition payloadLen := by
  obtain ⟨segment, hsegment, hr⟩ := (mem_records payloadLen).mp h
  obtain ⟨hid, hoff⟩ := mem_segment_records payloadLen hr
  rw [WalPosition.lt_def]
  rcases List.mem_append.mp hsegment with hc | hc
  · exact Or.inl (by rw [hid]; exact wal.closed_lt_active hc)
  · rw [List.mem_singleton.mp hc] at hid hoff
    exact Or.inr ⟨hid, hoff⟩

theorem endPosition_le_rollSegment :
    wal.endPosition payloadLen ≤ wal.rollSegment.endPosition payloadLen :=
  Or.inl (Nat.lt_succ_self wal.active.id)

theorem endPosition_lt_writeRecord (payload : α) :
    wal.endPosition payloadLen < (wal.writeRecord payload).endPosition payloadLen := by
  refine position_lt_endPosition payloadLen
    (r := { position := wal.endPosition payloadLen, payload }) ?_
  rw [records_writeRecord]
  simp

theorem endPosition_dropLast_le :
    wal.dropLast.endPosition payloadLen ≤ wal.endPosition payloadLen := by
  refine Or.inr ⟨rfl, ?_⟩
  have hsub := (List.dropLast_sublist wal.active.payloads).map (recordLen payloadLen)
  exact hsub.sum_le_sum fun _ _ => Nat.zero_le _


section

variable (maxSegmentSize : Nat) (payload : α)

variable (wal) in
/-- An append goes to the end position of the log, after a roll if one is due. -/
theorem handleAppend_cases :
    (wal.handleAppend payloadLen maxSegmentSize payload
        = (wal.endPosition payloadLen, wal.writeRecord payload)) ∨
      (wal.handleAppend payloadLen maxSegmentSize payload
        = (wal.rollSegment.endPosition payloadLen, wal.rollSegment.writeRecord payload)) := by
  unfold handleAppend
  by_cases h : 0 < wal.active.len payloadLen ∧
      maxSegmentSize < wal.active.len payloadLen + recordLen payloadLen payload
  · right
    simp only [if_pos h]
    rfl
  · left
    simp only [if_neg h]
    rfl

/-- **An append adds exactly its record, at the position it returns.** -/
theorem records_handleAppend :
    (wal.handleAppend payloadLen maxSegmentSize payload).2.records payloadLen
      = wal.records payloadLen
        ++ [{ position := (wal.handleAppend payloadLen maxSegmentSize payload).1, payload }] := by
  rcases wal.handleAppend_cases payloadLen maxSegmentSize payload with h | h
  · rw [h, records_writeRecord]
  · rw [h, records_writeRecord, records_rollSegment]

/-- **Positions only grow**: every record already in the log lies before the new one. -/
theorem position_lt_handleAppend {r : WalRecord α} (hr : r ∈ wal.records payloadLen) :
    r.position < (wal.handleAppend payloadLen maxSegmentSize payload).1 := by
  rcases wal.handleAppend_cases payloadLen maxSegmentSize payload with h | h
  · rw [h]
    exact position_lt_endPosition payloadLen hr
  · rw [h]
    rw [← records_rollSegment] at hr
    exact position_lt_endPosition payloadLen hr

/-- An append goes to the end of the log or to the next file. -/
theorem endPosition_le_handleAppend :
    wal.endPosition payloadLen ≤ (wal.handleAppend payloadLen maxSegmentSize payload).1 := by
  rcases wal.handleAppend_cases payloadLen maxSegmentSize payload with h | h
  · rw [h]
    exact WalPosition.le_refl _
  · rw [h]
    exact endPosition_le_rollSegment payloadLen

theorem active_le_handleAppend :
    wal.active.id ≤ (wal.handleAppend payloadLen maxSegmentSize payload).2.active.id := by
  rcases wal.handleAppend_cases payloadLen maxSegmentSize payload with h | h
  · rw [h]
    exact Nat.le_refl _
  · rw [h]
    exact Nat.le_succ _

theorem handleAppend_segmentId :
    (wal.handleAppend payloadLen maxSegmentSize payload).1.segmentId
      = (wal.handleAppend payloadLen maxSegmentSize payload).2.active.id := by
  rcases wal.handleAppend_cases payloadLen maxSegmentSize payload with h | h <;>
    rw [h] <;> rfl

/-- Without the new record the log is as before, except that the active file may be sealed. -/
theorem handleAppend_dropLast :
    ((wal.handleAppend payloadLen maxSegmentSize payload).2.dropLast = wal ∨
        (wal.handleAppend payloadLen maxSegmentSize payload).2.dropLast = wal.rollSegment) ∧
      (wal.handleAppend payloadLen maxSegmentSize payload).2
        = (wal.handleAppend payloadLen maxSegmentSize payload).2.dropLast.writeRecord payload ∧
      (wal.handleAppend payloadLen maxSegmentSize payload).1
        = (wal.handleAppend payloadLen maxSegmentSize payload).2.dropLast.endPosition
            payloadLen := by
  rcases wal.handleAppend_cases payloadLen maxSegmentSize payload with h | h
  · rw [h, dropLast_writeRecord]
    exact ⟨Or.inl rfl, rfl, rfl⟩
  · rw [h, dropLast_writeRecord]
    exact ⟨Or.inr rfl, rfl, rfl⟩

end

/-! ### Deletion -/

/-- **Deleting a sealed file removes exactly the records of that segment.** -/
theorem records_removeSegment {id : Nat} (h : id ≠ wal.active.id) :
    (wal.removeSegment id).records payloadLen
      = (wal.records payloadLen).filter fun r => r.position.segmentId ≠ id := by
  have hkeep : ∀ l : List (Segment α), (∀ s ∈ l, s.id ≠ id) →
      (replayAll payloadLen l).filter (fun r => r.position.segmentId ≠ id)
        = replayAll payloadLen l := by
    intro l hl
    refine List.filter_eq_self.mpr fun r hr => ?_
    obtain ⟨s, hs, hr⟩ := List.mem_flatMap.mp hr
    simp [(mem_segment_records payloadLen hr).1, hl s hs]
  have hdrop : ∀ l : List (Segment α),
      (replayAll payloadLen l).filter (fun r => r.position.segmentId ≠ id)
        = replayAll payloadLen (l.filter fun s => s.id ≠ id) := by
    intro l
    induction l with
    | nil => rfl
    | cons s l ih =>
      have hcons : replayAll payloadLen (s :: l)
          = replayAll payloadLen [s] ++ replayAll payloadLen l := by
        simp [replayAll]
      rw [hcons, List.filter_append, ih]
      by_cases hs : s.id = id
      · have hnone : (replayAll payloadLen [s]).filter (fun r => r.position.segmentId ≠ id)
            = [] := by
          refine List.filter_eq_nil_iff.mpr fun r hr => ?_
          simp only [replayAll, List.flatMap_cons, List.flatMap_nil, List.append_nil] at hr
          simp [(mem_segment_records payloadLen hr).1, hs]
        rw [hnone, List.filter_cons_of_neg (by simp [hs]), List.nil_append]
      · rw [hkeep [s] (by simpa using hs), List.filter_cons_of_pos (by simp [hs])]
        simp [replayAll]
  rw [records, records, hdrop]
  simp [segments, removeSegment, List.filter_append, Ne.symm h]

theorem records_removeSegment_sublist (id : Nat) :
    ((wal.removeSegment id).records payloadLen).Sublist (wal.records payloadLen) := by
  refine List.Sublist.flatMap ?_ _
  exact List.Sublist.append List.filter_sublist (List.Sublist.refl _)

theorem scanSegment_dropLast_sublist (segmentId : Nat) (l : List α) : ∀ offset : Nat,
    (scanSegment payloadLen segmentId offset l.dropLast).Sublist
      (scanSegment payloadLen segmentId offset l) := by
  induction l with
  | nil => intro offset; exact List.Sublist.refl _
  | cons p l ih =>
    intro offset
    cases l with
    | nil => exact List.nil_sublist _
    | cons q l => exact (ih _).cons_cons _

theorem records_dropLast_sublist :
    (wal.dropLast.records payloadLen).Sublist (wal.records payloadLen) := by
  simp only [records, replayAll, segments, dropLast, List.flatMap_append, List.flatMap_cons,
    List.flatMap_nil, List.append_nil]
  exact List.Sublist.append (List.Sublist.refl _) (scanSegment_dropLast_sublist payloadLen _ _ _)

theorem truncateBefore_active (segmentId : Nat) :
    (wal.truncateBefore segmentId).active = wal.active := by
  unfold truncateBefore
  generalize wal.truncateTargets segmentId = ids
  induction ids generalizing wal with
  | nil => rfl
  | cons id ids ih => exact ih

theorem endPosition_truncateBefore (segmentId : Nat) :
    (wal.truncateBefore segmentId).endPosition payloadLen = wal.endPosition payloadLen := by
  unfold endPosition
  rw [truncateBefore_active]

/-- `truncate_before` only ever removes records. -/
theorem records_truncateBefore_sublist (segmentId : Nat) :
    ((wal.truncateBefore segmentId).records payloadLen).Sublist (wal.records payloadLen) := by
  unfold truncateBefore
  generalize wal.truncateTargets segmentId = ids
  induction ids generalizing wal with
  | nil => exact List.Sublist.refl _
  | cons id ids ih => exact ih.trans (records_removeSegment_sublist payloadLen id)

/-! ### Reopening -/

/-- **Reopening a directory keeps its records.** -/
theorem records_open {maxSegmentSize : Nat} {dir : WalDir α}
    (h : Wal.open payloadLen maxSegmentSize dir = .ok wal) :
    wal.records payloadLen = replayAll payloadLen dir.segments := by
  unfold Wal.open at h
  split at h
  · cases h
  · split at h
    · next hlast =>
      cases h
      rw [List.getLast?_eq_none_iff.mp hlast]
      rfl
    · next last hlast =>
      split at h
      · cases h
        rw [records, segments, List.dropLast_append_getLast? last hlast]
      · cases h
        simp [records, replayAll, segments, Segment.records, scanSegment]

/-- Reopening a log gives it back, or with its full active file sealed. -/
theorem open_cases {maxSegmentSize : Nat} {wal' : Wal α}
    (h : Wal.open payloadLen maxSegmentSize wal.dir = .ok wal') :
    wal.active.len payloadLen < maxSegmentSize ∧ wal' = wal ∨
      ¬ wal.active.len payloadLen < maxSegmentSize ∧ wal' = wal.rollSegment := by
  have hlast : wal.dir.segments.getLast? = some wal.active := by simp [dir, segments]
  unfold Wal.open at h
  split at h
  · cases h
  · split at h
    · next hnone =>
      rw [hlast] at hnone
      cases hnone
    · next last hsome =>
      rw [hlast] at hsome
      cases hsome
      split at h
      · next hlt =>
        cases h
        refine Or.inl ⟨hlt, ?_⟩
        cases wal
        simp [dir, segments]
      · next hlt =>
        cases h
        exact Or.inr ⟨hlt, rfl⟩

/-- Reopening a log continues at its end or in the next file. -/
theorem endPosition_open {maxSegmentSize : Nat} {wal' : Wal α}
    (h : Wal.open payloadLen maxSegmentSize wal.dir = .ok wal') :
    wal.endPosition payloadLen ≤ wal'.endPosition payloadLen := by
  rcases open_cases payloadLen h with ⟨-, rfl⟩ | ⟨-, rfl⟩
  · exact WalPosition.le_refl _
  · exact Or.inl (Nat.lt_succ_self wal.active.id)

theorem open_ok {maxSegmentSize : Nat} (dir : WalDir α) (h : headerLen < maxSegmentSize) :
    ∃ wal, Wal.open payloadLen maxSegmentSize dir = .ok wal := by
  unfold Wal.open
  rw [if_neg (by omega)]
  split
  · exact ⟨_, rfl⟩
  · split <;> exact ⟨_, rfl⟩

end Wal

end Calod.Storage
