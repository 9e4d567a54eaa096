import Calod.Storage.Writer
import Calod.Lib.Transition

/-!
# What a flush makes durable

`run_writer` of `calod-storage/src/wal.rs`: the writer task takes messages from a channel, writes
the records of a batch, performs at most one fsync for it, and only then answers the callers. A
roll inside a batch replaces the open file.

* `flush_is_durable` — when `flush` returns, every record whose append was sent before it lies in
  the durable prefix of its segment, provided that under `no` the writer never rolls away from a
  segment with records that were not fsynced; under `always` the same holds of every record whose
  append returned
* `flush_leaves_sealed_segment` — without that, the sealed segment is never fsynced
-/

namespace Calod.Storage.Disk

open Lib Calod.Core Disk.Sample

/-! ## The writer task -/

inductive Message where
  | append (entry : Entry)
  | flush
  | shutdown

deriving instance DecidableEq for WalRecord

/-- What a caller gets. -/
inductive Reply where
  | appended (record : WalRecord Entry)
  | failed (err : PersistenceError)
  | flushed
  | shutDown
  deriving DecidableEq

/--
The writer task with its channel. `replies` are the answers given so far and `batch` those of the
batch being drained, both in the order in which the messages were sent.
-/
structure Writer where
  volume : Volume
  state : WriterState
  queue : List Message
  batch : List Reply
  replies : List Reply
  stopped : Bool

def Writer.start (volume : Volume) (state : WriterState) : Writer :=
  { volume, state, queue := [], batch := [], replies := [], stopped := false }

def Reply.isFlushed : Reply → Bool
  | .flushed => true
  | _ => false

def Reply.isShutDown : Reply → Bool
  | .shutDown => true
  | _ => false

variable (cs : Checksum)

/-- `handle_message`. -/
def handleMessage (state : WriterState) (volume : Volume) :
    Message → WriterState × Volume × Reply
  | .append entry =>
    match handleAppend cs {} state volume entry with
    | (state, volume, .ok position) => (state, volume, .appended { position, payload := entry })
    | (state, volume, .error err) => (state, volume, .failed err)
  | .flush => (state, volume, .flushed)
  | .shutdown => (state, volume, .shutDown)

inductive WriterAction where
  /-- A caller sends a message. -/
  | send (message : Message)
  /-- `recv` or `try_recv`: the next message joins the batch. -/
  | receive
  /-- `try_recv` finds nothing more and the batch ends. -/
  | finish
  /-- The one-second tick. -/
  | tick

/-- Group commit: at most one fsync for the whole batch. -/
def Writer.mustSync (writer : Writer) : Bool :=
  writer.state.dirty &&
    (writer.state.fsyncStrategy = .always || writer.batch.any Reply.isFlushed
      || writer.batch.any Reply.isShutDown)

/-- Fsync the open file. -/
def Writer.synced (writer : Writer) : Writer :=
  { writer with
    volume := flushFile writer.state true writer.volume
    state := { writer.state with dirty := false } }

def Writer.step (writer : Writer) : WriterAction → Option Writer
  | .send message =>
    if writer.stopped then none
    else some { writer with queue := writer.queue ++ [message] }
  | .receive =>
    match writer.queue with
    | [] => none
    | message :: queue =>
      if writer.stopped then none
      else
        let (state, volume, reply) := handleMessage cs writer.state writer.volume message
        some { writer with state, volume, queue, batch := writer.batch ++ [reply] }
  | .finish =>
    if writer.batch.isEmpty then none
    else
      let stopped := writer.batch.any Reply.isShutDown
      let replies := writer.replies ++ writer.batch
      let writer := if writer.mustSync then writer.synced else writer
      some { writer with batch := [], replies, stopped }
  | .tick =>
    if writer.batch.isEmpty ∧ writer.state.fsyncStrategy = .everysec ∧ writer.state.dirty ∧
        ¬ writer.stopped then
      some writer.synced
    else none

/-- Under `no`, the next message does not roll away from a segment that was not fsynced. -/
def Writer.sealsSynced (writer : Writer) : WriterAction → Bool
  | .receive =>
    match writer.queue with
    | .append entry :: _ =>
      ¬ (writer.state.fsyncStrategy = .no ∧ writer.state.dirty = true ∧
        writer.state.rolls cs entry = true)
    | _ => true
  | _ => true

/-- The bytes of the record are in the durable prefix of its segment file. -/
def Durable (volume : Volume) (record : WalRecord Entry) : Prop :=
  ∃ file ∈ volume.files, file.id = record.position.segmentId ∧
    field (file.data.take (volume.durable file.id)) record.position.offset
      (recordLen Entry.len record.payload) = encodeRecord cs record.payload

/-! ## Which records an fsync reaches -/

/-- All bytes of the record are below the durable length of its segment. -/
def Reached (volume : Volume) (record : WalRecord Entry) : Prop :=
  endOffset record ≤ volume.durable record.position.segmentId

section

variable {volume : Volume} {state : WriterState} {wal : Wal Entry} {record : WalRecord Entry}

variable (hfiles : volume.files = image cs wal []) (htracks : Tracks state wal)
  (hrecord : record ∈ wal.records Entry.len)

include hrecord in
theorem endOffset_le_active (hactive : record.position.segmentId = wal.active.id) :
    endOffset record ≤ wal.active.len Entry.len := by
  obtain ⟨segment, hsegment, hmem⟩ := (Wal.mem_records Entry.len).mp hrecord
  have hid := (mem_segment_records Entry.len hmem).1
  rcases List.mem_append.mp hsegment with h | h
  · have hlt := wal.closed_lt_active h
    omega
  · rw [List.mem_singleton.mp h] at hmem
    have hend := (endOffset_of_mem _ _ hmem).2
    rwa [Nat.zero_add] at hend

include hfiles hrecord in
/-- A record of the log whose bytes an fsync has reached is durable. -/
theorem Reached.durable (h : Reached volume record) : Durable cs volume record := by
  obtain ⟨segment, hsegment, hmem⟩ := (Wal.mem_records Entry.len).mp hrecord
  have hid := (mem_segment_records Entry.len hmem).1
  have hfile : fileOf cs segment ∈ volume.files := by
    rw [hfiles, image, imageOf_nil]
    exact List.mem_map_of_mem hsegment
  refine ⟨fileOf cs segment, hfile, hid.symm, ?_⟩
  rw [Reached, hid] at h
  have hfield := field_encodeAll cs segment.payloads [] hmem
  rw [List.nil_append] at hfield
  exact (field_take h).trans hfield

include hfiles hrecord in
/-- An fsync of the active file reaches all its records, and loses none of the others. -/
theorem Reached.sync (h : Reached volume record ∨ record.position.segmentId = wal.active.id) :
    Reached (volume.sync wal.active.id) record := by
  by_cases hactive : record.position.segmentId = wal.active.id
  · have hend := endOffset_le_active hrecord hactive
    simp only [Reached, Volume.sync, hactive, if_true, hfiles, fileLen_image]
    omega
  · simp only [Reached, Volume.sync, if_neg hactive]
    exact h.resolve_right hactive

/-- Sealing a segment fsyncs it, unless the strategy is `no`. -/
theorem Reached.sealed (hfiles : volume.files = image cs wal []) (htracks : Tracks state wal)
    (hrecord : record ∈ wal.records Entry.len)
    (h : Reached volume record ∨
      record.position.segmentId = wal.active.id ∧ state.dirty = true ∧ state.fsyncStrategy ≠ .no) :
    Reached (Disk.sealed state volume) record := by
  unfold Disk.sealed flushFile
  rw [htracks.file]
  by_cases hsync : state.dirty = true ∧ state.fsyncStrategy ≠ .no
  · rw [if_pos hsync.1, if_pos (by simpa using hsync.2)]
    exact Reached.sync cs hfiles hrecord (h.imp_right fun h => h.1)
  · have hreached := h.resolve_right fun h => hsync h.2
    split
    · next hdirty =>
      rw [if_neg (by simpa using fun hne => hsync ⟨hdirty, hne⟩)]
      exact hreached
    · exact hreached

/-- Starting a new segment touches no other. -/
theorem Reached.create (h : Reached volume record) {id : Nat}
    (hid : record.position.segmentId ≠ id) : Reached (volume.create id) record := by
  simp only [Reached, Volume.create, if_neg hid]
  exact h

include hrecord in
/-- Where a record of the log can be. -/
theorem segmentId_le_active : record.position.segmentId ≤ wal.active.id := by
  have hlt := Wal.position_lt_endPosition Entry.len hrecord
  rw [WalPosition.lt_def] at hlt
  simp only [Wal.endPosition] at hlt
  omega

include hfiles htracks in
/-- An append without I/O errors, and what it does to the records already there. -/
theorem handleAppend_faultless (hid : state.segmentId = state.file) (entry : Entry)
    (hseals : ¬ (state.fsyncStrategy = .no ∧ state.dirty = true ∧ state.rolls cs entry = true)) :
    ∃ (wal' : Wal Entry) (state' : WriterState) (volume' : Volume),
      handleAppend cs {} state volume entry
          = (state', volume', .ok (wal'.endPosition Entry.len)) ∧
        volume'.files = image cs (wal'.writeRecord entry) [] ∧
        Tracks state' (wal'.writeRecord entry) ∧ state'.segmentId = state'.file ∧
        state'.dirty = true ∧ state'.fsyncStrategy = state.fsyncStrategy ∧
        wal'.records Entry.len = wal.records Entry.len ∧
        (∀ record ∈ wal.records Entry.len, Reached volume record → Reached volume' record) ∧
        ∀ record ∈ wal.records Entry.len,
          Reached volume record ∨ record.position.segmentId = wal.active.id ∧ state.dirty = true →
          Reached volume' record ∨ record.position.segmentId = wal'.active.id := by
  unfold handleAppend
  by_cases hrolls : state.rolls cs entry = true
  · obtain ⟨id, hlt, state₁, hroll, hfiles₁, htracks₁, hid₁, hstrategy₁⟩ :=
      rollSegment_created cs hfiles htracks (rfl : ({} : Faults).create = none)
    obtain ⟨state₂, hwrite, hfiles₂, htracks₂, hid₂, hdirty₂, hstrategy₂⟩ :=
      writeRecord_written cs hfiles₁ htracks₁ hid₁ (rfl : ({} : Faults).write = none) entry
    have hne : ∀ record ∈ wal.records Entry.len, record.position.segmentId ≠ id := by
      intro record hrecord
      have hle := segmentId_le_active hrecord
      omega
    rw [if_pos hrolls, hroll]
    refine ⟨_, state₂, _, hwrite, hfiles₂, htracks₂, hid₂, hdirty₂, hstrategy₂.trans hstrategy₁,
      Wal.records_rollTo Entry.len hlt, ?_, ?_⟩
    · intro record hrecord h
      exact (Reached.sealed cs hfiles htracks hrecord (Or.inl h)).create (hne record hrecord)
    · intro record hrecord h
      refine Or.inl ((Reached.sealed cs hfiles htracks hrecord ?_).create (hne record hrecord))
      refine h.imp_right fun h => ⟨h.1, h.2, fun hno => hseals ⟨hno, h.2, hrolls⟩⟩
  · obtain ⟨state₂, hwrite, hfiles₂, htracks₂, hid₂, hdirty₂, hstrategy₂⟩ :=
      writeRecord_written cs hfiles htracks hid (rfl : ({} : Faults).write = none) entry
    rw [if_neg hrolls]
    exact ⟨wal, state₂, _, hwrite, hfiles₂, htracks₂, hid₂, hdirty₂, hstrategy₂, rfl,
      fun _ _ h => h, fun _ _ h => h.imp_right And.left⟩

end

/-! ## The task keeps its promises -/

/--
The writer task between two steps. Every record written is in the log, and reached by an fsync
unless it is in the open file and that file is marked dirty; the promises made so far hold.
-/
structure Accounted (strategy : FsyncStrategy) (writer : Writer) (wal : Wal Entry) : Prop where
  files : writer.volume.files = image cs wal []
  tracks : Tracks writer.state wal
  named : writer.state.segmentId = writer.state.file
  uses : writer.state.fsyncStrategy = strategy
  written : ∀ record, Reply.appended record ∈ writer.replies ++ writer.batch →
    record ∈ wal.records Entry.len ∧
      (Reached writer.volume record ∨
        record.position.segmentId = wal.active.id ∧ writer.state.dirty = true)
  flushed : ∀ (i j : Nat) record, writer.replies[i]? = some .flushed → j < i →
    writer.replies[j]? = some (.appended record) → Reached writer.volume record
  always : strategy = .always → ∀ record, Reply.appended record ∈ writer.replies →
    Reached writer.volume record

namespace Accounted

variable {strategy : FsyncStrategy} {writer : Writer} {wal : Wal Entry}

variable (h : Accounted cs strategy writer wal)

include h in
theorem mem_records {record : WalRecord Entry} (hrecord : Reply.appended record ∈ writer.replies) :
    record ∈ wal.records Entry.len :=
  (h.written record (List.mem_append_left _ hrecord)).1

/-- A message that writes nothing joins the batch. -/
theorem silent (h : Accounted cs strategy writer wal) {queue : List Message} {reply : Reply}
    (hreply : ∀ record, reply ≠ .appended record) :
    Accounted cs strategy { writer with queue, batch := writer.batch ++ [reply] } wal where
  files := h.files
  tracks := h.tracks
  named := h.named
  uses := h.uses
  written := by
    intro record hrecord
    rw [← List.append_assoc] at hrecord
    rcases List.mem_append.mp hrecord with hrecord | hrecord
    · exact h.written record hrecord
    · exact absurd (List.mem_singleton.mp hrecord).symm (hreply record)
  flushed := h.flushed
  always := h.always

/-- A record joins the batch. -/
theorem append (h : Accounted cs strategy writer wal) (queue : List Message) {entry : Entry}
    (hseals : ¬ (writer.state.fsyncStrategy = .no ∧ writer.state.dirty = true ∧
      writer.state.rolls cs entry = true)) :
    ∃ wal' state volume reply,
      handleMessage cs writer.state writer.volume (.append entry) = (state, volume, reply) ∧
        Accounted cs strategy { writer with state, volume, queue, batch := writer.batch ++ [reply] }
          wal' := by
  obtain ⟨wal', state', volume', heq, hfiles, htracks, hid, hdirty, hstrategy, hrecords, hkeeps,
    hwritten⟩ := handleAppend_faultless cs h.files h.tracks h.named entry hseals
  have hnew : (wal'.writeRecord entry).records Entry.len = wal'.records Entry.len
      ++ [{ position := wal'.endPosition Entry.len, payload := entry }] :=
    Wal.records_writeRecord Entry.len entry
  refine ⟨wal'.writeRecord entry, state', volume', _, by rw [handleMessage, heq], ?_⟩
  refine ⟨hfiles, htracks, hid, hstrategy.trans h.uses, ?_, ?_, ?_⟩
  · intro record hrecord
    simp only [hnew, hrecords]
    rw [← List.append_assoc] at hrecord
    rcases List.mem_append.mp hrecord with hrecord | hrecord
    · obtain ⟨hmem, hreached⟩ := h.written record hrecord
      exact ⟨List.mem_append_left _ hmem,
        (hwritten record hmem hreached).imp_right fun hactive => ⟨hactive, hdirty⟩⟩
    · cases List.mem_singleton.mp hrecord
      exact ⟨by simp, Or.inr ⟨rfl, hdirty⟩⟩
  · intro i j record hi hj hrecord
    exact hkeeps record (h.mem_records cs (List.mem_of_getElem? hrecord))
      (h.flushed i j record hi hj hrecord)
  · intro halways record hrecord
    exact hkeeps record (h.mem_records cs hrecord) (h.always halways record hrecord)

include h in
/-- After an fsync everything written is reached. -/
theorem synced {record : WalRecord Entry}
    (hrecord : Reply.appended record ∈ writer.replies ++ writer.batch) :
    Reached writer.synced.volume record := by
  obtain ⟨hmem, hreached⟩ := h.written record hrecord
  show Reached (writer.volume.sync writer.state.file) record
  rw [h.tracks.file]
  exact Reached.sync cs h.files hmem (hreached.imp_right And.left)

include h in
theorem tick : Accounted cs strategy writer.synced wal where
  files := h.files
  tracks := ⟨h.tracks.file, h.tracks.len, h.tracks.active, h.tracks.le⟩
  named := h.named
  uses := h.uses
  written := fun record hrecord =>
    ⟨(h.written record hrecord).1, Or.inl (h.synced cs hrecord)⟩
  flushed := fun _ _ _ _ _ hrecord =>
    h.synced cs (List.mem_append_left _ (List.mem_of_getElem? hrecord))
  always := fun _ _ hrecord => h.synced cs (List.mem_append_left _ hrecord)

include h in
/-- Without a reason to fsync, a batch with a flush in it had nothing left to fsync. -/
theorem reached_of_not_mustSync (hsync : writer.mustSync = false)
    (hreason : strategy = .always ∨ Reply.flushed ∈ writer.batch) {record : WalRecord Entry}
    (hrecord : Reply.appended record ∈ writer.replies ++ writer.batch) :
    Reached writer.volume record := by
  have hclean : writer.state.dirty = false := by
    rw [Writer.mustSync, h.uses] at hsync
    rcases hreason with rfl | hflush
    · simpa using hsync
    · have hany : writer.batch.any Reply.isFlushed = true := List.any_eq_true.mpr ⟨_, hflush, rfl⟩
      rw [hany] at hsync
      simpa using hsync
  refine (h.written record hrecord).2.resolve_right fun hdirty => ?_
  rw [hclean] at hdirty
  cases hdirty.2

include h in
theorem finish (stopped : Bool) :
    Accounted cs strategy
      { (if writer.mustSync then writer.synced else writer) with
        batch := [], replies := writer.replies ++ writer.batch, stopped } wal := by
  cases hsync : writer.mustSync with
  | true =>
    have htick := h.tick cs
    refine ⟨htick.files, htick.tracks, htick.named, htick.uses, ?_, ?_, ?_⟩
    · intro record hrecord
      rw [List.append_nil] at hrecord
      exact ⟨(h.written record hrecord).1, Or.inl (h.synced cs hrecord)⟩
    · intro _ _ record _ _ hrecord
      exact h.synced cs (List.mem_of_getElem? hrecord)
    · intro _ record hrecord
      exact h.synced cs hrecord
  | false =>
    refine ⟨h.files, h.tracks, h.named, h.uses, ?_, ?_, ?_⟩
    · intro record hrecord
      rw [List.append_nil] at hrecord
      exact h.written record hrecord
    · intro i j record hi hj hrecord
      by_cases hlt : i < writer.replies.length
      · -- an answer given before
        simp only [List.getElem?_append_left hlt] at hi
        simp only [List.getElem?_append_left (Nat.lt_trans hj hlt)] at hrecord
        exact h.flushed i j record hi hj hrecord
      · simp only [List.getElem?_append_right (Nat.not_lt.mp hlt)] at hi
        exact h.reached_of_not_mustSync cs hsync (Or.inr (List.mem_of_getElem? hi))
          (List.mem_of_getElem? hrecord)
    · intro halways record hrecord
      exact h.reached_of_not_mustSync cs hsync (Or.inl halways) hrecord

include h in
theorem step {action : WriterAction} {writer' : Writer}
    (hseals : writer.sealsSynced cs action = true) (hstep : writer.step cs action = some writer') :
    ∃ wal', Accounted cs strategy writer' wal' := by
  cases action with
  | send message =>
    simp only [Writer.step] at hstep
    split at hstep
    · cases hstep
    · rw [← Option.some.inj hstep]
      exact ⟨wal, ⟨h.files, h.tracks, h.named, h.uses, h.written, h.flushed, h.always⟩⟩
  | receive =>
    simp only [Writer.step] at hstep
    split at hstep
    · cases hstep
    · next message queue hqueue =>
      split at hstep
      · cases hstep
      · rw [← Option.some.inj hstep]
        cases message with
        | append entry =>
          simp only [Writer.sealsSynced, hqueue, decide_eq_true_eq] at hseals
          obtain ⟨wal', state, volume, reply, heq, hnext⟩ := h.append cs queue hseals
          rw [heq]
          exact ⟨wal', hnext⟩
        | flush | shutdown => exact ⟨wal, h.silent cs fun _ => by nofun⟩
  | finish =>
    simp only [Writer.step] at hstep
    split at hstep
    · cases hstep
    · rw [← Option.some.inj hstep]
      exact ⟨wal, h.finish cs _⟩
  | tick =>
    simp only [Writer.step] at hstep
    split at hstep
    · rw [← Option.some.inj hstep]
      exact ⟨wal, h.tick cs⟩
    · cases hstep

end Accounted

/--
**When flush returns.** If under `no` the writer never rolls away from a dirty segment, then in
every run, however the messages are batched, each record whose append was sent before a flush
that returned is durable; under `always`, so is each record whose append returned.
-/
theorem flush_is_durable {volume₀ volume : Volume} (hdir : Encoded cs volume₀.files)
    {maxSegmentSize : Nat} {strategy : FsyncStrategy} {state : WriterState}
    (hopen : openWriter cs maxSegmentSize strategy volume₀ = (volume, .ok state)) {writer : Writer}
    (h : Reach (Writer.step cs) (fun writer action => writer.sealsSynced cs action = true)
      (Writer.start volume state) writer) :
    (∀ (i j : Nat) record, writer.replies[i]? = some .flushed → j < i →
        writer.replies[j]? = some (.appended record) → Durable cs writer.volume record) ∧
      (strategy = .always → ∀ record, Reply.appended record ∈ writer.replies →
        Durable cs writer.volume record) := by
  have haccounted : ∃ wal, Accounted cs strategy writer wal := by
    refine h.invariant (I := fun writer => ∃ wal, Accounted cs strategy writer wal) ?_ ?_
    · obtain ⟨wal, hfiles, htracks, hid, hstrategy⟩ := hdir.open_tracks cs hopen
      exact ⟨wal, hfiles, htracks, hid, hstrategy, fun _ h => (by cases h),
        fun _ _ _ h => (by cases h), fun _ _ h => (by cases h)⟩
    · rintro s action s' ⟨wal, hs⟩ haction hstep
      exact hs.step cs haction hstep
  obtain ⟨wal, hw⟩ := haccounted
  constructor
  · intro i j record hi hj hrecord
    exact (hw.flushed i j record hi hj hrecord).durable cs hw.files
      (hw.mem_records cs (List.mem_of_getElem? hrecord))
  · intro halways record hrecord
    exact (hw.always halways record hrecord).durable cs hw.files (hw.mem_records cs hrecord)

namespace Sample

/-- A fresh directory with room for one record in each segment. -/
def opened (strategy : FsyncStrategy) : Volume × Except PersistenceError WriterState :=
  openWriter checksum 20 strategy { files := [], durable := fun _ => 0 }

def openedState (strategy : FsyncStrategy) : WriterState :=
  { file := 1, segmentId := 1, segmentLen := 0, maxSegmentSize := 20, fsyncStrategy := strategy
    dirty := false, activeSegment := 1 }

theorem opened_eq (strategy : FsyncStrategy) :
    opened strategy = ((opened strategy).1, .ok (openedState strategy)) := rfl

def firstRecord : WalRecord Entry :=
  { position := { segmentId := 1, offset := 0 }, payload := entry 1 }

/-- Two appends and a flush in one batch; the second append rolls. -/
def batch : List WriterAction :=
  [.send (.append (entry 1)), .send (.append (entry 2)), .send .flush, .receive, .receive, .receive,
    .finish]

end Sample

instance (volume : Volume) (record : WalRecord Entry) : Decidable (Durable cs volume record) :=
  inferInstanceAs (Decidable (∃ file ∈ volume.files, file.id = record.position.segmentId ∧
    field (file.data.take (volume.durable file.id)) record.position.offset
      (recordLen Entry.len record.payload) = encodeRecord cs record.payload))

/-- Under `everysec` the roll fsyncs the first segment. -/
theorem flush_is_durable_everysec :
    ∃ writer : Writer,
      (writer.replies[0]? = some (.appended firstRecord) ∧
        writer.replies[2]? = some .flushed) ∧
      Durable checksum writer.volume firstRecord := by
  have hrun : (run (Writer.step checksum) (Writer.sealsSynced checksum)
      (Writer.start (opened .everysec).1 (openedState .everysec)) Sample.batch).map
        (fun writer => (writer.replies[0]?, writer.replies[2]?))
      = some (some (.appended firstRecord), some .flushed) := by
    decide +kernel
  obtain ⟨writer, hreach, hwriter⟩ := exists_reach_of_run hrun
  obtain ⟨hfirst, hflush⟩ := Prod.mk.inj hwriter
  exact ⟨writer, ⟨hfirst, hflush⟩, (flush_is_durable checksum (Or.inl rfl)
    (opened_eq .everysec) hreach).1 2 0 _ hflush (by decide) hfirst⟩

/--
Under `no` the roll seals the first segment without an fsync and clears the dirty flag: the flush
fsyncs the second file only, and returns.
-/
theorem flush_leaves_sealed_segment :
    ∃ writer : Writer,
      Reach (Writer.step checksum) (fun _ _ => true = true)
          (Writer.start (opened .no).1 (openedState .no)) writer ∧
        writer.replies[0]? = some (.appended firstRecord) ∧
        writer.replies[2]? = some .flushed ∧
        ¬ Durable checksum writer.volume firstRecord := by
  have hrun : (run (Writer.step checksum) (fun _ _ => true)
      (Writer.start (opened .no).1 (openedState .no)) Sample.batch).map
        (fun writer => (writer.replies[0]?, writer.replies[2]?,
          decide (Durable checksum writer.volume firstRecord)))
      = some (some (.appended firstRecord), some .flushed, false) := by
    decide +kernel
  obtain ⟨writer, hreach, hwriter⟩ := exists_reach_of_run hrun
  obtain ⟨hfirst, hrest⟩ := Prod.mk.inj hwriter
  obtain ⟨hflush, hdurable⟩ := Prod.mk.inj hrest
  exact ⟨writer, hreach, hfirst, hflush, of_decide_eq_false hdurable⟩

end Calod.Storage.Disk
