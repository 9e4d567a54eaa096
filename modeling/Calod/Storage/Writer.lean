import Calod.Storage.Recovery

/-!
# The WAL writer

`WalWriter` of `calod-storage/src/wal.rs` on segment files of bytes: opening a directory, rolling
to the next segment, appending a record, deleting old segments. Segment creation and `write_all`
can fail; a failed write may have written any proper part of the record.

The writer keeps its own count of the bytes in the open file and its own number for it. `Tracks`
says that both agree with the record-level log; every function below is related to that log.

* `handleAppend_appends` — what an append does to files and writer, failures included
* `open_tracks` — opening cuts a torn tail and continues the log
* `truncateBefore_files` — deletion is that of the record-level log
-/

namespace Calod.Storage

variable {maxSegmentSize : Nat}

/-! ## The log, with gaps in the segment numbers -/

namespace Wal

variable {α : Type} (payloadLen : α → Nat) {wal : Wal α}

/-- Seal the active file and start one with a higher number. -/
def rollTo (wal : Wal α) (id : Nat) (h : wal.active.id < id) : Wal α where
  closed := wal.segments
  active := { id, payloads := [] }
  sorted := by
    refine List.pairwise_append.mpr ⟨wal.sorted, List.pairwise_singleton _ _, ?_⟩
    intro a ha b hb
    rw [List.mem_singleton.mp hb]
    rcases List.mem_append.mp ha with ha | ha
    · exact Nat.lt_trans (wal.closed_lt_active ha) h
    · rw [List.mem_singleton.mp ha]
      exact h

theorem records_rollTo {id : Nat} (h : wal.active.id < id) :
    (wal.rollTo id h).records payloadLen = wal.records payloadLen := by
  simp [records, replayAll, rollTo, segments, Segment.records, scanSegment]

theorem id_le_active {segment : Segment α} (h : segment ∈ wal.segments) :
    segment.id ≤ wal.active.id := by
  rcases List.mem_append.mp h with h | h
  · exact (wal.closed_lt_active h).le
  · rw [List.mem_singleton.mp h]

theorem foldl_removeSegment_closed (ids : List Nat) :
    (ids.foldl removeSegment wal).closed
      = wal.closed.filter fun segment => segment.id ∉ ids := by
  induction ids generalizing wal with
  | nil => simp
  | cons id ids ih =>
    rw [List.foldl_cons, ih, removeSegment, List.filter_filter]
    refine List.filter_congr fun segment _ => ?_
    simp [Bool.and_comm]

/-- `truncate_before` keeps the files from the cutoff on. -/
theorem truncateBefore_closed (segmentId : Nat) :
    (wal.truncateBefore segmentId).closed
      = wal.closed.filter fun segment => ¬ segment.id < min segmentId wal.active.id := by
  rw [truncateBefore, foldl_removeSegment_closed]
  refine List.filter_congr fun segment hsegment => ?_
  have hmem : segment.id ∈ wal.segments.map Segment.id :=
    List.mem_map.mpr ⟨segment, List.mem_append.mpr (Or.inl hsegment), rfl⟩
  simp only [truncateTargets, List.mem_filter, hmem, true_and, decide_eq_true_eq]

end Wal

namespace Disk

open Lib Calod.Core

/-! ## Files -/

inductive FsyncStrategy where
  | always
  | everysec
  | no
  deriving DecidableEq, Repr

/-- The WAL directory, and how many bytes of each segment file an fsync has made durable. -/
structure Volume where
  files : List File
  durable : Nat → Nat

def hasFile (files : List File) (id : Nat) : Bool := files.any fun file => file.id = id

/-- Size of a segment file. -/
def fileLen (files : List File) (id : Nat) : Nat :=
  ((files.find? fun file => file.id = id).map fun file => file.data.length).getD 0

/-- A new file takes its place in the id order of `list_segments`. -/
def insertFile (file : File) : List File → List File
  | [] => [file]
  | other :: rest =>
    if file.id < other.id then file :: other :: rest else other :: insertFile file rest

def Volume.create (volume : Volume) (id : Nat) : Volume :=
  { files := insertFile { id, data := [] } volume.files
    durable := fun i => if i = id then 0 else volume.durable i }

/-- A write to a file opened in append mode. -/
def Volume.write (volume : Volume) (id : Nat) (bytes : List UInt8) : Volume :=
  { volume with
    files := volume.files.map fun file =>
      if file.id = id then { file with data := file.data ++ bytes } else file }

/-- `sync_data`. -/
def Volume.sync (volume : Volume) (id : Nat) : Volume :=
  { volume with
    durable := fun i => if i = id then fileLen volume.files id else volume.durable i }

/-- The directory after `recover`, which may have shortened the last file. -/
def Volume.recovered (volume : Volume) (files : List File) : Volume :=
  { files, durable := fun i => min (volume.durable i) (fileLen files i) }

/-! ## The writer -/

structure WriterState where
  /-- Id of the segment that the open file handle belongs to. -/
  file : Nat
  segmentId : Nat
  segmentLen : Nat
  maxSegmentSize : Nat
  fsyncStrategy : FsyncStrategy
  dirty : Bool
  activeSegment : Nat
  deriving DecidableEq, Repr

/-- The I/O errors that one append meets. -/
structure Faults where
  /-- Creating the next segment file fails. -/
  create : Option String := none
  /-- `write_all` fails after some bytes. -/
  write : Option (Nat × String) := none

def flushFile (state : WriterState) (syncData : Bool) (volume : Volume) : Volume :=
  if syncData then volume.sync state.file else volume

/--
`roll_segment`. The number is bumped before the new file exists; on an error the old file stays
open under the new number.
-/
def rollSegment (faults : Faults) (state : WriterState) (volume : Volume) :
    WriterState × Volume × Except PersistenceError Unit :=
  let volume :=
    if state.dirty then flushFile state (state.fsyncStrategy ≠ .no) volume else volume
  let segmentId := state.segmentId + 1
  let state := { state with dirty := false, segmentId }
  match faults.create with
  | some message => (state, volume, .error (.io message))
  | none =>
    if hasFile volume.files segmentId then
      (state, volume, .error (.io "File exists (os error 17)"))
    else
      ({ state with file := segmentId, segmentLen := 0, activeSegment := segmentId },
        volume.create segmentId, .ok ())

variable (cs : Checksum)

/-- The part of `handle_append` after a roll: `segment_len` advances only if the write succeeds. A
write that fails is reported by the same append; tokio's `File` buffers, and reports it at the next
call. -/
def writeRecord (faults : Faults) (state : WriterState) (volume : Volume) (entry : Entry) :
    WriterState × Volume × Except PersistenceError WalPosition :=
  let encoded := encodeRecord cs entry
  let position : WalPosition := { segmentId := state.segmentId, offset := state.segmentLen }
  match faults.write with
  | some (written, message) =>
    (state, volume.write state.file (encoded.dropLast.take written), .error (.io message))
  | none =>
    ({ state with segmentLen := state.segmentLen + encoded.length, dirty := true },
      volume.write state.file encoded, .ok position)

/-- A record that does not fit rolls the segment, unless that is empty. -/
def WriterState.rolls (state : WriterState) (entry : Entry) : Bool :=
  0 < state.segmentLen ∧ state.maxSegmentSize < state.segmentLen + (encodeRecord cs entry).length

def handleAppend (faults : Faults) (state : WriterState) (volume : Volume) (entry : Entry) :
    WriterState × Volume × Except PersistenceError WalPosition :=
  if state.rolls cs entry then
    match rollSegment faults state volume with
    | (state, volume, .error err) => (state, volume, .error err)
    | (state, volume, .ok ()) => writeRecord cs faults state volume entry
  else
    writeRecord cs faults state volume entry

/-- `WalWriter::open`. -/
def openWriter (maxSegmentSize : Nat) (fsyncStrategy : FsyncStrategy) (volume : Volume) :
    Volume × Except PersistenceError WriterState :=
  if maxSegmentSize ≤ headerLen then
    (volume, .error (.walWriteFailed "max_segment_size must exceed the record header (13 bytes)"))
  else
    match recover cs volume.files with
    | (files, .error err) => (volume.recovered files, .error err)
    | (files, .ok report) =>
      let (segmentId, segmentLen) :=
        match report.segments.getLast? with
        | some info => if info.validLen < maxSegmentSize then (info.id, info.validLen)
          else (info.id + 1, 0)
        | none => (1, 0)
      let volume := volume.recovered files
      let volume := if hasFile files segmentId then volume else volume.create segmentId
      (volume, .ok { file := segmentId, segmentId, segmentLen, maxSegmentSize, fsyncStrategy,
                     dirty := false, activeSegment := segmentId })

/-- `truncate_before`: segments below both the given one and the active one go. -/
def truncateBefore (state : WriterState) (volume : Volume) (segmentId : Nat) : Volume :=
  let cutoff := min segmentId state.activeSegment
  { volume with files := volume.files.filter fun file => ¬ file.id < cutoff }

/-! ## Files of the record-level log -/

/-- The files that hold a log, with `tail` behind its last record. -/
def image (wal : Wal Entry) (tail : List UInt8) : List File :=
  imageOf cs wal.closed wal.active tail

section

variable {wal : Wal Entry} {tail : List UInt8}

theorem image_ids : (image cs wal tail).map File.id = wal.segments.map Segment.id := by
  simp [image, imageOf, fileOf, Wal.segments]

theorem hasFile_image (id : Nat) :
    hasFile (image cs wal tail) id = true ↔ ∃ segment ∈ wal.segments, segment.id = id := by
  have hany : hasFile (image cs wal tail) id = ((image cs wal tail).map File.id).any (· = id) := by
    simp [hasFile, Function.comp_def]
  rw [hany, image_ids]
  simp

theorem closed_id_ne {file : File} (h : file ∈ wal.closed.map (fileOf cs)) :
    file.id ≠ wal.active.id := by
  obtain ⟨segment, hsegment, rfl⟩ := List.mem_map.mp h
  exact (wal.closed_lt_active hsegment).ne

theorem fileLen_image :
    fileLen (image cs wal tail) wal.active.id = wal.active.len Entry.len + tail.length := by
  have hnone : (wal.closed.map (fileOf cs)).find? (fun file => file.id = wal.active.id) = none :=
    List.find?_eq_none.mpr fun file hfile => by simpa using closed_id_ne cs hfile
  have hlen : (encodeAll cs wal.active.payloads).length = wal.active.len Entry.len :=
    length_encodeAll cs wal.active.payloads
  simp [fileLen, image, imageOf, List.find?_append, hnone, hlen]

/-- A write reaches the active file only. -/
theorem write_image {volume : Volume} (hfiles : volume.files = image cs wal tail)
    (bytes : List UInt8) :
    (volume.write wal.active.id bytes).files = image cs wal (tail ++ bytes) := by
  have hclosed : (wal.closed.map (fileOf cs)).map (fun file =>
        if file.id = wal.active.id then { file with data := file.data ++ bytes } else file)
      = wal.closed.map (fileOf cs) :=
    (List.map_congr_left fun file hfile => if_neg (closed_id_ne cs hfile)).trans (List.map_id _)
  simp only [Volume.write, hfiles, image, imageOf, List.map_append, hclosed, List.map_cons,
    List.map_nil, if_true, List.append_assoc]

theorem image_writeRecord (entry : Entry) :
    image cs wal (encodeRecord cs entry) = image cs (wal.writeRecord entry) [] := by
  simp only [image, imageOf, Wal.writeRecord, encodeAll_append, encodeAll_singleton,
    List.append_nil]

theorem insertFile_last {file : File} {files : List File}
    (h : ∀ other ∈ files, other.id < file.id) :
    insertFile file files = files ++ [file] := by
  induction files with
  | nil => rfl
  | cons other files ih =>
    have hlt := h other (List.mem_cons_self)
    rw [insertFile, if_neg (by omega), ih fun o ho => h o (List.mem_cons_of_mem _ ho)]
    rfl

/-- A new file behind all others continues the log. -/
theorem create_image {volume : Volume} (hfiles : volume.files = image cs wal []) {id : Nat}
    (h : wal.active.id < id) : (volume.create id).files = image cs (wal.rollTo id h) [] := by
  have hlt : ∀ other ∈ image cs wal [], other.id < id := by
    intro other hother
    have hids : (image cs wal []).map File.id = wal.segments.map Segment.id := image_ids cs
    have hid : other.id ∈ wal.segments.map Segment.id := hids ▸ List.mem_map_of_mem hother
    obtain ⟨segment, hsegment, heq⟩ := List.mem_map.mp hid
    rw [← heq]
    exact Nat.lt_of_le_of_lt (wal.id_le_active hsegment) h
  rw [Volume.create, hfiles, insertFile_last hlt]
  simp only [image, imageOf_nil, Wal.rollTo, Wal.segments, List.map_append]
  rfl

end

/-! ## What an append does -/

/-- The writer's own account of the open file agrees with the log. -/
structure Tracks (state : WriterState) (wal : Wal Entry) : Prop where
  file : state.file = wal.active.id
  len : state.segmentLen = wal.active.len Entry.len
  active : state.activeSegment = wal.active.id
  le : wal.active.id ≤ state.segmentId

/-- The log itself, or with its active file sealed. -/
inductive Rolled (wal : Wal Entry) : Wal Entry → Prop where
  | same : Rolled wal wal
  | rolled {id : Nat} (h : wal.active.id < id) : Rolled wal (wal.rollTo id h)

/--
What an append can do. Either the next segment could not be created, or the write failed and
left a torn tail, or the record is at the end of the log.
-/
inductive Appends (faults : Faults) (wal : Wal Entry) (entry : Entry) :
    WriterState → Volume → Except PersistenceError WalPosition → Prop where
  | notCreated {state : WriterState} {volume : Volume} {message : String}
      (hfault : faults.create = some message) (hfiles : volume.files = image cs wal [])
      (htracks : Tracks state wal) :
      Appends faults wal entry state volume (.error (.io message))
  | notWritten {state : WriterState} {volume : Volume} {wal' : Wal Entry} {tail : List UInt8}
      {written : Nat} {message : String} (hfault : faults.write = some (written, message))
      (hrolled : Rolled wal wal') (htail : Torn cs tail)
      (hfiles : volume.files = image cs wal' tail)
      (htracks : Tracks state wal') :
      Appends faults wal entry state volume (.error (.io message))
  | written {state : WriterState} {volume : Volume} {wal' : Wal Entry}
      (hrolled : Rolled wal wal') (hfiles : volume.files = image cs (wal'.writeRecord entry) [])
      (htracks : Tracks state (wal'.writeRecord entry)) (hid : state.segmentId = state.file) :
      Appends faults wal entry state volume (.ok (wal'.endPosition Entry.len))

/-- The bytes of a write that failed. -/
theorem torn_dropLast (entry : Entry) (written : Nat) :
    Torn cs ((encodeRecord cs entry).dropLast.take written) := by
  have hpos : 0 < recordLen Entry.len entry := by unfold recordLen headerLen; omega
  refine ⟨entry, min written (recordLen Entry.len entry - 1), by omega, ?_⟩
  rw [List.dropLast_eq_take, List.take_take, length_encodeRecord]

section

variable {faults : Faults} {state : WriterState} {volume : Volume} {wal wal' : Wal Entry}

variable (hfiles : volume.files = image cs wal []) (htracks : Tracks state wal)

include hfiles htracks in
/-- A write that succeeds puts the record at the end of the log. -/
theorem writeRecord_written (hid : state.segmentId = state.file) (hfault : faults.write = none)
    (entry : Entry) :
    ∃ state', writeRecord cs faults state volume entry
        = (state', volume.write state.file (encodeRecord cs entry),
            .ok (wal.endPosition Entry.len)) ∧
      (volume.write state.file (encodeRecord cs entry)).files
        = image cs (wal.writeRecord entry) [] ∧
      Tracks state' (wal.writeRecord entry) ∧ state'.segmentId = state'.file ∧
      state'.dirty = true ∧ state'.fsyncStrategy = state.fsyncStrategy := by
  have hposition : ({ segmentId := state.segmentId, offset := state.segmentLen } : WalPosition)
      = wal.endPosition Entry.len := by
    rw [hid, htracks.file, htracks.len, Wal.endPosition]
  have hlen : (wal.writeRecord entry).active.len Entry.len
      = state.segmentLen + (encodeRecord cs entry).length := by
    rw [htracks.len, length_encodeRecord]
    simp [Segment.len, Wal.writeRecord]
  simp only [writeRecord, hfault, hposition]
  refine ⟨_, rfl, ?_, ⟨htracks.file, hlen.symm, htracks.active, htracks.le⟩, hid, rfl, rfl⟩
  rw [htracks.file, ← image_writeRecord]
  exact write_image cs hfiles _

/-- The write, on the file that the log ends with. -/
theorem writeRecord_appends (hrolled : Rolled wal wal') (hfiles : volume.files = image cs wal' [])
    (htracks : Tracks state wal') (hid : state.segmentId = state.file) (entry : Entry) :
    ∃ state' volume' result,
      writeRecord cs faults state volume entry = (state', volume', result) ∧
        Appends cs faults wal entry state' volume' result := by
  cases hwrite : faults.write with
  | some fault =>
    obtain ⟨written, message⟩ := fault
    simp only [writeRecord, hwrite]
    refine ⟨_, _, _, rfl, .notWritten hwrite hrolled (torn_dropLast cs entry written) ?_ htracks⟩
    rw [htracks.file]
    exact write_image cs hfiles _
  | none =>
    obtain ⟨state', heq, hfiles', htracks', hid', -, -⟩ :=
      writeRecord_written cs hfiles htracks hid hwrite entry
    exact ⟨_, _, _, heq, .written hrolled hfiles' htracks' hid'⟩

/-- What a roll does first: write out the old segment, and fsync it except under `no`. -/
def sealed (state : WriterState) (volume : Volume) : Volume :=
  if state.dirty then flushFile state (state.fsyncStrategy ≠ .no) volume else volume

theorem sealed_files : (sealed state volume).files = volume.files := by
  unfold sealed flushFile
  split
  · split <;> rfl
  · rfl

include hfiles htracks in
/-- A roll that fails leaves the log as it was. -/
theorem rollSegment_notCreated {message : String} (hfault : faults.create = some message) :
    ∃ state', rollSegment faults state volume
        = (state', sealed state volume, .error (.io message)) ∧
      (sealed state volume).files = image cs wal [] ∧ Tracks state' wal := by
  simp only [rollSegment, hfault]
  exact ⟨_, rfl, sealed_files.trans hfiles,
    ⟨htracks.file, htracks.len, htracks.active, Nat.le_succ_of_le htracks.le⟩⟩

include hfiles htracks in
/-- A roll that succeeds starts a segment behind all others. -/
theorem rollSegment_created (hfault : faults.create = none) :
    ∃ (id : Nat) (hlt : wal.active.id < id) (state' : WriterState),
      rollSegment faults state volume = (state', (sealed state volume).create id, .ok ()) ∧
        ((sealed state volume).create id).files = image cs (wal.rollTo id hlt) [] ∧
        Tracks state' (wal.rollTo id hlt) ∧ state'.segmentId = state'.file ∧
        state'.fsyncStrategy = state.fsyncStrategy := by
  have hfiles' : (sealed state volume).files = image cs wal [] := sealed_files.trans hfiles
  have hlt : wal.active.id < state.segmentId + 1 := Nat.lt_succ_of_le htracks.le
  have hfree : hasFile (sealed state volume).files (state.segmentId + 1) = false := by
    rw [hfiles', Bool.eq_false_iff]
    intro h
    obtain ⟨segment, hsegment, hid⟩ := (hasFile_image cs _).mp h
    have hle := wal.id_le_active hsegment
    omega
  rw [sealed] at hfree
  simp only [rollSegment, hfault, hfree]
  exact ⟨_, hlt, _, rfl, create_image cs hfiles' hlt, ⟨rfl, rfl, rfl, Nat.le_refl _⟩, rfl, rfl⟩

variable (faults) in
include hfiles htracks in
/--
**Every append**, on a file that ends with the last record of the log: the open file has the
writer's number, or the writer rolls.
-/
theorem handleAppend_appends {entry : Entry}
    (hready : state.segmentId = state.file ∨ state.rolls cs entry = true) :
    ∃ state' volume' result,
      handleAppend cs faults state volume entry = (state', volume', result) ∧
        Appends cs faults wal entry state' volume' result := by
  unfold handleAppend
  by_cases hrolls : state.rolls cs entry = true
  · rw [if_pos hrolls]
    cases hfault : faults.create with
    | some message =>
      obtain ⟨state', hroll, hfiles', htracks'⟩ :=
        rollSegment_notCreated cs hfiles htracks hfault
      rw [hroll]
      exact ⟨_, _, _, rfl, .notCreated hfault hfiles' htracks'⟩
    | none =>
      obtain ⟨id, hlt, state', hroll, hfiles', htracks', hid, -⟩ :=
        rollSegment_created cs hfiles htracks hfault
      rw [hroll]
      exact writeRecord_appends cs (.rolled hlt) hfiles' htracks' hid entry
  · rw [if_neg hrolls]
    exact writeRecord_appends cs .same hfiles htracks (hready.resolve_right hrolls) entry

/-! ## Opening and deleting -/

/-- **Opening continues the log**, as `Wal.open` does on records, without the torn tail. -/
theorem open_tracks {tail : List UInt8} (hfiles : volume.files = image cs wal tail)
    (htail : Torn cs tail) (hmax : headerLen < maxSegmentSize) (fsyncStrategy : FsyncStrategy) :
    ∃ wal' volume' state, openWriter cs maxSegmentSize fsyncStrategy volume
        = (volume', .ok state) ∧
      Wal.open Entry.len maxSegmentSize wal.dir = .ok wal' ∧
      volume'.files = image cs wal' [] ∧ Tracks state wal' ∧ state.segmentId = state.file ∧
      state.fsyncStrategy = fsyncStrategy := by
  obtain ⟨wal', hopen⟩ := Wal.open_ok Entry.len wal.dir hmax
  have himage : (wal.closed ++ [wal.active]).map (fileOf cs) = image cs wal [] :=
    (imageOf_nil cs wal.closed wal.active).symm
  have hlast : (reportOf .default (wal.closed ++ [wal.active])).segments.getLast?
      = some (infoOf wal.active) := by
    simp [reportOf, RecoveryReport.default]
  have hrecover := recover_encoded cs wal.closed wal.active htail
  unfold openWriter
  rw [if_neg (Nat.not_le.mpr hmax), hfiles, image, hrecover, himage]
  simp only [hlast, infoOf]
  rcases Wal.open_cases Entry.len hopen with ⟨hlt, rfl⟩ | ⟨hlt, rfl⟩
  · have hhas : hasFile (image cs wal' []) wal'.active.id = true :=
      (hasFile_image cs _).mpr ⟨wal'.active, by simp [Wal.segments], rfl⟩
    simp only [hlt, if_true, hhas]
    exact ⟨_, _, _, rfl, hopen, rfl, ⟨rfl, rfl, rfl, Nat.le_refl _⟩, rfl, rfl⟩
  · have hfree : hasFile (image cs wal []) (wal.active.id + 1) = false := by
      rw [Bool.eq_false_iff]
      intro h
      obtain ⟨segment, hsegment, hid⟩ := (hasFile_image cs _).mp h
      have hle := wal.id_le_active hsegment
      omega
    simp only [hlt, if_false, hfree]
    refine ⟨_, _, _, rfl, hopen, ?_, ⟨rfl, rfl, rfl, Nat.le_refl _⟩, rfl, rfl⟩
    exact create_image cs rfl (Nat.lt_succ_self _)

/-- Opening an empty directory. -/
theorem open_empty (hfiles : volume.files = []) (hmax : headerLen < maxSegmentSize)
    (fsyncStrategy : FsyncStrategy) :
    ∃ wal' volume' state, openWriter cs maxSegmentSize fsyncStrategy volume
        = (volume', .ok state) ∧
      Wal.open Entry.len maxSegmentSize { segments := [], sorted := List.Pairwise.nil } = .ok wal' ∧
      volume'.files = image cs wal' [] ∧ Tracks state wal' ∧ state.segmentId = state.file ∧
      state.fsyncStrategy = fsyncStrategy := by
  have hopen : Wal.open Entry.len maxSegmentSize { segments := [], sorted := List.Pairwise.nil }
      = .ok { closed := [], active := { id := 1, payloads := [] }, sorted := by simp } := by
    unfold Wal.open
    rw [if_neg (Nat.not_le.mpr hmax)]
    rfl
  unfold openWriter
  rw [if_neg (Nat.not_le.mpr hmax), hfiles]
  exact ⟨_, _, _, rfl, hopen, rfl, ⟨rfl, rfl, rfl, Nat.le_refl _⟩, rfl, rfl⟩

/-- A directory as a writer leaves it: no file yet, or encoded records and a torn tail. -/
def Encoded (files : List File) : Prop :=
  files = [] ∨ ∃ wal tail, Torn cs tail ∧ files = image cs wal tail

/-- A writer that has just been opened tracks the log in its directory. -/
theorem Encoded.open_tracks (hfiles : Encoded cs volume.files) {fsyncStrategy : FsyncStrategy}
    {volume' : Volume}
    (hopen : openWriter cs maxSegmentSize fsyncStrategy volume = (volume', .ok state)) :
    ∃ wal, volume'.files = image cs wal [] ∧ Tracks state wal ∧ state.segmentId = state.file ∧
      state.fsyncStrategy = fsyncStrategy := by
  have hmax : headerLen < maxSegmentSize := by
    by_contra hle
    rw [openWriter, if_pos (Nat.not_lt.mp hle)] at hopen
    cases (Prod.mk.inj hopen).2
  rcases hfiles with hfiles | ⟨wal, tail, htail, hfiles⟩
  · obtain ⟨wal', volume₁, state₁, heq, -, hrest⟩ := open_empty cs hfiles hmax fsyncStrategy
    rw [hopen] at heq
    obtain ⟨rfl, hstate⟩ := Prod.mk.inj heq
    cases hstate
    exact ⟨wal', hrest⟩
  · obtain ⟨wal', volume₁, state₁, heq, -, hrest⟩ :=
      Disk.open_tracks cs hfiles htail hmax fsyncStrategy
    rw [hopen] at heq
    obtain ⟨rfl, hstate⟩ := Prod.mk.inj heq
    cases hstate
    exact ⟨wal', hrest⟩

/-- **Deletion is that of the record-level log**; the active file and its tail stay. -/
theorem truncateBefore_files {tail : List UInt8} (hfiles : volume.files = image cs wal tail)
    (htracks : Tracks state wal) (segmentId : Nat) :
    (truncateBefore state volume segmentId).files
      = image cs (wal.truncateBefore segmentId) tail := by
  simp only [truncateBefore, hfiles, htracks.active, image, imageOf, List.filter_append,
    Wal.truncateBefore_closed, Wal.truncateBefore_active]
  rw [List.filter_map, List.filter_cons_of_pos (by simp), List.filter_nil]
  rfl

end

end Disk

end Calod.Storage
