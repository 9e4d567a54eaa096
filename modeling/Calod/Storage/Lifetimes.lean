import Calod.Storage.Writer
import Calod.Lib.Transition

/-!
# Whole lifetimes of a WAL directory

Any sequence of opening the directory, appending, deleting old segments and crashing. A crash
leaves the files as they are; every `open` may come with another segment size.

* `replay_agrees` — without I/O errors, replay yields the records that were appended and whose
  segments still exist, each at the position that `append` returned
* `replay_after_faults` — with I/O errors, the same for the acknowledged records, as long as
  nothing is appended behind a torn record or under the number of a segment that was not created
-/

namespace Calod.Storage.Disk

open Lib Calod.Core Disk.Sample

/-! ## The system -/

/-- A directory, the writer if one is running, and what happened so far. -/
structure Store where
  volume : Volume
  writer : Option WriterState
  /-- The records that `append` was called with. -/
  asked : List Entry
  /-- The records whose `append` returned, with the position returned. -/
  acked : List (WalRecord Entry)

def Store.empty : Store :=
  { volume := { files := [], durable := fun _ => 0 }, writer := none, asked := [], acked := [] }

inductive Action where
  | open (maxSegmentSize : Nat) (fsyncStrategy : FsyncStrategy)
  | append (recordType : RecordType) (payload : List UInt8) (faults : Faults)
  | truncateBefore (segmentId : Nat)
  | crash

/-- The size check at the start of `WalWriter::append`. -/
def entryOf (recordType : RecordType) (payload : List UInt8) : Option Entry :=
  if h : payload.length ≤ u32Max then some { recordType, payload, fits := h } else none

variable (cs : Checksum)

def Store.append (store : Store) (state : WriterState) (entry : Entry) (faults : Faults) : Store :=
  match handleAppend cs faults state store.volume entry with
  | (state, volume, .ok position) =>
    { volume, writer := some state, asked := store.asked ++ [entry]
      acked := store.acked ++ [{ position, payload := entry }] }
  | (state, volume, .error _) =>
    { store with volume, writer := some state, asked := store.asked ++ [entry] }

def Store.step (store : Store) : Action → Option Store
  | .open maxSegmentSize fsyncStrategy =>
    match store.writer with
    | some _ => none
    | none =>
      match openWriter cs maxSegmentSize fsyncStrategy store.volume with
      | (volume, .ok state) => some { store with volume, writer := some state }
      | (volume, .error _) => some { store with volume }
  | .append recordType payload faults =>
    store.writer.map fun state =>
      match entryOf recordType payload with
      | none => store
      | some entry => store.append cs state entry faults
  | .truncateBefore segmentId =>
    store.writer.map fun state =>
      { store with volume := Disk.truncateBefore state store.volume segmentId }
  | .crash => some { store with writer := none }

/-- No I/O error. -/
def Action.faultless : Action → Bool
  | .append _ _ faults => faults.create.isNone && faults.write.isNone
  | _ => true

/--
An append is sound when the open file is as long as the writer believes and, unless the record
rolls to a new segment, has the number that the writer goes by.
-/
def Store.sound (store : Store) : Action → Bool
  | .append recordType payload _ =>
    match store.writer, entryOf recordType payload with
    | some state, some entry =>
      fileLen store.volume.files state.file = state.segmentLen ∧
        (state.segmentId = state.file ∨ state.rolls cs entry = true)
    | _, _ => true
  | _ => true

/-! ## What the log owes to the acknowledged records -/

/-- Is there a segment with this number? -/
def hasSegment (wal : Wal Entry) (id : Nat) : Bool :=
  wal.segments.any fun segment => segment.id = id

theorem hasFile_eq {wal : Wal Entry} {tail : List UInt8} (id : Nat) :
    hasFile (image cs wal tail) id = hasSegment wal id := by
  rw [Bool.eq_iff_iff, hasFile_image, hasSegment, List.any_eq_true]
  simp

/-- The log holds the acknowledged records of the segments that are left, in order. -/
structure Logged (acked : List (WalRecord Entry)) (wal : Wal Entry) : Prop where
  records : wal.records Entry.len
    = acked.filter fun record => hasSegment wal record.position.segmentId
  ordered : acked.Pairwise fun r r' => r.position < r'.position
  below : ∀ record ∈ acked, record.position < wal.endPosition Entry.len

variable {wal' : Wal Entry} {state : WriterState}

namespace Logged

variable {acked : List (WalRecord Entry)} {wal : Wal Entry}

theorem nil (h : wal.records Entry.len = []) : Logged [] wal where
  records := h
  ordered := List.Pairwise.nil
  below := fun _ hrecord => by cases hrecord

theorem writeRecord (h : Logged acked wal) (entry : Entry) :
    Logged (acked ++ [{ position := wal.endPosition Entry.len, payload := entry }])
      (wal.writeRecord entry) where
  records := by
    have hsame : ∀ id, hasSegment (wal.writeRecord entry) id = hasSegment wal id := by
      intro id
      simp [hasSegment, Wal.segments, Wal.writeRecord]
    have hactive : hasSegment wal (wal.endPosition Entry.len).segmentId = true := by
      simp [hasSegment, Wal.segments, Wal.endPosition]
    rw [Wal.records_writeRecord, h.records, List.filter_append]
    simp only [hsame]
    rw [List.filter_cons_of_pos (by exact hactive), List.filter_nil]
  ordered := by
    refine List.pairwise_append.mpr ⟨h.ordered, List.pairwise_singleton _ _, ?_⟩
    intro record hrecord other hother
    rw [List.mem_singleton.mp hother]
    exact h.below record hrecord
  below := by
    have hlt : wal.endPosition Entry.len < (wal.writeRecord entry).endPosition Entry.len :=
      Wal.endPosition_lt_writeRecord Entry.len entry
    intro record hrecord
    rcases List.mem_append.mp hrecord with hrecord | hrecord
    · exact WalPosition.lt_of_le_of_lt (WalPosition.le_of_lt (h.below record hrecord)) hlt
    · rw [List.mem_singleton.mp hrecord]
      exact hlt

theorem rollTo (h : Logged acked wal) {id : Nat} (hid : wal.active.id < id) :
    Logged acked (wal.rollTo id hid) where
  records := by
    rw [Wal.records_rollTo, h.records]
    refine List.filter_congr fun record hrecord => ?_
    -- no acknowledged record is in the new segment yet
    have hne : id ≠ record.position.segmentId := by
      have hbelow := h.below record hrecord
      rw [WalPosition.lt_def] at hbelow
      simp only [Wal.endPosition] at hbelow
      omega
    simp [hasSegment, Wal.rollTo, Wal.segments, hne]
  ordered := h.ordered
  below := fun record hrecord =>
    WalPosition.lt_of_le_of_lt (WalPosition.le_of_lt (h.below record hrecord))
      (Or.inl hid)

theorem rolled (h : Logged acked wal) (hrolled : Rolled wal wal') : Logged acked wal' := by
  cases hrolled with
  | same => exact h
  | rolled hid => exact h.rollTo hid

theorem removeSegment (h : Logged acked wal) {id : Nat} (hid : id ≠ wal.active.id) :
    Logged acked (wal.removeSegment id) where
  records := by
    have hsegments : ∀ i, hasSegment (wal.removeSegment id) i
        = (decide (i ≠ id) && hasSegment wal i) := by
      intro i
      rw [Bool.eq_iff_iff]
      simp only [hasSegment, Wal.segments, Wal.removeSegment, List.any_eq_true, List.mem_append,
        List.mem_filter, List.mem_singleton, decide_eq_true_eq, Bool.and_eq_true]
      constructor
      · rintro ⟨segment, ⟨hmem, hne⟩ | rfl, rfl⟩
        · exact ⟨hne, segment, Or.inl hmem, rfl⟩
        · exact ⟨hid.symm, wal.active, Or.inr rfl, rfl⟩
      · rintro ⟨hne, segment, hmem | rfl, rfl⟩
        · exact ⟨segment, Or.inl ⟨hmem, hne⟩, rfl⟩
        · exact ⟨wal.active, Or.inr rfl, rfl⟩
    rw [Wal.records_removeSegment Entry.len hid, h.records, List.filter_filter]
    simp only [hsegments]
  ordered := h.ordered
  below := h.below

theorem truncateBefore (h : Logged acked wal) (segmentId : Nat) :
    Logged acked (wal.truncateBefore segmentId) := by
  have htargets : ∀ id ∈ wal.truncateTargets segmentId, id ≠ wal.active.id := by
    intro id hid
    have hlt := (List.mem_filter.mp hid).2
    simp only [decide_eq_true_eq] at hlt
    omega
  unfold Wal.truncateBefore
  generalize wal.truncateTargets segmentId = ids at htargets
  induction ids generalizing wal with
  | nil => exact h
  | cons id ids ih =>
    exact ih (h.removeSegment (htargets id List.mem_cons_self))
      fun id' hid' => htargets id' (List.mem_cons_of_mem _ hid')

theorem reopen (h : Logged acked wal) {maxSegmentSize : Nat}
    (hopen : Wal.open Entry.len maxSegmentSize wal.dir = .ok wal') : Logged acked wal' := by
  rcases Wal.open_cases Entry.len hopen with ⟨-, rfl⟩ | ⟨-, rfl⟩
  · exact h
  · exact h.rollTo (Nat.lt_succ_self _)

end Logged

/-! ## Every state that is reached -/

/--
The directory is empty, or its files are those of a log that holds the acknowledged records,
followed by a torn tail. If the run had no I/O errors there is no tail, the writer goes by the
number of the file it has open, and every append has succeeded.
-/
inductive Held (faultless : Prop) (store : Store) : Prop where
  | empty (hfiles : store.volume.files = []) (hwriter : store.writer = none)
      (hasked : store.asked = []) (hacked : store.acked = [])
  | log {wal : Wal Entry} {tail : List UInt8} (htail : Torn cs tail)
      (hfiles : store.volume.files = image cs wal tail) (hlogged : Logged store.acked wal)
      (hwriter : ∀ state, store.writer = some state → Tracks state wal)
      (hexact : faultless → tail = [] ∧
        (∀ state, store.writer = some state → state.segmentId = state.file) ∧
        store.acked.map WalRecord.payload = store.asked)

namespace Held

variable {faultless : Prop} {store : Store}

section

variable (h : Held cs faultless store)

include h

theorem crash : Held cs faultless { store with writer := none } := by
  cases h with
  | empty hfiles _ hasked hacked => exact .empty hfiles rfl hasked hacked
  | log htail hfiles hlogged _ hexact =>
    exact .log htail hfiles hlogged (fun _ h => (by cases h)) fun hf =>
      ⟨(hexact hf).1, fun _ h => (by cases h), (hexact hf).2.2⟩

theorem truncateBefore (hstate : store.writer = some state) (segmentId : Nat) :
    Held cs faultless
      { store with volume := Disk.truncateBefore state store.volume segmentId } := by
  cases h with
  | empty _ hwriter _ _ =>
    rw [hwriter] at hstate
    cases hstate
  | log htail hfiles hlogged hwriter hexact =>
    refine .log htail (truncateBefore_files cs hfiles (hwriter state hstate) segmentId)
      (hlogged.truncateBefore segmentId) ?_ hexact
    intro state' hstate'
    obtain ⟨hfile, hlen, hact, hle⟩ := hwriter state' hstate'
    refine ⟨?_, ?_, ?_, ?_⟩ <;> rw [Wal.truncateBefore_active] <;> assumption

theorem openWriter (hwriter : store.writer = none) (maxSegmentSize : Nat)
    (fsyncStrategy : FsyncStrategy) {store' : Store}
    (hstep : store.step cs (.open maxSegmentSize fsyncStrategy) = some store') :
    Held cs faultless store' := by
  simp only [Store.step, hwriter] at hstep
  by_cases hmax : maxSegmentSize ≤ headerLen
  · -- refused before anything is touched
    rw [Disk.openWriter, if_pos hmax] at hstep
    rw [← Option.some.inj hstep]
    exact h.crash cs
  cases h with
  | empty hfiles _ hasked hacked =>
    obtain ⟨wal', volume', state, heq, hopen, hfiles', htracks, hid, -⟩ :=
      open_empty cs hfiles (Nat.not_le.mp hmax) fsyncStrategy
    rw [heq] at hstep
    rw [← Option.some.inj hstep]
    refine .log (torn_nil cs) hfiles' ?_ ?_ ?_
    · rw [hacked]
      exact .nil (Wal.records_open Entry.len hopen)
    · intro state' hstate'
      rw [← Option.some.inj hstate']
      exact htracks
    · intro _
      refine ⟨rfl, fun state' hstate' => ?_, by rw [hasked, hacked]; rfl⟩
      rw [← Option.some.inj hstate']
      exact hid
  | log htail hfiles hlogged _ hexact =>
    obtain ⟨wal', volume', state, heq, hopen, hfiles', htracks, hid, -⟩ :=
      open_tracks cs hfiles htail (Nat.not_le.mp hmax) fsyncStrategy
    rw [heq] at hstep
    rw [← Option.some.inj hstep]
    refine .log (torn_nil cs) hfiles' (hlogged.reopen hopen) ?_ ?_
    · intro state' hstate'
      rw [← Option.some.inj hstate']
      exact htracks
    · intro hf
      refine ⟨rfl, fun state' hstate' => ?_, (hexact hf).2.2⟩
      rw [← Option.some.inj hstate']
      exact hid

/-- An append, on a file that is as long as the writer believes. -/
theorem append (hstate : store.writer = some state) {entry : Entry} {faults : Faults}
    (hlen : fileLen store.volume.files state.file = state.segmentLen)
    (hready : state.segmentId = state.file ∨ state.rolls cs entry = true)
    (hfaults : faultless → faults.create = none ∧ faults.write = none) :
    Held cs faultless (store.append cs state entry faults) := by
  cases h with
  | empty _ hwriter _ _ =>
    rw [hwriter] at hstate
    cases hstate
  | @log wal tail _ hfiles hlogged hwriter hexact =>
    have htracks := hwriter state hstate
    obtain rfl : tail = [] := by
      rw [hfiles, htracks.file, fileLen_image, htracks.len] at hlen
      exact List.length_eq_zero_iff.mp (by omega)
    obtain ⟨state', volume', result, heq, happends⟩ :=
      handleAppend_appends cs faults hfiles htracks hready
    simp only [Store.append, heq]
    cases happends with
    | notCreated hfault hfiles' htracks' =>
      refine .log (torn_nil cs) hfiles' hlogged ?_ ?_
      · intro s hs
        rw [← Option.some.inj hs]
        exact htracks'
      · intro hf
        rw [(hfaults hf).1] at hfault
        cases hfault
    | notWritten hfault hrolled htail hfiles' htracks' =>
      refine .log htail hfiles' (hlogged.rolled hrolled) ?_ ?_
      · intro s hs
        rw [← Option.some.inj hs]
        exact htracks'
      · intro hf
        rw [(hfaults hf).2] at hfault
        cases hfault
    | written hrolled hfiles' htracks' hid =>
      refine .log (torn_nil cs) hfiles' ((hlogged.rolled hrolled).writeRecord entry) ?_ ?_
      · intro s hs
        rw [← Option.some.inj hs]
        exact htracks'
      · intro hf
        refine ⟨rfl, fun s hs => ?_, ?_⟩
        · rw [← Option.some.inj hs]
          exact hid
        · simp only [List.map_append, List.map_cons, List.map_nil, (hexact hf).2.2]

end

/-- In a run without I/O errors every append is sound. -/
theorem sound (h : Held cs True store) (action : Action) : store.sound cs action = true := by
  cases action with
  | append recordType payload faults =>
    simp only [Store.sound]
    split
    · next state entry hstate _ =>
      cases h with
      | empty _ hwriter _ _ =>
        rw [hwriter] at hstate
        cases hstate
      | log _ hfiles _ hwriter hexact =>
        obtain ⟨rfl, hid, -⟩ := hexact trivial
        have htracks := hwriter state hstate
        have hlen : fileLen store.volume.files state.file = state.segmentLen := by
          rw [hfiles, htracks.file, fileLen_image, htracks.len]
          rfl
        exact decide_eq_true ⟨hlen, Or.inl (hid state hstate)⟩
    · rfl
  | _ => rfl

theorem step (h : Held cs faultless store) {action : Action} {store' : Store}
    (hsound : store.sound cs action = true) (hfaults : faultless → action.faultless = true)
    (hstep : store.step cs action = some store') : Held cs faultless store' := by
  cases action with
  | «open» maxSegmentSize fsyncStrategy =>
    cases hwriter : store.writer with
    | none => exact h.openWriter cs hwriter maxSegmentSize fsyncStrategy hstep
    | some state =>
      simp only [Store.step, hwriter] at hstep
      cases hstep
  | append recordType payload faults =>
    simp only [Store.step] at hstep
    obtain ⟨state, hstate, hstep⟩ := Option.map_eq_some_iff.mp hstep
    cases hentry : entryOf recordType payload with
    | none =>
      rw [hentry] at hstep
      exact hstep ▸ h
    | some entry =>
      rw [hentry] at hstep
      simp only [Store.sound, hstate, hentry, decide_eq_true_eq] at hsound
      rw [← hstep]
      refine h.append cs hstate hsound.1 hsound.2 fun hf => ?_
      have hnone := hfaults hf
      simp only [Action.faultless, Bool.and_eq_true, Option.isNone_iff_eq_none] at hnone
      exact hnone
  | truncateBefore segmentId =>
    simp only [Store.step] at hstep
    obtain ⟨state, hstate, hstep⟩ := Option.map_eq_some_iff.mp hstep
    rw [← hstep]
    exact h.truncateBefore cs hstate segmentId
  | crash =>
    rw [← Option.some.inj hstep]
    exact h.crash cs

/-- What replay yields: the acknowledged records whose segment file still exists. -/
theorem replay (h : Held cs faultless store) :
    (∃ report, (recover cs store.volume.files).2 = .ok report) ∧
      (replayAll cs store.volume.files).2 = .ok (store.acked.filter fun record =>
        hasFile store.volume.files record.position.segmentId) ∧
      store.acked.Pairwise fun r r' => r.position < r'.position := by
  cases h with
  | empty hfiles _ _ hacked =>
    rw [hfiles, hacked]
    exact ⟨⟨_, rfl⟩, rfl, List.Pairwise.nil⟩
  | @log wal tail htail hfiles hlogged _ _ =>
    simp only [hfiles, hasFile_eq]
    have hrecover := recover_encoded cs wal.closed wal.active htail
    refine ⟨⟨_, congrArg Prod.snd hrecover⟩, ?_, hlogged.ordered⟩
    rw [← hlogged.records, image, replayAll_encoded cs _ _ htail]
    rfl

end Held

/-! ## Replay and what was appended -/

/--
**Write and replay agree over whole lifetimes.** Without I/O errors every append succeeds, its
positions grow from record to record, and replay yields exactly the records appended to segments
that still exist, in that order and at those positions.
-/
theorem replay_agrees {store : Store}
    (h : Reach (Store.step cs) (fun _ action => action.faultless = true) Store.empty store) :
    store.acked.map WalRecord.payload = store.asked ∧
      (replayAll cs store.volume.files).2 = .ok (store.acked.filter fun record =>
        hasFile store.volume.files record.position.segmentId) ∧
      store.acked.Pairwise fun r r' => r.position < r'.position := by
  have hheld : Held cs True store := by
    refine h.invariant (I := Held cs True) (.empty rfl rfl rfl rfl) ?_
    intro s action s' hs haction hstep
    exact hs.step cs (hs.sound cs action) (fun _ => haction) hstep
  obtain ⟨-, hreplay, hordered⟩ := hheld.replay cs
  refine ⟨?_, hreplay, hordered⟩
  cases hheld with
  | empty _ _ hasked hacked => rw [hasked, hacked]; rfl
  | log _ _ _ _ hexact => exact (hexact trivial).2.2

namespace Sample

def append (byte : UInt8) (faults : Faults) : Action := .append .put [byte, byte] faults

/-- The third record rolls, the first segment is deleted, and another process goes on. -/
def lifetimes : List Action :=
  [.open 40 .everysec, append 1 {}, append 2 {}, append 3 {}, .truncateBefore 2, .crash,
    .open 100 .no, append 4 {}]

end Sample

theorem replay_agrees_after_reopen :
    ∃ store : Store, (store.acked.map WalRecord.position = [⟨1, 0⟩, ⟨1, 15⟩, ⟨2, 0⟩, ⟨2, 15⟩] ∧
        store.volume.files.map File.id = [2]) ∧
      (replayAll checksum store.volume.files).2
        = .ok (store.acked.filter fun record =>
            hasFile store.volume.files record.position.segmentId) := by
  have hrun : (run (Store.step checksum) (fun _ action => action.faultless) Store.empty
      lifetimes).map
        (fun s => (s.acked.map WalRecord.position, s.volume.files.map File.id))
      = some ([⟨1, 0⟩, ⟨1, 15⟩, ⟨2, 0⟩, ⟨2, 15⟩], [2]) := by
    decide +kernel
  obtain ⟨store, hreach, hstore⟩ := exists_reach_of_run hrun
  exact ⟨store, Prod.mk.inj hstore, (replay_agrees checksum hreach).2.1⟩

/--
**A failed append does no harm as long as the writer stops there.** If every append finds the
open file as long as the writer believes and goes by its number or rolls, recovery succeeds and
replay yields every acknowledged record at its position, whichever appends failed.
-/
theorem replay_after_faults {store : Store}
    (h : Reach (Store.step cs) (fun store action => store.sound cs action = true) Store.empty
      store) :
    (∃ report, (recover cs store.volume.files).2 = .ok report) ∧
      (replayAll cs store.volume.files).2 = .ok (store.acked.filter fun record =>
        hasFile store.volume.files record.position.segmentId) ∧
      store.acked.Pairwise fun r r' => r.position < r'.position := by
  have hheld : Held cs False store := by
    refine h.invariant (I := Held cs False) (.empty rfl rfl rfl rfl) ?_
    intro s action s' hs haction hstep
    exact hs.step cs haction (fun hf => hf.elim) hstep
  exact hheld.replay cs

namespace Sample

/--
A segment that could not be created, a write that failed after three bytes, and a restart before
the next append.
-/
def faultyLifetimes : List Action :=
  [.open 40 .everysec, append 1 {}, append 2 {}, append 3 { create := some "no space" },
    append 4 {}, append 5 { write := some (3, "no space") }, .crash, .open 40 .everysec,
    append 6 {}]

/-- A write that failed after one byte, and an append behind it. -/
def tornLifetime : List Action :=
  [.open 100 .everysec, append 1 {}, append 2 { write := some (1, "no space") }, append 3 {}]

end Sample

theorem replay_after_faults_and_restart :
    ∃ store : Store, store.acked.map WalRecord.position = [⟨1, 0⟩, ⟨1, 15⟩, ⟨3, 0⟩, ⟨3, 15⟩] ∧
      (replayAll checksum store.volume.files).2
        = .ok (store.acked.filter fun record =>
            hasFile store.volume.files record.position.segmentId) := by
  have hrun : (run (Store.step checksum) (Store.sound checksum) Store.empty
      faultyLifetimes).map (fun s => s.acked.map WalRecord.position)
      = some [⟨1, 0⟩, ⟨1, 15⟩, ⟨3, 0⟩, ⟨3, 15⟩] := by
    decide +kernel
  obtain ⟨store, hreach, hstore⟩ := exists_reach_of_run hrun
  exact ⟨store, hstore, (replay_after_faults checksum hreach).2.1⟩

/--
The record that `append` acknowledged at offset 15 lies behind the byte that the failed write
left there: recovery finds a bad magic and refuses the whole log.
-/
theorem append_behind_torn_record :
    ∃ store : Store, Reach (Store.step checksum) (fun _ _ => true = true) Store.empty store ∧
      store.acked.map WalRecord.position = [⟨1, 0⟩, ⟨1, 15⟩] ∧
      (recover checksum store.volume.files).2
        = .error (.corruption "WAL segment 1 has a corrupt record at offset 15: bad magic") := by
  have hrun : (run (Store.step checksum) (fun _ _ => true) Store.empty
      tornLifetime).map (fun s =>
        (s.acked.map WalRecord.position, (recover checksum s.volume.files).2))
      = some ([⟨1, 0⟩, ⟨1, 15⟩],
          .error (.corruption "WAL segment 1 has a corrupt record at offset 15: bad magic")) := by
    decide +kernel
  obtain ⟨store, hreach, hstore⟩ := exists_reach_of_run hrun
  exact ⟨store, hreach, Prod.mk.inj hstore⟩

end Calod.Storage.Disk
