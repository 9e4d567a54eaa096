import Calod.Storage.Format

/-!
# Recovery and replay of a WAL directory

`recover` and `Replay` of `calod-storage/src/wal.rs`. A directory is the list of its segment
files in id order, as `list_segments` returns them.

* `recover_encoded` — on a directory of encoded records with a torn tail behind the last one,
  recovery cuts the tail and reports what the record-level log holds
* `replayAll_encoded` — and replay then yields exactly those records
-/

namespace Calod.Storage.Disk

open Lib Calod.Core

variable {record : WalRecord Entry} {tail : List UInt8}

/-! ## Recovery -/

/-- A segment file: the number in its name and its contents. -/
structure File where
  id : Nat
  data : List UInt8
  deriving DecidableEq

/-- Metadata about one segment file discovered during recovery. -/
structure SegmentInfo where
  id : Nat
  validLen : Nat
  deriving DecidableEq, Repr

/-- A crash-tail truncation applied during recovery. -/
structure TailTruncation where
  segmentId : Nat
  originalLen : Nat
  validLen : Nat
  deriving DecidableEq, Repr

structure RecoveryReport where
  segments : List SegmentInfo
  truncated : Option TailTruncation
  lastPosition : Option WalPosition
  deriving DecidableEq, Repr

def RecoveryReport.default : RecoveryReport :=
  { segments := [], truncated := none, lastPosition := none }

/-- What the loop of `recover` adds to the report for a segment that it accepts. -/
def RecoveryReport.push (report : RecoveryReport) (segmentId validLen : Nat)
    (records : List (WalRecord Entry)) : RecoveryReport :=
  { report with
    segments := report.segments ++ [{ id := segmentId, validLen }]
    lastPosition := (records.getLast?.map WalRecord.position).or report.lastPosition }

variable (cs : Checksum)

/--
The loop of `recover` over the files that are left. The first component is the directory
afterwards: only a truncation changes it.
-/
def recoverFrom : List File → RecoveryReport → List File × Except PersistenceError RecoveryReport
  | [], report => ([], .ok report)
  | file :: rest, report =>
    let segmentId := file.id
    let originalLen := file.data.length
    let isFinal := rest.isEmpty
    match scanSegment cs segmentId file.data with
    | (records, none) =>
      let (rest, result) := recoverFrom rest (report.push segmentId originalLen records)
      (file :: rest, result)
    | (records, some (.truncated validLen)) =>
      if isFinal then
        let report := { report with
          truncated := some { segmentId, originalLen, validLen } }
        let (rest, result) := recoverFrom rest (report.push segmentId validLen records)
        ({ file with data := file.data.take validLen } :: rest, result)
      else
        (file :: rest, .error (.corruption
          (s!"WAL segment {segmentId} ends in a truncated record at offset {validLen} "
            ++ "but is not the final segment")))
    | (_, some (.corrupt offset reason)) =>
      (file :: rest, .error (.corruption
        s!"WAL segment {segmentId} has a corrupt record at offset {offset}: {reason}"))

def recover (files : List File) : List File × Except PersistenceError RecoveryReport :=
  recoverFrom cs files RecoveryReport.default

/-! ## Replay -/

/-- `Replay::next`, called until it is finished: the items of the iterator. -/
def replayItems : List File → List (Except PersistenceError (WalRecord Entry))
  | [] => []
  | file :: rest =>
    let currentSegment := file.id
    match scanSegment cs currentSegment file.data with
    | (records, none) => records.map .ok ++ replayItems rest
    | (records, some (.truncated validLen)) =>
      records.map .ok ++ [.error (.corruption
        (s!"WAL segment {currentSegment} has a truncated record at offset {validLen} "
          ++ "after recovery"))]
    | (records, some (.corrupt offset reason)) =>
      records.map .ok ++ [.error (.corruption
        s!"WAL segment {currentSegment} has a corrupt record at offset {offset}: {reason}")]

/-- `collect` into a `Result`: everything, or the first error. -/
def collect {ε α : Type} : List (Except ε α) → Except ε (List α)
  | [] => .ok []
  | .error err :: _ => .error err
  | .ok a :: rest => (collect rest).map (a :: ·)

/-- `replay_all`: recovery first, then the records; the directory afterwards comes along. -/
def replayAll (files : List File) : List File × Except PersistenceError (List (WalRecord Entry)) :=
  match recover cs files with
  | (files, .error err) => (files, .error err)
  | (files, .ok _) => (files, collect (replayItems cs files))

/-! ## Directories of encoded records -/

/-- The byte just past a record. -/
def endOffset (record : WalRecord Entry) : Nat :=
  record.position.offset + recordLen Entry.len record.payload

theorem endOffset_of_mem {segmentId : Nat} (l : List Entry) :
    ∀ offset, record ∈ Storage.scanSegment Entry.len segmentId offset l →
      offset + headerLen ≤ endOffset record ∧
        endOffset record ≤ offset + (l.map (recordLen Entry.len)).sum := by
  induction l with
  | nil => intro offset h; cases h
  | cons entry l ih =>
    intro offset h
    rw [List.map_cons, List.sum_cons]
    rcases List.mem_cons.mp h with rfl | h
    · simp only [endOffset, recordLen]
      omega
    · have hrest := ih _ h
      omega

/-- A record of a segment stands in the bytes of the file where its position says. -/
theorem field_encodeAll {segmentId : Nat} (entries : List Entry) :
    ∀ start, record ∈ Storage.scanSegment Entry.len segmentId start.length entries →
      field (start ++ encodeAll cs entries) record.position.offset
        (recordLen Entry.len record.payload) = encodeRecord cs record.payload := by
  induction entries with
  | nil => intro start h; cases h
  | cons entry entries ih =>
    intro start h
    have hlen : (encodeRecord cs entry).length = recordLen Entry.len entry :=
      length_encodeRecord cs entry
    rw [encodeAll_cons]
    rcases List.mem_cons.mp h with rfl | h
    · calc field (start ++ (encodeRecord cs entry ++ encodeAll cs entries)) start.length
            (recordLen Entry.len entry)
          = field (encodeRecord cs entry ++ encodeAll cs entries) 0 (recordLen Entry.len entry) :=
            field_append_right start _ 0 _
        _ = field (encodeRecord cs entry) 0 (recordLen Entry.len entry) := field_append (by omega)
        _ = encodeRecord cs entry := by rw [← hlen]; exact List.take_length
    · rw [← hlen, ← List.length_append] at h
      rw [← List.append_assoc]
      exact ih _ h

/-- The file that holds the records of a segment. -/
def fileOf (segment : Segment Entry) : File :=
  { id := segment.id, data := encodeAll cs segment.payloads }

def infoOf (segment : Segment Entry) : SegmentInfo :=
  { id := segment.id, validLen := segment.len Entry.len }

theorem length_fileOf (segment : Segment Entry) :
    (fileOf cs segment).data.length = segment.len Entry.len := length_encodeAll cs segment.payloads

theorem scanSegment_fileOf (segment : Segment Entry) :
    scanSegment cs (fileOf cs segment).id (fileOf cs segment).data
      = (segment.records Entry.len, none) := scanSegment_intact cs segment.id segment.payloads

/-- The report on a directory that holds `segments`. -/
def reportOf (report : RecoveryReport) (segments : List (Segment Entry)) : RecoveryReport :=
  { report with
    segments := report.segments ++ segments.map infoOf
    lastPosition :=
      ((Storage.replayAll Entry.len segments).getLast?.map WalRecord.position).or
        report.lastPosition }

theorem reportOf_cons (report : RecoveryReport) (segment : Segment Entry)
    (segments : List (Segment Entry)) :
    reportOf (report.push segment.id (segment.len Entry.len) (segment.records Entry.len)) segments
      = reportOf report (segment :: segments) := by
  have hreplay : Storage.replayAll Entry.len (segment :: segments)
      = segment.records Entry.len ++ Storage.replayAll Entry.len segments := List.flatMap_cons
  simp only [reportOf, RecoveryReport.push, hreplay, List.getLast?_append, List.map_cons,
    List.append_assoc, List.singleton_append, infoOf, Option.map_or, Option.or_assoc]

/-- Intact segments are passed over, whatever comes after them. -/
theorem recoverFrom_append (rest : List File) (segments : List (Segment Entry)) :
    ∀ report,
      recoverFrom cs (segments.map (fileOf cs) ++ rest) report
        = (segments.map (fileOf cs) ++ (recoverFrom cs rest (reportOf report segments)).1,
            (recoverFrom cs rest (reportOf report segments)).2) := by
  induction segments with
  | nil =>
    intro report
    simp [reportOf, Storage.replayAll]
  | cons segment segments ih =>
    intro report
    rw [List.map_cons, List.cons_append, recoverFrom, scanSegment_fileOf]
    simp only [ih, length_fileOf]
    rw [show (fileOf cs segment).id = segment.id from rfl, reportOf_cons]
    rfl

/-- The truncation that recovery reports for `tail` behind the records of `segment`. -/
def truncationOf (segment : Segment Entry) (tail : List UInt8) : Option TailTruncation :=
  if tail = [] then none
  else some { segmentId := segment.id
              originalLen := segment.len Entry.len + tail.length
              validLen := segment.len Entry.len }

/-- A directory of encoded records with `tail` behind the last one. -/
def imageOf (closed : List (Segment Entry)) (active : Segment Entry) (tail : List UInt8) :
    List File :=
  closed.map (fileOf cs) ++ [{ id := active.id, data := encodeAll cs active.payloads ++ tail }]

theorem imageOf_nil (closed : List (Segment Entry)) (active : Segment Entry) :
    imageOf cs closed active [] = (closed ++ [active]).map (fileOf cs) := by
  rw [imageOf, List.map_append, List.append_nil]
  rfl

/-- The last file: its records stay, and a torn tail goes. -/
theorem recoverFrom_last (active : Segment Entry) (htail : Torn cs tail) {report : RecoveryReport}
    (hreport : report.truncated = none) :
    recoverFrom cs [{ id := active.id, data := encodeAll cs active.payloads ++ tail }] report
      = ([fileOf cs active],
          .ok { reportOf report [active] with truncated := truncationOf active tail }) := by
  have hlen : (encodeAll cs active.payloads).length = active.len Entry.len :=
    length_encodeAll cs active.payloads
  have htake : (encodeAll cs active.payloads ++ tail).take (active.len Entry.len)
      = encodeAll cs active.payloads := by rw [← hlen, List.take_left]
  have hrecords : Storage.scanSegment Entry.len active.id 0 active.payloads
      = active.records Entry.len := rfl
  have hreplay : Storage.replayAll Entry.len [active] = active.records Entry.len :=
    List.flatMap_singleton _ _
  simp only [recoverFrom, scanSegment_encoded cs active.id active.payloads htail, tailError,
    truncationOf, hrecords, reportOf, hreplay, hlen]
  by_cases hnil : tail = []
  · rw [if_pos hnil, if_pos hnil, hnil, List.append_nil, hlen]
    simp only [RecoveryReport.push, hreport, List.map_cons, List.map_nil]
    rfl
  · rw [if_neg hnil, if_neg hnil]
    simp only [List.isEmpty_nil, if_true, RecoveryReport.push, List.map_cons, List.map_nil,
      List.length_append, hlen, htake]
    rfl

/-- **Recovery cuts a torn tail and nothing else.** -/
theorem recover_encoded (closed : List (Segment Entry)) (active : Segment Entry)
    (htail : Torn cs tail) :
    recover cs (imageOf cs closed active tail)
      = ((closed ++ [active]).map (fileOf cs),
          .ok { reportOf .default (closed ++ [active]) with
                truncated := truncationOf active tail }) := by
  have hreport : reportOf (reportOf .default closed) [active]
      = reportOf .default (closed ++ [active]) := by
    simp only [reportOf, Storage.replayAll, List.flatMap_append, List.getLast?_append,
      List.map_append, List.append_assoc, Option.map_or, Option.or_assoc]
  rw [recover, imageOf, recoverFrom_append, recoverFrom_last cs active htail rfl, hreport,
    List.map_append]
  rfl

theorem recover_intact (segments : List (Segment Entry)) :
    recover cs (segments.map (fileOf cs))
      = (segments.map (fileOf cs), .ok (reportOf .default segments)) := by
  have h := recoverFrom_append cs [] segments .default
  rw [List.append_nil] at h
  rw [recover, h, recoverFrom, List.append_nil]

theorem collect_append_ok {ε α : Type} (l : List α) (items : List (Except ε α)) :
    collect (l.map .ok ++ items) = (collect items).map (l ++ ·) := by
  induction l with
  | nil =>
    rw [List.map_nil, List.nil_append]
    cases collect items <;> rfl
  | cons a l ih =>
    rw [List.map_cons, List.cons_append, collect, ih]
    cases collect items <;> rfl

theorem collect_replayItems (segments : List (Segment Entry)) :
    collect (replayItems cs (segments.map (fileOf cs)))
      = .ok (Storage.replayAll Entry.len segments) := by
  induction segments with
  | nil => rfl
  | cons segment segments ih =>
    rw [List.map_cons, replayItems, scanSegment_fileOf]
    simp only [collect_append_ok, ih]
    rfl

/-- **Replay yields the records of the log**, after recovery has cut a torn tail. -/
theorem replayAll_encoded (closed : List (Segment Entry)) (active : Segment Entry)
    (htail : Torn cs tail) :
    replayAll cs (imageOf cs closed active tail)
      = ((closed ++ [active]).map (fileOf cs),
          .ok (Storage.replayAll Entry.len (closed ++ [active]))) := by
  simp only [replayAll, recover_encoded cs closed active htail, collect_replayItems]

theorem replayAll_intact (segments : List (Segment Entry)) :
    replayAll cs (segments.map (fileOf cs))
      = (segments.map (fileOf cs), .ok (Storage.replayAll Entry.len segments)) := by
  simp only [replayAll, recover_intact, collect_replayItems]

end Calod.Storage.Disk
