import Calod.Lib.Bytes
import Calod.Lib.Crc32c
import Calod.Storage.Wal

/-!
# The bytes of a WAL record

`encode_record`, `parse_one` and `scan_segment` of `calod-storage/src/wal.rs`. A record is a
header of 13 bytes and the payload; the checksum in the header covers the nine bytes before it
and the payload. CRC32C comes from a library and is a parameter here.

* `parseOne_encodeRecord` — an encoded record is read back, whatever follows it
* `parseOne_torn` — what is left of a record that was cut short reads as truncated
* `scanSegment_encoded` — scanning encoded records and a torn tail gives the records, each at
  the offset that the record-level log computes
-/

namespace Calod.Storage.Disk

open Lib

variable {tail : List UInt8}

/-! ## Records -/

/-- The `crc32c` crate. -/
structure Checksum where
  crc32c : List UInt8 → UInt32
  crc32cAppend : UInt32 → List UInt8 → UInt32

inductive RecordType where
  | put
  | checkpoint
  deriving DecidableEq, Repr

def RecordType.toU8 : RecordType → UInt8
  | .put => 0
  | .checkpoint => 1

def RecordType.fromU8 (value : UInt8) : Option RecordType :=
  if value = 0 then some .put
  else if value = 1 then some .checkpoint
  else none

theorem RecordType.fromU8_toU8 (t : RecordType) : RecordType.fromU8 t.toU8 = some t := by
  cases t <;> rfl

def u32Max : Nat := 4294967295

/-- Type and payload of a record. `append` refuses a payload over the 4 GiB limit. -/
structure Entry where
  recordType : RecordType
  payload : List UInt8
  fits : payload.length ≤ u32Max
  deriving DecidableEq

/-- Payload length, which the record-level log computes offsets from. -/
def Entry.len (entry : Entry) : Nat := entry.payload.length

/-- `MAGIC`, the letters CW. -/
def magic : List UInt8 := [0x43, 0x57]

def formatVersion : Nat := 1

/-- The nine header bytes that the checksum covers. -/
def headerStart (entry : Entry) : List UInt8 :=
  magic ++ (toLeBytes 2 formatVersion
    ++ (entry.recordType.toU8 :: toLeBytes 4 entry.payload.length))

variable (cs : Checksum)

def Checksum.of (header payload : List UInt8) : UInt32 :=
  cs.crc32cAppend (cs.crc32c header) payload

def encodeRecord (entry : Entry) : List UInt8 :=
  headerStart entry
    ++ (toLeBytes 4 (cs.of (headerStart entry) entry.payload).toNat ++ entry.payload)

/-! ## Parsing -/

/-- Why a record at some offset could not be parsed. -/
inductive ScanError where
  | truncated (validLen : Nat)
  | corrupt (offset : Nat) (reason : String)
  deriving DecidableEq, Repr

structure ParsedRecord where
  entry : Entry
  nextOffset : Nat

theorem payload_fits (bytes rest : List UInt8) (start : Nat) :
    (field rest start (fromLeBytes (field bytes 5 4))).length ≤ u32Max := by
  have hlt := fromLeBytes_lt (field bytes 5 4)
  have hlen : (field bytes 5 4).length ≤ 4 := List.length_take_le _ _
  have hpow : 256 ^ (field bytes 5 4).length ≤ 256 ^ 4 := Nat.pow_le_pow_right (by decide) hlen
  have htake : (field rest start (fromLeBytes (field bytes 5 4))).length
      ≤ fromLeBytes (field bytes 5 4) := List.length_take_le _ _
  have hmax : 256 ^ 4 = u32Max + 1 := by decide
  omega

/--
`parse_one`: the record that starts at `offset`, fully validated. A declared length past the
end of the buffer is found before the checksum is looked at.
-/
def parseOne (buf : List UInt8) (offset : Nat) : Except ScanError ParsedRecord :=
  let remaining := buf.length - offset
  if remaining < headerLen then
    .error (.truncated offset)
  else
    let header := field buf offset headerLen
    if field header 0 2 ≠ magic then
      .error (.corrupt offset "bad magic")
    else
      let version := fromLeBytes (field header 2 2)
      if version ≠ formatVersion then
        .error (.corrupt offset s!"unsupported format version {version}")
      else
        let value := header.getD 4 0
        match RecordType.fromU8 value with
        | none => .error (.corrupt offset s!"unknown record type {value}")
        | some recordType =>
          let payloadLen := fromLeBytes (field header 5 4)
          let next := offset + headerLen + payloadLen
          if buf.length < next then
            .error (.truncated offset)
          else
            let payload := field buf (offset + headerLen) payloadLen
            let expectedCrc := fromLeBytes (field header 9 4)
            let actualCrc := cs.of (field header 0 9) payload
            if actualCrc.toNat ≠ expectedCrc then
              .error (.corrupt offset "CRC32C mismatch")
            else
              .ok { entry := { recordType, payload, fits := payload_fits header buf _ },
                    nextOffset := next }

/--
`scan_segment`: the records from `offset` on, up to the first that does not parse. Every record
takes at least one byte, so the bytes that remain bound the number of rounds.
-/
def scanFrom (segmentId : Nat) (buf : List UInt8) :
    Nat → Nat → List (WalRecord Entry) × Option ScanError
  | 0, _ => ([], none)
  | rounds + 1, offset =>
    if offset < buf.length then
      match parseOne cs buf offset with
      | .error err => ([], some err)
      | .ok parsed =>
        let (records, err) := scanFrom segmentId buf rounds parsed.nextOffset
        ({ position := { segmentId, offset }, payload := parsed.entry } :: records, err)
    else
      ([], none)

def scanSegment (segmentId : Nat) (buf : List UInt8) : List (WalRecord Entry) × Option ScanError :=
  scanFrom cs segmentId buf buf.length 0

/-! ## Reading an encoded record -/

theorem length_headerStart (entry : Entry) : (headerStart entry).length = 9 := by
  simp [headerStart, magic]

@[simp] theorem length_encodeRecord (entry : Entry) :
    (encodeRecord cs entry).length = recordLen Entry.len entry := by
  simp only [encodeRecord, List.length_append, length_headerStart, length_toLeBytes, recordLen,
    Entry.len, headerLen]
  omega

def ScanError.shift (n : Nat) : ScanError → ScanError
  | .truncated validLen => .truncated (n + validLen)
  | .corrupt offset reason => .corrupt (n + offset) reason

/-- Parsing looks at nothing before its offset. -/
theorem parseOne_append (start tail : List UInt8) :
    parseOne cs (start ++ tail) start.length =
      match parseOne cs tail 0 with
      | .error err => .error (err.shift start.length)
      | .ok parsed => .ok { parsed with nextOffset := start.length + parsed.nextOffset } := by
  have hremaining : (start ++ tail).length - start.length = tail.length := by simp
  have hheader : field (start ++ tail) start.length headerLen = field tail 0 headerLen :=
    field_append_right start tail 0 headerLen
  simp only [parseOne, hremaining, hheader, Nat.sub_zero, Nat.zero_add]
  by_cases hshort : tail.length < headerLen
  · rw [if_pos hshort, if_pos hshort]
    rfl
  rw [if_neg hshort, if_neg hshort]
  by_cases hmagic : field (field tail 0 headerLen) 0 2 ≠ magic
  · rw [if_pos hmagic, if_pos hmagic]
    rfl
  rw [if_neg hmagic, if_neg hmagic]
  by_cases hversion : fromLeBytes (field (field tail 0 headerLen) 2 2) ≠ formatVersion
  · rw [if_pos hversion, if_pos hversion]
    rfl
  rw [if_neg hversion, if_neg hversion]
  cases RecordType.fromU8 ((field tail 0 headerLen).getD 4 0) with
  | none => rfl
  | some recordType =>
    have hend : (start ++ tail).length
          < start.length + headerLen + fromLeBytes (field (field tail 0 headerLen) 5 4) ↔
        tail.length < headerLen + fromLeBytes (field (field tail 0 headerLen) 5 4) := by
      rw [List.length_append]
      omega
    simp only [hend, field_append_right]
    by_cases hpast : tail.length < headerLen + fromLeBytes (field (field tail 0 headerLen) 5 4)
    · rw [if_pos hpast, if_pos hpast]
      rfl
    rw [if_neg hpast, if_neg hpast]
    split
    · rfl
    · simp [Nat.add_assoc]

/-- The length field holds the payload length: it fits in four bytes. -/
theorem fromLeBytes_payloadLen (entry : Entry) :
    fromLeBytes (toLeBytes 4 entry.payload.length) = entry.len := by
  have hfits := entry.fits
  rw [fromLeBytes_toLeBytes, Nat.mod_eq_of_lt]
  · rfl
  · exact Nat.lt_of_le_of_lt hfits (by decide)

theorem fromLeBytes_crc (crc : UInt32) : fromLeBytes (toLeBytes 4 crc.toNat) = crc.toNat := by
  rw [fromLeBytes_toLeBytes]
  exact Nat.mod_eq_of_lt crc.toNat_lt

/-- With the header of a record intact, the parser gets as far as the declared length. -/
theorem parseOne_of_header (entry : Entry) (hlen : headerLen ≤ tail.length)
    (hheader : field tail 0 headerLen = field (encodeRecord cs entry) 0 headerLen) :
    parseOne cs tail 0 =
      if tail.length < headerLen + entry.len then
        .error (.truncated 0)
      else if (cs.of (headerStart entry) (field tail headerLen entry.len)).toNat
          ≠ (cs.of (headerStart entry) entry.payload).toNat then
        .error (.corrupt 0 "CRC32C mismatch")
      else
        .ok { entry := { recordType := entry.recordType
                         payload := field tail headerLen entry.len
                         fits := Nat.le_trans (List.length_take_le _ _) entry.fits }
              nextOffset := headerLen + entry.len } := by
  have hmagic : field (field (encodeRecord cs entry) 0 headerLen) 0 2 = magic := rfl
  have hversion : field (field (encodeRecord cs entry) 0 headerLen) 2 2
      = toLeBytes 2 formatVersion := rfl
  have htype : (field (encodeRecord cs entry) 0 headerLen).getD 4 0 = entry.recordType.toU8 := rfl
  have hdeclared : field (field (encodeRecord cs entry) 0 headerLen) 5 4
      = toLeBytes 4 entry.payload.length := rfl
  have hcrc : field (field (encodeRecord cs entry) 0 headerLen) 9 4
      = toLeBytes 4 (cs.of (headerStart entry) entry.payload).toNat := rfl
  have hstart : field (field (encodeRecord cs entry) 0 headerLen) 0 9 = headerStart entry := rfl
  simp only [parseOne, Nat.sub_zero, Nat.zero_add, hheader]
  rw [if_neg (Nat.not_lt.mpr hlen), hmagic, if_neg (by simp), hversion, if_neg (by decide), htype,
    RecordType.fromU8_toU8]
  simp only [hdeclared, hcrc, hstart, fromLeBytes_payloadLen, fromLeBytes_crc]

theorem field_payload (entry : Entry) (rest : List UInt8) :
    field (encodeRecord cs entry ++ rest) headerLen entry.len = entry.payload := by
  have hlen : (encodeRecord cs entry).length = headerLen + entry.len := length_encodeRecord cs entry
  rw [field_append (by omega)]
  show entry.payload.take entry.payload.length = entry.payload
  exact List.take_length

/-- **An encoded record is read back**, whatever precedes and follows it. -/
theorem parseOne_encodeRecord (entry : Entry) (start rest : List UInt8) :
    parseOne cs (start ++ (encodeRecord cs entry ++ rest)) start.length
      = .ok { entry, nextOffset := start.length + recordLen Entry.len entry } := by
  have hlen : (encodeRecord cs entry).length = headerLen + entry.len := length_encodeRecord cs entry
  rw [parseOne_append, parseOne_of_header cs entry
    (by rw [List.length_append]; omega) (field_append (by omega))]
  simp only [field_payload]
  rw [if_neg (by rw [List.length_append]; omega), if_neg (by simp)]
  rfl

/-- **A record cut short reads as truncated**, in the header or in the payload. -/
theorem parseOne_torn (entry : Entry) (start : List UInt8) {k : Nat}
    (hk : k < recordLen Entry.len entry) :
    parseOne cs (start ++ (encodeRecord cs entry).take k) start.length
      = .error (.truncated start.length) := by
  have hlen : ((encodeRecord cs entry).take k).length = k := by
    rw [List.length_take, length_encodeRecord]
    omega
  rw [parseOne_append]
  by_cases hshort : k < headerLen
  · have hparse : parseOne cs ((encodeRecord cs entry).take k) 0 = .error (.truncated 0) := by
      simp only [parseOne, Nat.sub_zero, hlen]
      rw [if_pos hshort]
    rw [hparse]
    rfl
  · rw [parseOne_of_header cs entry (by omega) (field_take (by omega))]
    rw [if_pos (by rw [hlen]; exact hk)]
    rfl

/-! ## Scanning encoded records -/

/-- The bytes of a segment file that holds `entries`. -/
def encodeAll (entries : List Entry) : List UInt8 := entries.flatMap (encodeRecord cs)

theorem encodeAll_cons (entry : Entry) (entries : List Entry) :
    encodeAll cs (entry :: entries) = encodeRecord cs entry ++ encodeAll cs entries :=
  List.flatMap_cons

theorem encodeAll_append (entries entries' : List Entry) :
    encodeAll cs (entries ++ entries') = encodeAll cs entries ++ encodeAll cs entries' :=
  List.flatMap_append

theorem encodeAll_singleton (entry : Entry) : encodeAll cs [entry] = encodeRecord cs entry :=
  List.flatMap_singleton _ _

theorem length_encodeAll (entries : List Entry) :
    (encodeAll cs entries).length = (entries.map (recordLen Entry.len)).sum := by
  rw [encodeAll, List.length_flatMap]
  simp only [length_encodeRecord]

/-- What a write that was cut short leaves: nothing, or a proper part of a record. -/
def Torn (tail : List UInt8) : Prop :=
  ∃ entry k, k < recordLen Entry.len entry ∧ tail = (encodeRecord cs entry).take k

theorem torn_nil : Torn cs [] :=
  ⟨{ recordType := .put, payload := [], fits := Nat.zero_le _ }, 0, Nat.succ_pos _, rfl⟩

/-- How a scan ends that finds `tail` behind the last record, at `offset`. -/
def tailError (offset : Nat) (tail : List UInt8) : Option ScanError :=
  if tail = [] then none else some (.truncated offset)

/-- A scan stops at the first record that does not parse. -/
theorem scanFrom_error (segmentId : Nat) {err : ScanError} (hne : tail ≠ [])
    (herr : parseOne cs tail 0 = .error err) (start : List UInt8) (rounds : Nat)
    (hrounds : tail.length ≤ rounds) :
    scanFrom cs segmentId (start ++ tail) rounds start.length
      = ([], some (err.shift start.length)) := by
  have hpos : 0 < tail.length := List.length_pos_of_ne_nil hne
  obtain ⟨rounds, rfl⟩ : ∃ n, rounds = n + 1 := ⟨rounds - 1, by omega⟩
  rw [scanFrom, List.length_append, if_pos (by omega), parseOne_append, herr]

theorem scanFrom_torn (segmentId : Nat) (htail : Torn cs tail) (start : List UInt8) (rounds : Nat)
    (hrounds : tail.length ≤ rounds) :
    scanFrom cs segmentId (start ++ tail) rounds start.length
      = ([], tailError start.length tail) := by
  unfold tailError
  by_cases hnil : tail = []
  · rw [if_pos hnil, hnil, List.append_nil]
    cases rounds with
    | zero => rfl
    | succ rounds => rw [scanFrom, if_neg (Nat.lt_irrefl _)]
  · rw [if_neg hnil]
    obtain ⟨entry, k, hk, rfl⟩ := htail
    have hparse := parseOne_torn cs entry [] hk
    exact scanFrom_error cs segmentId hnil hparse start rounds hrounds

/--
Scanning goes record by record and ends as it ends on what follows the records. The induction
moves each record from the rest of the buffer to its start.
-/
theorem scanFrom_encoded (segmentId : Nat) {tail : List UInt8} (ends : Nat → Option ScanError)
    (htail : ∀ start rounds, tail.length ≤ rounds →
      scanFrom cs segmentId (start ++ tail) rounds start.length = ([], ends start.length))
    (entries : List Entry) : ∀ start rounds,
    (encodeAll cs entries ++ tail).length ≤ rounds →
      scanFrom cs segmentId (start ++ (encodeAll cs entries ++ tail)) rounds start.length
        = (Storage.scanSegment Entry.len segmentId start.length entries,
            ends (start.length + (encodeAll cs entries).length)) := by
  induction entries with
  | nil =>
    intro start rounds hrounds
    exact htail start rounds hrounds
  | cons entry entries ih =>
    intro start rounds hrounds
    have hentry : (encodeRecord cs entry).length = recordLen Entry.len entry :=
      length_encodeRecord cs entry
    have hpos : 0 < recordLen Entry.len entry := by unfold recordLen headerLen; omega
    simp only [encodeAll_cons, List.append_assoc, List.length_append] at hrounds ih ⊢
    obtain ⟨rounds, rfl⟩ : ∃ n, rounds = n + 1 := ⟨rounds - 1, by omega⟩
    have hnext := ih (start ++ encodeRecord cs entry) rounds (by omega)
    rw [List.length_append, hentry, List.append_assoc] at hnext
    rw [scanFrom, if_pos (by simp only [List.length_append]; omega),
      parseOne_encodeRecord cs entry start, Storage.scanSegment]
    simp only [hnext, hentry, Nat.add_assoc]

theorem scanSegment_append (segmentId : Nat) {tail : List UInt8} (ends : Nat → Option ScanError)
    (htail : ∀ start rounds, tail.length ≤ rounds →
      scanFrom cs segmentId (start ++ tail) rounds start.length = ([], ends start.length))
    (entries : List Entry) :
    scanSegment cs segmentId (encodeAll cs entries ++ tail)
      = (Storage.scanSegment Entry.len segmentId 0 entries,
          ends (encodeAll cs entries).length) := by
  have h := scanFrom_encoded cs segmentId ends htail entries [] _ (Nat.le_refl _)
  rw [List.nil_append, List.length_nil, Nat.zero_add] at h
  exact h

/-- **Scanning a segment**: the records, and a truncation where a torn tail begins. -/
theorem scanSegment_encoded (segmentId : Nat) (entries : List Entry) (htail : Torn cs tail) :
    scanSegment cs segmentId (encodeAll cs entries ++ tail)
      = (Storage.scanSegment Entry.len segmentId 0 entries,
          tailError (encodeAll cs entries).length tail) :=
  scanSegment_append cs segmentId (fun offset => tailError offset tail)
    (scanFrom_torn cs segmentId htail) entries

theorem scanSegment_intact (segmentId : Nat) (entries : List Entry) :
    scanSegment cs segmentId (encodeAll cs entries)
      = (Storage.scanSegment Entry.len segmentId 0 entries, none) := by
  have h := scanSegment_encoded cs segmentId entries (torn_nil cs)
  rwa [List.append_nil] at h

/-! ## A checksum and records to run the model with -/

namespace Sample

/-- CRC32C itself. -/
def checksum : Checksum :=
  { crc32c := Lib.Crc32c.crc32c, crc32cAppend := Lib.Crc32c.crc32cAppend }

def entry (byte : UInt8) : Entry :=
  { recordType := .put, payload := [byte, byte], fits := by show 2 ≤ u32Max; decide }

end Sample

end Calod.Storage.Disk
