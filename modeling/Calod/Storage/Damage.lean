import Calod.Storage.Recovery

/-!
# Crash tails and damaged bytes

What `recover` makes of a directory whose last segment file was cut at some byte, or in which
one byte changed.

* `cut_recovered` — a file cut at byte `k` keeps exactly the records that end by `k`
* `damage_reported_iff` — a changed byte is reported as corruption, except in a length field
  that then runs past the end of the file
-/

namespace Calod.Storage.Disk

open Lib Calod.Core Disk.Sample

/-! ## Cutting the last file -/

/-- Where the last of some records ends. -/
def endOf (records : List (WalRecord Entry)) : Nat := (records.getLast?.map endOffset).getD 0

/-- The records of a segment that lie wholly within its first `k` bytes. -/
def recordsWithin (segment : Segment Entry) (k : Nat) : List (WalRecord Entry) :=
  (segment.records Entry.len).filter fun record => endOffset record ≤ k

/-- A byte length at which no record is cut. -/
def Boundary (segment : Segment Entry) (k : Nat) : Prop :=
  k = 0 ∨ ∃ record ∈ segment.records Entry.len, endOffset record = k

theorem endOf_scanSegment (segmentId : Nat) (l : List Entry) :
    endOf (Storage.scanSegment Entry.len segmentId 0 l) = (l.map (recordLen Entry.len)).sum := by
  rcases List.eq_nil_or_concat l with rfl | ⟨l, entry, rfl⟩
  · rfl
  · rw [List.concat_eq_append, Storage.scanSegment_append, endOf, List.getLast?_concat]
    simp [endOffset]

variable (cs : Checksum)

/-- The first `k` bytes of encoded records: those that end by then, and a torn one. -/
theorem take_encodeAll (segmentId : Nat) (entries : List Entry) : ∀ offset k,
    ∃ kept tail, (encodeAll cs entries).take k = encodeAll cs kept ++ tail ∧ Torn cs tail ∧
      (Storage.scanSegment Entry.len segmentId offset entries).filter
          (fun record => endOffset record ≤ offset + k)
        = Storage.scanSegment Entry.len segmentId offset kept := by
  induction entries with
  | nil =>
    intro offset k
    exact ⟨[], [], by simp [encodeAll], torn_nil cs, rfl⟩
  | cons entry entries ih =>
    intro offset k
    have hlen : (encodeRecord cs entry).length = recordLen Entry.len entry :=
      length_encodeRecord cs entry
    rw [encodeAll_cons, Storage.scanSegment]
    by_cases hk : recordLen Entry.len entry ≤ k
    · -- the record is whole: go on behind it
      obtain ⟨kept, tail, htake, htail, hfilter⟩ :=
        ih (offset + recordLen Entry.len entry) (k - recordLen Entry.len entry)
      refine ⟨entry :: kept, tail, ?_, htail, ?_⟩
      · rw [List.take_append, List.take_of_length_le (by omega), hlen, htake, encodeAll_cons,
          List.append_assoc]
      · rw [Nat.add_assoc, Nat.add_sub_cancel' hk] at hfilter
        rw [List.filter_cons_of_pos (by simp [endOffset, hk]), hfilter, Storage.scanSegment]
    · -- the record is torn, and none of those behind it is left
      refine ⟨[], (encodeRecord cs entry).take k, ?_, ⟨entry, k, by omega, rfl⟩, ?_⟩
      · rw [List.take_append_of_le_length (by omega)]
        rfl
      · refine List.filter_eq_nil_iff.mpr fun record hrecord => ?_
        rcases List.mem_cons.mp hrecord with rfl | hrecord
        · simp [endOffset, hk]
        · have hend := (endOffset_of_mem _ _ hrecord).1
          simp only [decide_eq_true_eq]
          omega

/-- The directory with its last file cut after `k` bytes. -/
def cutAt (closed : List (Segment Entry)) (last : Segment Entry) (k : Nat) : List File :=
  closed.map (fileOf cs) ++ [{ id := last.id, data := (fileOf cs last).data.take k }]

/-- A cut file as encoded records with a torn tail. -/
theorem cutAt_eq (closed : List (Segment Entry)) (last : Segment Entry) {k : Nat}
    (hk : k ≤ last.len Entry.len) :
    ∃ kept tail, Torn cs tail ∧ kept.id = last.id ∧
      cutAt cs closed last k = imageOf cs closed kept tail ∧
      cutAt cs closed last (kept.len Entry.len) = (closed ++ [kept]).map (fileOf cs) ∧
      kept.len Entry.len + tail.length = k ∧
      recordsWithin last k = kept.records Entry.len := by
  obtain ⟨kept, tail, htake, htail, hfilter⟩ := take_encodeAll cs last.id last.payloads 0 k
  have hkept : (encodeAll cs kept).length = (kept.map (recordLen Entry.len)).sum :=
    length_encodeAll cs kept
  have hlen : (encodeAll cs kept).length + tail.length = k := by
    have h := congrArg List.length htake
    rw [List.length_take, List.length_append] at h
    have hlast := length_fileOf cs last
    simp only [fileOf] at hlast
    omega
  have hcut : (encodeAll cs last.payloads).take (encodeAll cs kept).length = encodeAll cs kept := by
    have h := congrArg (List.take (encodeAll cs kept).length) htake
    rwa [List.take_take, Nat.min_eq_left (by omega), List.take_left] at h
  refine ⟨{ id := last.id, payloads := kept }, tail, htail, rfl, ?_, ?_, ?_, ?_⟩
  · simp only [cutAt, imageOf, fileOf, htake]
  · simp only [cutAt, fileOf, Segment.len, ← hkept, hcut, List.map_append, List.map_cons,
      List.map_nil]
  · rw [Segment.len, ← hkept, hlen]
  · rw [Nat.zero_add] at hfilter
    exact hfilter

/-- The cut is at a boundary exactly when it tears no record. -/
theorem boundary_iff {last kept : Segment Entry} {tail : List UInt8} {k : Nat}
    (hlen : kept.len Entry.len + tail.length = k)
    (hwithin : recordsWithin last k = kept.records Entry.len) :
    Boundary last k ↔ tail = [] := by
  have hmem : ∀ record, record ∈ kept.records Entry.len ↔
      record ∈ last.records Entry.len ∧ endOffset record ≤ k := by
    intro record
    rw [← hwithin, recordsWithin, List.mem_filter, decide_eq_true_eq]
  constructor
  · rintro (rfl | ⟨record, hrecord, hend⟩)
    · exact List.length_eq_zero_iff.mp (by omega)
    · -- the record that ends at the cut is kept, so nothing lies behind the kept ones
      have hle := (endOffset_of_mem _ _ ((hmem record).mpr ⟨hrecord, hend.le⟩)).2
      rw [Nat.zero_add, hend] at hle
      have hkept : kept.len Entry.len = (kept.payloads.map (recordLen Entry.len)).sum := rfl
      exact List.length_eq_zero_iff.mp (by omega)
  · rintro rfl
    rw [List.length_nil, Nat.add_zero] at hlen
    have hend : endOf (kept.records Entry.len) = k := by
      rw [← hlen]
      exact endOf_scanSegment kept.id kept.payloads
    rw [endOf] at hend
    cases hlast : (kept.records Entry.len).getLast? with
    | none =>
      rw [hlast] at hend
      exact Or.inl hend.symm
    | some record =>
      rw [hlast] at hend
      exact Or.inr ⟨record, ((hmem record).mp (List.mem_of_getLast? hlast)).1, hend⟩

/--
**Crash tails are cut exactly.** Whatever byte the last file is cut at, recovery leaves the
records that end by then, says so unless the cut was between two records, has nothing left to do
the second time, and replay yields those records.
-/
theorem cut_recovered (closed : List (Segment Entry)) (last : Segment Entry) (k : Nat)
    (hk : k ≤ last.len Entry.len) :
    ∃ report,
      recover cs (cutAt cs closed last k)
          = (cutAt cs closed last (endOf (recordsWithin last k)), .ok report) ∧
        (report.truncated = none ↔ Boundary last k) ∧
        (∀ truncation, report.truncated = some truncation →
          truncation = { segmentId := last.id
                         originalLen := k
                         validLen := endOf (recordsWithin last k) }) ∧
        recover cs (cutAt cs closed last (endOf (recordsWithin last k)))
          = (cutAt cs closed last (endOf (recordsWithin last k)),
              .ok { report with truncated := none }) ∧
        replayAll cs (cutAt cs closed last (endOf (recordsWithin last k)))
          = (cutAt cs closed last (endOf (recordsWithin last k)),
              .ok (Storage.replayAll Entry.len closed ++ recordsWithin last k)) := by
  obtain ⟨kept, tail, htail, hid, hcut, hrest, hlen, hwithin⟩ := cutAt_eq cs closed last hk
  have hend : endOf (kept.records Entry.len) = kept.len Entry.len :=
    endOf_scanSegment kept.id kept.payloads
  have hreplay : Storage.replayAll Entry.len (closed ++ [kept])
      = Storage.replayAll Entry.len closed ++ kept.records Entry.len := by
    rw [Storage.replayAll, List.flatMap_append, List.flatMap_singleton]
    rfl
  rw [boundary_iff hlen hwithin, hwithin, hend, hcut, hrest, recover_encoded cs closed kept htail,
    recover_intact, replayAll_intact, hreplay]
  refine ⟨_, rfl, ?_, ?_, rfl, rfl⟩
  · simp only [truncationOf]
    split <;> simp_all
  · intro truncation htruncation
    simp only [truncationOf] at htruncation
    split at htruncation
    · cases htruncation
    · rw [← Option.some.inj htruncation, hid, hlen]

/-! ### A record cut in its payload -/

namespace Sample

/-- Two records of 15 bytes each. -/
def segment : Segment Entry := { id := 1, payloads := [entry 7, entry 8] }

end Sample

/-- A cut in the payload of the second record: the first is kept. -/
theorem cut_recovered_second_record :
    29 ≤ Sample.segment.len Entry.len ∧
      ∃ report,
        recover checksum (cutAt checksum [] Sample.segment 29)
            = (cutAt checksum [] Sample.segment 15, .ok report) ∧
          report.truncated = some { segmentId := 1, originalLen := 29, validLen := 15 } := by
  have hend : endOf (recordsWithin Sample.segment 29) = 15 := by decide
  obtain ⟨report, hrecover, hnone, htruncation, -⟩ :=
    cut_recovered checksum [] Sample.segment 29 (by decide)
  rw [hend] at hrecover htruncation
  refine ⟨by decide, report, hrecover, ?_⟩
  cases htruncated : report.truncated with
  | none =>
    obtain h | ⟨record, hrecord, h⟩ := hnone.mp htruncated
    · cases h
    · have hall : ∀ r ∈ Sample.segment.records Entry.len, endOffset r ≠ 29 := by
        simp [Sample.segment, Sample.entry, Segment.records, Storage.scanSegment, endOffset,
          recordLen, headerLen, Entry.len]
      exact absurd h (hall record hrecord)
  | some truncation => rw [htruncation truncation htruncated]; rfl

/-! ## One changed byte -/

/-- The payload length that the record at the head of `bytes` declares. -/
def declaredLen (bytes : List UInt8) : Nat := fromLeBytes (field bytes 5 4)

/--
The checksum catches what happened to the record at the head of `bytes`: where its declared
payload is all there, the stored checksum is not that of the header and this payload.
-/
def Checksum.Detects (bytes : List UInt8) : Prop :=
  headerLen + declaredLen bytes ≤ bytes.length →
    (cs.of (field bytes 0 9) (field bytes headerLen (declaredLen bytes))).toNat
      ≠ fromLeBytes (field bytes 9 4)

/-- A wrong magic, version or checksum is corruption, whatever the type byte says. -/
theorem parseOne_corrupt {bytes : List UInt8} (hlen : headerLen ≤ bytes.length)
    (h : field bytes 0 2 ≠ magic ∨ fromLeBytes (field bytes 2 2) ≠ formatVersion ∨
      headerLen + declaredLen bytes ≤ bytes.length ∧ cs.Detects bytes) :
    ∃ reason, parseOne cs bytes 0 = .error (.corrupt 0 reason) := by
  have hmagic₀ : field (field bytes 0 headerLen) 0 2 = field bytes 0 2 := field_take (by decide)
  have hversion₀ : field (field bytes 0 headerLen) 2 2 = field bytes 2 2 := field_take (by decide)
  have hlength₀ : field (field bytes 0 headerLen) 5 4 = field bytes 5 4 := field_take (by decide)
  have hcrc₀ : field (field bytes 0 headerLen) 9 4 = field bytes 9 4 := field_take (by decide)
  have hstart₀ : field (field bytes 0 headerLen) 0 9 = field bytes 0 9 := field_take (by decide)
  simp only [parseOne, Nat.sub_zero, Nat.zero_add, hmagic₀, hversion₀, hlength₀, hcrc₀, hstart₀]
  rw [if_neg (Nat.not_lt.mpr hlen)]
  by_cases hmagic : field bytes 0 2 ≠ magic
  · exact ⟨_, if_pos hmagic⟩
  rw [if_neg hmagic]
  by_cases hversion : fromLeBytes (field bytes 2 2) ≠ formatVersion
  · exact ⟨_, if_pos hversion⟩
  rw [if_neg hversion]
  obtain ⟨hcomplete, hdetects⟩ := (h.resolve_left hmagic).resolve_left hversion
  have hmismatch := hdetects hcomplete
  simp only [declaredLen] at hcomplete hmismatch
  cases RecordType.fromU8 ((field bytes 0 headerLen).getD 4 0) with
  | none => exact ⟨_, rfl⟩
  | some recordType =>
    refine ⟨"CRC32C mismatch", ?_⟩
    simp only []
    rw [if_neg (Nat.not_lt.mpr hcomplete), if_pos hmismatch]

/-- The magic, version and type are a record's, and its declared length is too large. -/
theorem parseOne_past {bytes : List UInt8} (entry : Entry) (hlen : headerLen ≤ bytes.length)
    (hstart : field bytes 0 5 = field (headerStart entry) 0 5)
    (hpast : bytes.length < headerLen + declaredLen bytes) :
    parseOne cs bytes 0 = .error (.truncated 0) := by
  have hhead : field (field bytes 0 headerLen) 0 5 = field (headerStart entry) 0 5 := by
    rw [← hstart]
    exact field_take (by decide)
  have hmagic : field (field bytes 0 headerLen) 0 2 = magic :=
    calc field (field bytes 0 headerLen) 0 2
        = field (field (field bytes 0 headerLen) 0 5) 0 2 := (field_take (by decide)).symm
      _ = magic := by rw [hhead]; rfl
  have hversion : field (field bytes 0 headerLen) 2 2 = toLeBytes 2 formatVersion :=
    calc field (field bytes 0 headerLen) 2 2
        = field (field (field bytes 0 headerLen) 0 5) 2 2 := (field_take (by decide)).symm
      _ = toLeBytes 2 formatVersion := by rw [hhead]; rfl
  have htype : (field bytes 0 headerLen).getD 4 0 = entry.recordType.toU8 :=
    calc (field bytes 0 headerLen).getD 4 0
        = (field (field bytes 0 headerLen) 0 5).getD 4 0 := by
          simp [field, List.getD_eq_getElem?_getD]
      _ = entry.recordType.toU8 := by rw [hhead]; rfl
  have hlength : field (field bytes 0 headerLen) 5 4 = field bytes 5 4 := field_take (by decide)
  rw [declaredLen] at hpast
  simp only [parseOne, Nat.sub_zero, Nat.zero_add]
  rw [if_neg (Nat.not_lt.mpr hlen), hmagic, if_neg (by simp), hversion, if_neg (by decide), htype,
    RecordType.fromU8_toU8]
  simp only [hlength]
  rw [if_pos hpast]

/-- The rest of a segment file, from a record on in which byte `p` has become `b`. -/
def damaged (entry : Entry) (rest : List UInt8) (p : Nat) (b : UInt8) : List UInt8 :=
  (encodeRecord cs entry).set p b ++ rest

/-- The changed byte is in the length field, which now points past the end of the file. -/
def RunsPast (entry : Entry) (rest : List UInt8) (p : Nat) (b : UInt8) : Prop :=
  (5 ≤ p ∧ p < 9) ∧
    (damaged cs entry rest p b).length < headerLen + declaredLen (damaged cs entry rest p b)

instance (entry : Entry) (rest : List UInt8) (p : Nat) (b : UInt8) :
    Decidable (RunsPast cs entry rest p b) := by unfold RunsPast; infer_instance

section

variable {entry : Entry} {rest : List UInt8} {p : Nat} {b : UInt8}

theorem length_damaged :
    (damaged cs entry rest p b).length = recordLen Entry.len entry + rest.length := by
  rw [damaged, List.length_append, List.length_set, length_encodeRecord]

section

variable (hp : p < recordLen Entry.len entry)

include hp

theorem damaged_eq_set : damaged cs entry rest p b = (encodeRecord cs entry ++ rest).set p b :=
  (List.set_append_left p b (by rw [length_encodeRecord]; exact hp)).symm

/-- Bytes outside the changed one are those of the record. -/
theorem field_damaged {start width : Nat} (h : p < start ∨ start + width ≤ p) :
    field (damaged cs entry rest p b) start width
      = field (encodeRecord cs entry ++ rest) start width := by
  rw [damaged_eq_set cs hp]
  exact field_set_of_not_mem h

theorem field_damaged_ne (hb : (encodeRecord cs entry)[p]? ≠ some b) {start width : Nat}
    (h : start ≤ p ∧ p < start + width) :
    field (damaged cs entry rest p b) start width
      ≠ field (encodeRecord cs entry ++ rest) start width := by
  have hlen := length_encodeRecord cs entry
  rw [damaged_eq_set cs hp]
  refine field_set_of_mem h (by rw [List.length_append]; omega) ?_
  rwa [List.getElem?_append_left (by omega)]

/-- Unless the length field changed, the declared payload is the record's own. -/
theorem declaredLen_damaged (h : p < 5 ∨ 9 ≤ p) :
    declaredLen (damaged cs entry rest p b) = entry.len := by
  rw [declaredLen, field_damaged cs hp h]
  exact fromLeBytes_payloadLen entry

/-- A change in the stored checksum is caught: the computed one is the record's. -/
theorem detects_of_crc (hb : (encodeRecord cs entry)[p]? ≠ some b) (h : 9 ≤ p ∧ p < headerLen) :
    cs.Detects (damaged cs entry rest p b) := by
  intro _
  have hlen : (encodeRecord cs entry).length = headerLen + entry.len := length_encodeRecord cs entry
  have hpayload : field (encodeRecord cs entry ++ rest) headerLen entry.len = entry.payload :=
    field_payload cs entry rest
  rw [declaredLen_damaged cs hp (Or.inr h.1), field_damaged cs hp (Or.inr h.1),
    field_damaged cs hp (Or.inl h.2), hpayload]
  intro heq
  have hstored : fromLeBytes (field (encodeRecord cs entry ++ rest) 9 4)
      = (cs.of (headerStart entry) entry.payload).toNat := fromLeBytes_crc _
  rw [show field (encodeRecord cs entry ++ rest) 0 9 = headerStart entry from rfl,
    ← hstored] at heq
  have hne : field (damaged cs entry rest p b) 9 4 ≠ field (encodeRecord cs entry ++ rest) 9 4 :=
    field_damaged_ne cs hp hb h
  refine hne (fromLeBytes_injective ?_ heq).symm
  rw [length_field (by rw [List.length_append]; unfold headerLen at *; omega),
    length_field (by rw [length_damaged]; unfold recordLen headerLen at *; omega)]

/--
**One changed byte and the parser.** Every byte of the record is covered: the magic and the
version by their tests, the checksum by itself, the others by the checksum; but a length that
runs past the end of the file is found first.
-/
theorem parseOne_damaged (hb : (encodeRecord cs entry)[p]? ≠ some b)
    (hcrc : p < 9 ∨ headerLen ≤ p → cs.Detects (damaged cs entry rest p b)) :
    if RunsPast cs entry rest p b then
      parseOne cs (damaged cs entry rest p b) 0 = .error (.truncated 0)
    else
      ∃ reason, parseOne cs (damaged cs entry rest p b) 0 = .error (.corrupt 0 reason) := by
  have hlen : headerLen ≤ (damaged cs entry rest p b).length := by
    rw [length_damaged, recordLen]
    omega
  split
  · next hpast =>
    refine parseOne_past cs entry hlen ?_ hpast.2
    rw [field_damaged cs hp (Or.inr hpast.1.1)]
    rfl
  · next hpast =>
    apply parseOne_corrupt cs hlen
    by_cases hmagic : p < 2
    · exact Or.inl (field_damaged_ne cs hp hb ⟨Nat.zero_le _, hmagic⟩)
    by_cases hversion : p < 4
    · have hne : field (damaged cs entry rest p b) 2 2 ≠ toLeBytes 2 formatVersion :=
        field_damaged_ne cs hp hb (by omega)
      refine Or.inr (Or.inl fun heq => hne (fromLeBytes_injective ?_ heq))
      rw [length_field (Nat.le_trans (by decide) hlen)]
      rfl
    refine Or.inr (Or.inr ⟨?_, ?_⟩)
    · by_cases hlength : 5 ≤ p ∧ p < 9
      · exact Nat.not_lt.mp fun hlt => hpast ⟨hlength, hlt⟩
      · rw [declaredLen_damaged cs hp (by omega), length_damaged, recordLen]
        omega
    · by_cases hstored : 9 ≤ p ∧ p < headerLen
      · exact detects_of_crc cs hp hb hstored
      · exact hcrc (by omega)

end

end

/-- A directory of encoded records in whose last file one byte of one record has changed. -/
def damagedDir (closed : List (Segment Entry)) (id : Nat) (before : List Entry) (entry : Entry)
    (after : List Entry) (p : Nat) (b : UInt8) : List File :=
  closed.map (fileOf cs)
    ++ [{ id, data := encodeAll cs before ++ damaged cs entry (encodeAll cs after) p b }]

/-- The scan of the damaged file stops at the damaged record. -/
theorem scanSegment_damaged (id : Nat) (before : List Entry) {bytes : List UInt8}
    (hne : bytes ≠ []) {err : ScanError} (herr : parseOne cs bytes 0 = .error err) :
    scanSegment cs id (encodeAll cs before ++ bytes)
      = (Storage.scanSegment Entry.len id 0 before,
          some (err.shift (encodeAll cs before).length)) :=
  scanSegment_append cs id (fun offset => some (err.shift offset))
    (scanFrom_error cs id hne herr) before

/--
**Where recovery is fail-closed.** A changed byte in a record of the last segment is reported as
corruption, with every file left as it was, exactly when it is not a byte of the length field
that makes the record run past the end of the file: then it passes for a crash tail.
-/
theorem damage_reported_iff (closed : List (Segment Entry)) (id : Nat) (before : List Entry)
    (entry : Entry) (after : List Entry) (p : Nat) (b : UInt8)
    (hp : p < recordLen Entry.len entry) (hb : (encodeRecord cs entry)[p]? ≠ some b)
    (hcrc : p < 9 ∨ headerLen ≤ p → cs.Detects (damaged cs entry (encodeAll cs after) p b)) :
    (∃ message, recover cs (damagedDir cs closed id before entry after p b)
        = (damagedDir cs closed id before entry after p b, .error (.corruption message))) ↔
      ¬ RunsPast cs entry (encodeAll cs after) p b := by
  have hparse := parseOne_damaged cs hp hb hcrc
  have hne : damaged cs entry (encodeAll cs after) p b ≠ [] := by
    apply List.ne_nil_of_length_pos
    rw [length_damaged]
    omega
  rw [recover, damagedDir, recoverFrom_append]
  split at hparse
  · next hpast =>
    have hscan := scanSegment_damaged cs id before hne hparse
    rw [recoverFrom]
    simp only [hscan, ScanError.shift, List.isEmpty_nil, if_true, recoverFrom]
    refine iff_of_false ?_ (not_not_intro hpast)
    rintro ⟨message, h⟩
    cases (Prod.mk.inj h).2
  · next hpast =>
    obtain ⟨reason, hparse⟩ := hparse
    have hscan := scanSegment_damaged cs id before hne hparse
    rw [recoverFrom]
    simp only [hscan, ScanError.shift]
    exact iff_of_true ⟨_, rfl⟩ hpast

/-- A changed payload byte of the first of two records is reported. -/
theorem damage_reported_in_payload :
    ∃ message, recover checksum
        (damagedDir checksum [] 1 [] (Sample.entry 7) [Sample.entry 8] 13 9)
      = (damagedDir checksum [] 1 [] (Sample.entry 7) [Sample.entry 8] 13 9,
          .error (.corruption message)) := by
  refine (damage_reported_iff checksum [] 1 [] (Sample.entry 7) [Sample.entry 8] 13 9
    (by decide) (by decide +kernel) ?_).mpr (by decide +kernel)
  intro _ _
  decide +kernel

/--
The highest length byte of the first of two records becomes 1: recovery takes both for a crash
tail, empties the file and reports success.
-/
theorem length_damage_discards_records :
    recover checksum
        (damagedDir checksum [] 1 [] (Sample.entry 7) [Sample.entry 8] 8 1)
      = ([{ id := 1, data := [] }],
          .ok { segments := [{ id := 1, validLen := 0 }]
                truncated := some { segmentId := 1, originalLen := 30, validLen := 0 }
                lastPosition := none }) := by
  decide +kernel

end Calod.Storage.Disk
