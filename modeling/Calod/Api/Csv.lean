import Calod.Scripts.VerifyExport

/-!
# CSV exports

`csv_field` and `render_events_csv` of `calod-api/src/export.rs`, and a reader of CSV by the rules
of RFC 4180: fields are separated by commas, a record ends with a newline, and within quotes a
doubled quote is a quote.

* `csv_reads_back` — the reader gives back the header and the eight fields of each event
-/

namespace Calod.Api

open Calod.Serde Calod.Ledger

/-! ## Writing -/

/-- `csv_field`. -/
def csvField (value : String) : List Char :=
  if value.toList.any (· ∈ [',', '"', '\n', '\r']) then
    '"' :: value.toList.flatMap (fun c => if c = '"' then ['"', '"'] else [c]) ++ ['"']
  else value.toList

/-- `String::from_utf8_lossy`; `lossy` says what becomes of bytes that are not UTF-8. -/
def fromUtf8Lossy (lossy : List UInt8 → String) (bytes : List UInt8) : String :=
  (Store.fromUtf8 bytes).getD (lossy bytes)

/-- The fields of a row, with the text of the payload. -/
def csvRow (event : Event) (payload : String) : List String :=
  [event.runId.toString, toString event.sequence, event.eventType, event.occurredAt,
    event.recordedAt, event.previousHash, event.hash, payload]

def csvLine (fields : List String) : List Char :=
  [','].intercalate (fields.map csvField) ++ ['\n']

def csvHeader : String :=
  "run_id,sequence,type,occurred_at,recorded_at,previous_hash,hash,payload\n"

/-- `render_events_csv`. -/
def renderEventsCsv (formatF64 : UInt64 → String) (lossy : List UInt8 → String)
    (runExport : RunExport) : String :=
  String.ofList (csvHeader.toList ++ runExport.events.flatMap fun event =>
    csvLine (csvRow event (fromUtf8Lossy lossy (canonicalJson formatF64 event.payload))))

/-! ## Reading -/

/-- Where the reader is: before a field, within one, within quotes, or after a quote that may be the
closing one. -/
inductive CsvMode where
  | start
  | plain
  | quoted
  | closing
  deriving DecidableEq

/-- The records, given the beginning of a field and the fields before it. Quotes and carriage
returns stand in quoted fields only. -/
def readRecords : CsvMode → List Char → List String → List Char → Option (List (List String))
  | mode, _, fields, [] => if mode = .start ∧ fields = [] then some [] else none
  | .quoted, field, fields, c :: rest =>
    if c = '"' then readRecords .closing field fields rest
    else readRecords .quoted (field ++ [c]) fields rest
  | mode, field, fields, c :: rest =>
    if c = ',' then readRecords .start [] (fields ++ [String.ofList field]) rest
    else if c = '\n' then
      (readRecords .start [] [] rest).map ((fields ++ [String.ofList field]) :: ·)
    else if c = '"' then
      match mode with
      | .start => readRecords .quoted field fields rest
      | .closing => readRecords .quoted (field ++ ['"']) fields rest
      | _ => none
    else if c = '\r' ∨ mode = .closing then none
    else readRecords .plain (field ++ [c]) fields rest

def readCsv (text : String) : Option (List (List String)) := readRecords .start [] [] text.toList

/-! ## Reading what was written -/

variable {field text rest : List Char} {fields : List String}

theorem readRecords_quoted :
    readRecords .quoted field fields
      (text.flatMap (fun c => if c = '"' then ['"', '"'] else [c]) ++ '"' :: rest)
      = readRecords .closing (field ++ text) fields rest := by
  induction text generalizing field with
  | nil => rw [List.append_nil]; rfl
  | cons c text ih =>
    rw [List.append_cons field, ← ih, List.flatMap_cons]
    by_cases hc : c = '"'
    · subst hc
      rfl
    · simp [readRecords, hc]

theorem readRecords_plain {mode : CsvMode} (hmode : mode = .start ∨ mode = .plain)
    (h : ∀ c ∈ text, c ∉ [',', '"', '\n', '\r']) :
    ∃ mode', mode' ≠ .quoted ∧ readRecords mode field fields (text ++ rest)
      = readRecords mode' (field ++ text) fields rest := by
  induction text generalizing field mode with
  | nil =>
    refine ⟨mode, ?_, by rw [List.append_nil]; rfl⟩
    rcases hmode with rfl | rfl <;> nofun
  | cons c text ih =>
    obtain ⟨hc, htext⟩ := List.forall_mem_cons.mp h
    obtain ⟨mode', hmode', hread⟩ := ih (.inr rfl) htext
    refine ⟨mode', hmode', ?_⟩
    rw [List.append_cons field, ← hread]
    simp only [List.mem_cons, not_or] at hc
    rcases hmode with rfl | rfl <;> simp [readRecords, hc]

/-- A field is read up to what follows it. -/
theorem readRecords_csvField (fields : List String) (value : String) (rest : List Char) :
    ∃ mode, mode ≠ .quoted ∧ readRecords .start [] fields (csvField value ++ rest)
      = readRecords mode value.toList fields rest := by
  unfold csvField
  split
  · refine ⟨.closing, nofun, ?_⟩
    show readRecords .quoted [] fields (_ ++ ['"'] ++ rest) = _
    rw [List.append_assoc]
    exact readRecords_quoted
  · next h =>
    refine readRecords_plain (.inl rfl) fun c hc hm => h ?_
    exact List.any_eq_true.mpr ⟨c, hc, decide_eq_true hm⟩

/-- A line is read as its fields. -/
theorem readRecords_csvLine (value : String) (values : List String) :
    readRecords .start [] fields (csvLine (value :: values) ++ rest)
      = (readRecords .start [] [] rest).map ((fields ++ value :: values) :: ·) := by
  induction values generalizing value fields with
  | nil =>
    obtain ⟨mode, hmode, hread⟩ := readRecords_csvField fields value ('\n' :: rest)
    simp only [csvLine, List.map_cons, List.map_nil, List.intercalate_singleton,
      List.append_assoc, List.singleton_append, hread]
    cases mode <;> simp [readRecords] at hmode ⊢
  | cons next values ih =>
    obtain ⟨mode, hmode, hread⟩ :=
      readRecords_csvField fields value (',' :: (csvLine (next :: values) ++ rest))
    have hline : csvLine (value :: next :: values) ++ rest
        = csvField value ++ ',' :: (csvLine (next :: values) ++ rest) := by
      simp [csvLine, List.intercalate]
    rw [hline, hread]
    cases mode <;> simp [readRecords, ih] at hmode ⊢

theorem readRecords_lines (rows : List (List String)) (h : ∀ row ∈ rows, row ≠ []) :
    readRecords .start [] [] (rows.flatMap csvLine) = some rows := by
  induction rows with
  | nil => rfl
  | cons row rows ih =>
    obtain ⟨hrow, hrows⟩ := List.forall_mem_cons.mp h
    obtain ⟨value, values, rfl⟩ := List.exists_cons_of_ne_nil hrow
    rw [List.flatMap_cons, readRecords_csvLine, ih hrows]
    rfl

/-- The names of the columns. -/
def csvColumns : List String :=
  ["run_id", "sequence", "type", "occurred_at", "recorded_at", "previous_hash", "hash", "payload"]

/-- The canonical bytes are a text. -/
theorem utf8_fromUtf8Lossy (formatF64 : UInt64 → String) (lossy : List UInt8 → String)
    (value : Value) :
    utf8 (fromUtf8Lossy lossy (canonicalJson formatF64 value)) = canonicalJson formatF64 value := by
  have h := VerifyExport.canonical_eq ⟨formatF64, fun _ _ => false⟩ value
  rw [← h, VerifyExport.canonical, fromUtf8Lossy, Store.fromUtf8_utf8, Option.getD_some]

/-- **CSV exports read back exactly**: the header, and for each event its eight fields, the last of
which is the text of its canonical payload. -/
theorem csv_reads_back (formatF64 : UInt64 → String) (lossy : List UInt8 → String)
    (runExport : RunExport) :
    ∃ payload : Event → String,
      (∀ event, utf8 (payload event) = canonicalJson formatF64 event.payload) ∧
      readCsv (renderEventsCsv formatF64 lossy runExport)
        = some (csvColumns :: runExport.events.map fun event => csvRow event (payload event)) := by
  refine ⟨_, fun event => utf8_fromUtf8Lossy formatF64 lossy event.payload, ?_⟩
  have hheader : csvHeader.toList = csvLine csvColumns := by decide +kernel
  rw [readCsv, renderEventsCsv, String.toList_ofList, hheader, ← List.flatMap_map,
    ← List.flatMap_cons]
  refine readRecords_lines _ (List.forall_mem_cons.mpr ⟨nofun, ?_⟩)
  simp [csvRow]

end Calod.Api
