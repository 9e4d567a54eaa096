import Calod.Api.Export
import Calod.Ledger.Faithful
import Calod.Lib.Except

/-!
# The independent verifier

`scripts/verify_export.py`: the event chain, the bundle's digest and its signature, recomputed in
Python from a JSON bundle. Its data are JSON values, as `json.load` makes them; an `int` has no
bound there, and a `float` may be infinite. An exception is one kind of failure.

* `canonical_eq` — `json.dumps` with sorted keys writes the bytes of `canonical_json`, up to how
  floats are printed
* `verifyChain_of_verifyEventChain` — the two chain checks agree on what the server wrote
* `verifier_exact` — **the verifier accepts every genuine export, and with the digest of one
  nothing else**
-/

namespace Calod.VerifyExport

open Calod.Serde Calod.Ledger Lib

variable {entries : List (String × Value)} {key : String} {value : Value}
  {formatF64 : UInt64 → String} {data : List UInt8}

/-- What Python does with floats. -/
structure Runtime where
  /-- How `json.dumps` prints a `float`, given by its bits. -/
  floatstr : UInt64 → String
  /-- `float == int`. -/
  floatEqInt : UInt64 → Int → Bool

/-! ## Canonical JSON -/

/-- `{0:04x}`. -/
def hex4 (n : Nat) : List Char :=
  [hexDigit (n / 4096 % 16), hexDigit (n / 256 % 16), hexDigit (n / 16 % 16), hexDigit (n % 16)]

/-- `ESCAPE_DCT` of `json.encoder`. -/
def escapeDct (c : Char) : List Char :=
  if c = '\\' then ['\\', '\\']
  else if c = '"' then ['\\', '"']
  else if c = '\x08' then ['\\', 'b']
  else if c = '\x0C' then ['\\', 'f']
  else if c = '\n' then ['\\', 'n']
  else if c = '\r' then ['\\', 'r']
  else if c = '\t' then ['\\', 't']
  else if c.toNat < 0x20 then '\\' :: 'u' :: hex4 c.toNat
  else [c]

/-- `encode_basestring`. -/
def encodeBasestring (s : String) : List Char := '"' :: s.toList.flatMap escapeDct ++ ['"']

mutual

/-- `json.dumps(value, sort_keys=True, separators=(",", ":"), ensure_ascii=False)`. Keys are
compared by code points. -/
def dumps (py : Runtime) : Value → List Char
  | .null => "null".toList
  | .bool b => (if b then "true" else "false").toList
  | .number (.posInt n) => (toString n).toList
  | .number (.negInt n) => (toString n).toList
  | .number (.float bits) => (py.floatstr bits).toList
  | .string s => encodeBasestring s
  | .array items => '[' :: [','].intercalate (dumpsItems py items) ++ [']']
  | .object entries =>
    let sorted := (dumpsEntries py entries).insertionSort fun a b => a.1 ≤ b.1
    '{' :: [','].intercalate (sorted.map fun e => encodeBasestring e.1 ++ ':' :: e.2) ++ ['}']

def dumpsItems (py : Runtime) : List Value → List (List Char)
  | [] => []
  | v :: rest => dumps py v :: dumpsItems py rest

def dumpsEntries (py : Runtime) : List (String × Value) → List (String × List Char)
  | [] => []
  | (key, v) :: rest => (key, dumps py v) :: dumpsEntries py rest

end

/-- `canonical`. -/
def canonical (py : Runtime) (value : Value) : List UInt8 := utf8 (String.ofList (dumps py value))

/-! ### The bytes are those of the ledger -/

/-- The bytes of a text. -/
def bytes (text : List Char) : List UInt8 := text.flatMap String.utf8EncodeChar

theorem bytes_toList (s : String) : bytes s.toList = utf8 s := by
  rw [bytes, ← Store.utf8_ofList, String.ofList_toList]

theorem bytes_append (a b : List Char) : bytes (a ++ b) = bytes a ++ bytes b :=
  List.flatMap_append

/-- The same table, checked in another order. -/
theorem escapeDct_eq (c : Char) : escapeDct c = escapeChar c := by
  by_cases hbackslash : c = '\\'
  · rw [hbackslash]
    rfl
  by_cases hquote : c = '"'
  · rw [hquote]
    rfl
  by_cases hb : c = '\x08'
  · rw [hb]
    rfl
  by_cases hf : c = '\x0C'
  · rw [hf]
    rfl
  by_cases hn : c = '\n'
  · rw [hn]
    rfl
  by_cases hr : c = '\r'
  · rw [hr]
    rfl
  by_cases ht : c = '\t'
  · rw [ht]
    rfl
  -- the ledger compares code points
  have hne : ∀ d : Char, ¬ c = d → ¬ c.toNat = d.toNat := fun d h he => h (Char.toNat_inj.mp he)
  have hcodes : ¬ c.toNat = 0x08 ∧ ¬ c.toNat = 0x09 ∧ ¬ c.toNat = 0x0A ∧ ¬ c.toNat = 0x0C ∧
      ¬ c.toNat = 0x0D := ⟨hne _ hb, hne _ ht, hne _ hn, hne _ hf, hne _ hr⟩
  rw [escapeDct, if_neg hbackslash, if_neg hquote, if_neg hb, if_neg hf, if_neg hn, if_neg hr,
    if_neg ht, escapeChar, if_neg hquote, if_neg hbackslash, if_neg hcodes.1, if_neg hcodes.2.1,
    if_neg hcodes.2.2.1, if_neg hcodes.2.2.2.1, if_neg hcodes.2.2.2.2]
  by_cases hc : c.toNat < 0x20
  · have h₁ : c.toNat / 4096 % 16 = 0 := by omega
    have h₂ : c.toNat / 256 % 16 = 0 := by omega
    have h₃ : c.toNat / 16 % 16 = c.toNat / 16 := by omega
    rw [if_pos hc, if_pos hc, hex4, h₁, h₂, h₃]
    rfl
  · rw [if_neg hc, if_neg hc]

theorem bytes_encodeBasestring (s : String) : bytes (encodeBasestring s) = encodeString s := by
  have hescape : escapeDct = escapeChar := funext escapeDct_eq
  rw [encodeString, Store.utf8_ofList, encodeBasestring, hescape]
  rfl

theorem bytes_intercalate (texts : List (List Char)) :
    bytes ([','].intercalate texts) = commaSeparated (texts.map bytes) := by
  induction texts with
  | nil => rfl
  | cons text rest ih =>
    cases rest with
    | nil =>
      show bytes ([','].intercalate [text]) = bytes text
      rw [List.intercalate_singleton]
    | cons next rest =>
      rw [List.intercalate_cons_cons, bytes_append, bytes_append, ih]
      simp only [List.map_cons, commaSeparated, List.append_assoc]
      rfl

mutual

theorem bytes_dumps (py : Runtime) : ∀ v : Value, bytes (dumps py v) = canonicalJson py.floatstr v
  | .null => by rw [dumps, canonicalJson, bytes_toList]
  | .bool b => by rw [dumps, canonicalJson, bytes_toList]
  | .number (.posInt n) => by rw [dumps, canonicalJson, bytes_toList]; rfl
  | .number (.negInt n) => by rw [dumps, canonicalJson, bytes_toList]; rfl
  | .number (.float bits) => by rw [dumps, canonicalJson, bytes_toList]; rfl
  | .string s => by rw [dumps, canonicalJson, bytes_encodeBasestring]
  | .array items => by
    rw [dumps, canonicalJson, ← bytes_dumpsItems py items, ← bytes_intercalate]
    exact bytes_append ('[' :: [','].intercalate (dumpsItems py items)) [']']
  | .object entries => by
    have hsort : ((dumpsEntries py entries).insertionSort fun a b => a.1 ≤ b.1).map
        (fun e => (e.1, bytes e.2))
        = (canonicalEntries py.floatstr entries).insertionSort fun a b => a.1 ≤ b.1 := by
      rw [← bytes_dumpsEntries py entries]
      exact List.map_insertionSort (fun a b => a.1 ≤ b.1) (fun a b => a.1 ≤ b.1)
        (fun e : String × List Char => (e.1, bytes e.2)) _ fun _ _ _ _ => Iff.rfl
    have hentry : ∀ e : String × List Char, bytes (encodeBasestring e.1 ++ ':' :: e.2)
        = encodeString e.1 ++ 0x3A :: bytes e.2 := by
      intro e
      rw [bytes_append, bytes_encodeBasestring]
      rfl
    rw [dumps, canonicalJson, renderObject, ← hsort, List.map_map]
    refine (bytes_append ('{' :: _) ['}']).trans ?_
    show 0x7B :: bytes _ ++ [0x7D] = _
    rw [bytes_intercalate, List.map_map]
    simp only [Function.comp_def, hentry]

theorem bytes_dumpsItems (py : Runtime) : ∀ items : List Value,
    (dumpsItems py items).map bytes = canonicalItems py.floatstr items
  | [] => rfl
  | v :: rest => by
    rw [dumpsItems, List.map_cons, bytes_dumps py v, bytes_dumpsItems py rest, canonicalItems]

theorem bytes_dumpsEntries (py : Runtime) : ∀ entries : List (String × Value),
    (dumpsEntries py entries).map (fun e => (e.1, bytes e.2)) = canonicalEntries py.floatstr entries
  | [] => rfl
  | (key, v) :: rest => by
    rw [dumpsEntries, List.map_cons, bytes_dumps py v, bytes_dumpsEntries py rest, canonicalEntries]

end

/-- **The canonical form of the verifier is that of the ledger.** -/
theorem canonical_eq (py : Runtime) (value : Value) :
    canonical py value = canonicalJson py.floatstr value := by
  rw [canonical, Store.utf8_ofList]
  exact bytes_dumps py value

/-! ## The checks -/

/-- Why a bundle is not accepted. -/
inductive Failure where
  /-- An exception, such as a missing key. -/
  | raised
  | noManifest
  | sequenceGap (index : Nat) (got : Value)
  | notLinked (sequence : Value)
  | hashMismatch (sequence : Value)
  | bundleModified
  | badSignature

/-- `dict.get`. -/
def get (entries : List (String × Value)) (key : String) : Option Value :=
  (entries.find? fun e => e.1 == key).map Prod.snd

/-- `value[key]`: an exception if the value is no object or has no such key. -/
def getItem : Value → String → Except Failure Value
  | .object entries, key =>
    match get entries key with
    | some value => .ok value
    | none => .error .raised
  | _, _ => .error .raised

/-- What a loop over a value goes through: the characters of a string, the keys of an object. -/
def iterate : Value → Except Failure (List Value)
  | .array items => .ok items
  | .string s => .ok (s.toList.map fun c => .string (String.ofList [c]))
  | .object entries => .ok (entries.map fun e => .string e.1)
  | _ => .error .raised

/-- `value == n`; a `bool` is an `int`. -/
def eqInt (py : Runtime) (value : Value) (n : Int) : Bool :=
  match value with
  | .number (.posInt m) => (m : Int) == n
  | .number (.negInt m) => m == n
  | .number (.float bits) => py.floatEqInt bits n
  | .bool b => (if b then 1 else 0) == n
  | _ => false

/-- `value == text`. -/
def eqStr (value : Value) (text : String) : Bool :=
  match value with
  | .string s => s == text
  | _ => false

def isSpace (c : Char) : Bool :=
  c = ' ' || c = '\t' || c = '\n' || c = '\r' || c = '\x0B' || c = '\x0C'

/-- `bytes.fromhex`: blanks between the bytes are skipped. -/
def fromHex : List Char → Option (List UInt8)
  | [] => some []
  | [c] => if isSpace c then some [] else none
  | hi :: lo :: rest =>
    if isSpace hi then fromHex (lo :: rest)
    else do
      let high ← toDigit16 hi
      let low ← toDigit16 lo
      let bytes ← fromHex rest
      return UInt8.ofNat (high * 16 + low) :: bytes

/-- `str.strip`, of ASCII blanks. -/
def strip (text : List Char) : List Char :=
  ((text.dropWhile isSpace).reverse.dropWhile isSpace).reverse

/-- `str.removeprefix("sha256:")`. -/
def removeSha256 (text : List Char) : List Char :=
  if "sha256:".toList.isPrefixOf text then text.drop 7 else text

/-- `hash_bytes`. -/
def hashBytes (crates : Crates) (data : List UInt8) : String :=
  "sha256:" ++ hexEncode (crates.sha256 data)

/-- `GENESIS_HASH`. -/
def genesis (crates : Crates) : String := hashBytes crates []

def eventHash (crates : Crates) (py : Runtime) (event : Value) (previousHash : String) :
    Except Failure String := do
  let id ← getItem event "id"
  let runId ← getItem event "run_id"
  let sequence ← getItem event "sequence"
  let type ← getItem event "type"
  let occurredAt ← getItem event "occurred_at"
  let recordedAt ← getItem event "recorded_at"
  let eventPayload ← getItem event "payload"
  let payload := Value.object
    [("id", id), ("run_id", runId), ("sequence", sequence), ("type", type),
      ("occurred_at", occurredAt), ("recorded_at", recordedAt), ("payload", eventPayload)]
  match fromHex (removeSha256 previousHash.toList) with
  | none => .error .raised
  | some previousBytes => .ok (hashBytes crates (previousBytes ++ canonical py payload))

/-- The loop of `verify_chain`, at position `index`. -/
def verifyChainFrom (crates : Crates) (py : Runtime) :
    Nat → String → List Value → Except Failure Unit
  | _, _, [] => .ok ()
  | index, previous, event :: rest => do
    let sequence ← getItem event "sequence"
    if !eqInt py sequence (index + 1) then .error (.sequenceGap index sequence)
    else
      let previousHash ← getItem event "previous_hash"
      if !eqStr previousHash previous then .error (.notLinked sequence)
      else
        let computed ← eventHash crates py event previous
        let hash ← getItem event "hash"
        if !eqStr hash computed then .error (.hashMismatch sequence)
        else verifyChainFrom crates py (index + 1) computed rest

/-- `hmac.new(key, msg, hashlib.sha256).hexdigest()`. -/
def hmacHexdigest (crates : Crates) (key msg : List UInt8) : String :=
  let key := if 64 < key.length then crates.sha256 key else key
  let key := key ++ List.replicate (64 - key.length) 0
  let inner := crates.sha256 (key.map (fun b => b ^^^ 0x36) ++ msg)
  hexEncode (crates.sha256 (key.map (fun b => b ^^^ 0x5c) ++ inner))

/-- The check of the signature, with the text of the key file. -/
def verifySignature (crates : Crates) (keyFile : String) (digest : String) (signature : Value) :
    Except Failure Unit :=
  match fromHex (strip keyFile.toList) with
  | none => .error .raised
  | some key =>
    let expected := hmacHexdigest crates key (utf8 digest)
    match signature with
    | .string text =>
      -- `compare_digest` takes ASCII strings only
      if text.toList.any fun c => decide (127 < c.toNat) then .error .raised
      else if text == expected then .ok ()
      else .error .badSignature
    | _ => .error .raised

/-- The entries of a bundle without its manifest. -/
def unsigned (entries : List (String × Value)) : Value :=
  .object (entries.filter fun e => e.1 != "manifest")

/-- `verify_json_bundle`, on what `json.load` made of the file. -/
def verifyJsonBundle (crates : Crates) (py : Runtime) (keyFile : Option String) :
    Value → Except Failure Unit
  | .object entries =>
    match get entries "manifest" with
    | some (.object manifest) => do
      let events ← iterate ((get entries "events").getD (.array []))
      verifyChainFrom crates py 0 (genesis crates) events
      let digest := hashBytes crates (canonical py (unsigned entries))
      if !eqStr ((get manifest "bundle_sha256").getD .null) digest then .error .bundleModified
      else
        match keyFile with
        | none => .ok ()
        | some text =>
          verifySignature crates text digest ((get manifest "signature").getD (.string ""))
    | _ => .error .noManifest
  | _ => .error .raised

/-! ## Objects of the server -/

section

variable (hnodup : (entries.map Prod.fst).Nodup)

include hnodup

theorem get_of_mem (h : (key, value) ∈ entries) : get entries key = some value := by
  induction entries with
  | nil => cases h
  | cons e rest ih =>
    obtain ⟨hhead, hrest⟩ := List.nodup_cons.mp hnodup
    rcases List.mem_cons.mp h with rfl | h
    · simp [get]
    · have hne : e.1 ≠ key := by
        rintro rfl
        exact hhead (List.mem_map.mpr ⟨_, h, rfl⟩)
      have := ih hrest h
      rw [get] at this ⊢
      rw [List.find?_cons_of_neg (by simpa using hne), this]

theorem get_json (h : (key, value) ∈ entries) : get (Value.sortEntries entries) key = some value :=
  get_of_mem (Value.nodup_sortEntries hnodup) (Value.mem_sortEntries.mpr h)

theorem getItem_json (h : (key, value) ∈ entries) : getItem (.json entries) key = .ok value := by
  show (match get (Value.sortEntries entries) key with
    | some value => Except.ok value
    | none => .error Failure.raised) = _
  rw [get_json hnodup h]

theorem canonicalJson_json :
    canonicalJson formatF64 (.json entries) = canonicalJson formatF64 (.object entries) :=
  (canonicalJson_perm (Value.sortEntries_perm entries).symm hnodup).symm

end

theorem holds_json {P : Number → Prop} :
    (Value.json entries).Holds P ↔
      (entries.map Prod.fst).Nodup ∧ ∀ e ∈ entries, e.2.Holds P := by
  show (Value.object (Value.sortEntries entries)).Holds P ↔ _
  rw [Value.Holds, Value.holdsEntries_iff]
  refine and_congr ((Value.sortEntries_perm entries).map Prod.fst).nodup_iff ?_
  simp only [Value.mem_sortEntries]

/-! ## Integers -/

/-- The number is an integer. -/
def Integral (n : Number) : Prop := ∃ i, n.toInt? = some i

theorem holds_ofInt (n : Int) : (Value.ofInt n).Holds Integral := by
  rw [Value.ofInt]
  split
  · exact ⟨_, rfl⟩
  · exact ⟨_, rfl⟩

theorem eqInt_ofInt (py : Runtime) (n m : Int) : eqInt py (.ofInt n) m = (n == m) := by
  rw [Value.ofInt]
  split
  · next h => rw [eqInt, Int.toNat_of_nonneg h]
  · rfl

/-- Without floats it does not matter how they are printed. -/
theorem canonicalJson_integral {f g : UInt64 → String} {v : Value} (h : v.Holds Integral) :
    canonicalJson f v = canonicalJson g v := by
  induction v with
  | null | bool | string => rfl
  | number n =>
    obtain ⟨i, hi⟩ : ∃ i, n.toInt? = some i := h
    rw [canonicalJson, canonicalJson, Number.render_of_toInt hi, Number.render_of_toInt hi]
  | array items ih =>
    rw [canonicalJson, canonicalJson, canonicalItems_eq, canonicalItems_eq]
    rw [List.map_congr_left fun v hv => ih v hv (Value.holdsItems_iff.mp h v hv)]
  | object entries ih =>
    rw [canonicalJson, canonicalJson, canonicalEntries_eq, canonicalEntries_eq]
    rw [List.map_congr_left fun e he => by
      rw [ih e he (Value.holdsEntries_iff.mp h.2 e he)]]

/-! ## Hex -/

theorem hexDigit_facts {n : Nat} (h : n < 16) : toDigit16 (hexDigit n) = some n ∧
    isSpace (hexDigit n) = false ∧ (hexDigit n).toNat ≤ 127 := by
  have hall : ∀ n ∈ List.range 16, toDigit16 (hexDigit n) = some n ∧
      isSpace (hexDigit n) = false ∧ (hexDigit n).toNat ≤ 127 := by
    decide +kernel
  exact hall n (List.mem_range.mpr h)

/-- The characters of the hex text of some bytes. -/
theorem mem_hexEncode {c : Char} (h : c ∈ (hexEncode data).toList) : ∃ n < 16, c = hexDigit n := by
  rw [hexEncode, String.toList_ofList, List.mem_flatMap] at h
  obtain ⟨b, -, hc⟩ := h
  have hb : b.toNat < 256 := b.toNat_lt
  rcases List.mem_cons.mp hc with rfl | hc
  · exact ⟨b.toNat / 16, by omega, rfl⟩
  · rw [List.mem_singleton] at hc
    exact ⟨b.toNat % 16, by omega, hc⟩

/-- Both readers of hex give the bytes back. -/
theorem decode_hexEncode (data : List UInt8) : fromHex (hexEncode data).toList = some data ∧
    hexDecodePairs (hexEncode data).toList = some data := by
  rw [hexEncode, String.toList_ofList]
  induction data with
  | nil => exact ⟨rfl, rfl⟩
  | cons b rest ih =>
    have hb : b.toNat < 256 := b.toNat_lt
    obtain ⟨hhigh, hspace, -⟩ := hexDigit_facts (n := b.toNat / 16) (by omega)
    obtain ⟨hlow, -⟩ := hexDigit_facts (n := b.toNat % 16) (by omega)
    have hbyte : UInt8.ofNat (b.toNat / 16 * 16 + b.toNat % 16) = b := by
      rw [show b.toNat / 16 * 16 + b.toNat % 16 = b.toNat by omega, UInt8.ofNat_toNat]
    rw [List.flatMap_cons, List.cons_append, List.cons_append, List.nil_append, fromHex, hspace,
      hexDecodePairs]
    simp only [hhigh, hlow, ih.1, ih.2, hbyte, Bool.false_eq_true, if_false, Option.bind_eq_bind,
      Option.bind_some, Option.pure_def, and_self]

/-- A text without blanks is not stripped. -/
theorem strip_of_not_space {text : List Char} (h : ∀ c ∈ text, isSpace c = false) :
    strip text = text := by
  have hdrop : ∀ l : List Char, (∀ c ∈ l, isSpace c = false) → l.dropWhile isSpace = l := by
    intro l hl
    cases l with
    | nil => rfl
    | cons c rest => rw [List.dropWhile_cons_of_neg (by rw [hl c List.mem_cons_self]; decide)]
  rw [strip, hdrop text h, hdrop _ fun c hc => h c (List.mem_reverse.mp hc), List.reverse_reverse]

theorem removeSha256_sha256Digest (crates : Crates) (data : List UInt8) :
    removeSha256 (sha256Digest crates data).toList = (hexEncode (crates.sha256 data)).toList := by
  rw [sha256Digest, String.toList_append, removeSha256, if_pos]
  · rfl
  · exact List.isPrefixOf_iff_prefix.mpr (List.prefix_append _ _)

/-- The ledger reads the raw bytes of a digest back. -/
theorem digestBytes_sha256Digest {crates : Crates}
    (hlen : ∀ data, (crates.sha256 data).length = 32) (data : List UInt8) :
    digestBytes (sha256Digest crates data) = some (crates.sha256 data) := by
  have hascii : ∀ c ∈ (hexEncode (crates.sha256 data)).toList, c.toNat ≤ 127 := by
    intro c hc
    obtain ⟨n, hn, rfl⟩ := mem_hexEncode hc
    exact (hexDigit_facts hn).2.2
  have hsize : (hexEncode (crates.sha256 data)).utf8ByteSize = 64 := by
    have hbytes := Store.utf8_ofList_ascii hascii
    rw [String.ofList_toList] at hbytes
    have hlength := congrArg List.length hbytes
    have hchars : (hexEncode (crates.sha256 data)).toList.length = 64 := by
      simp [hexEncode, hlen, List.length_flatMap]
    rw [List.length_map, hchars] at hlength
    rw [← hlength]
    simp [utf8]
  have hdrop : (sha256Digest crates data).toList.drop 7
      = (hexEncode (crates.sha256 data)).toList := by
    rw [sha256Digest, String.toList_append]
    rfl
  rw [digestBytes, if_pos, hdrop, String.ofList_toList, hexDecode32, if_neg (by simp [hsize]),
    (decode_hexEncode _).2]
  rw [sha256Digest, String.toList_append]
  exact List.isPrefixOf_iff_prefix.mpr (List.prefix_append _ _)

/-! ## The event chain -/

section

variable {crates : Crates} {py : Runtime} (hlen : ∀ data, (crates.sha256 data).length = 32)

theorem nodup_fields (event : Event) : (event.fields.map Prod.fst).Nodup := by
  show ["id", "run_id", "sequence", "type", "occurred_at", "recorded_at", "payload",
    "previous_hash", "hash"].Nodup
  decide

theorem eventHash_of_items {event id runId sequence type occurredAt recordedAt payload : Value}
    {previousHash : String} {previous : List UInt8} (hid : getItem event "id" = .ok id)
    (hrun : getItem event "run_id" = .ok runId)
    (hsequence : getItem event "sequence" = .ok sequence) (htype : getItem event "type" = .ok type)
    (hoccurred : getItem event "occurred_at" = .ok occurredAt)
    (hrecorded : getItem event "recorded_at" = .ok recordedAt)
    (hpayload : getItem event "payload" = .ok payload)
    (hhex : fromHex (removeSha256 previousHash.toList) = some previous) :
    eventHash crates py event previousHash = .ok (hashBytes crates (previous ++ canonical py
      (.object [("id", id), ("run_id", runId), ("sequence", sequence), ("type", type),
        ("occurred_at", occurredAt), ("recorded_at", recordedAt), ("payload", payload)]))) := by
  simp only [eventHash, hid, hrun, hsequence, htype, hoccurred, hrecorded, hpayload, hhex, bind,
    Except.bind]

include hlen

/-- **Both sides compute the same hash of an event.** -/
theorem eventHash_eq {event : Event} (hpayload : event.payload.Holds Integral) {data : List UInt8}
    (hprevious : event.previousHash = sha256Digest crates data) :
    eventHash crates py event.toJson event.previousHash = .ok (computeEventHash crates event) := by
  have hitem : ∀ {key : String} {value : Value}, (key, value) ∈ event.fields →
      getItem event.toJson key = .ok value := getItem_json (nodup_fields event)
  have hid : getItem event.toJson "id" = .ok (uuidJson event.id) := hitem (by simp [Event.fields])
  have hrun : getItem event.toJson "run_id" = .ok (uuidJson event.runId) :=
    hitem (by simp [Event.fields])
  have hsequence : getItem event.toJson "sequence" = .ok (.ofInt event.sequence) :=
    hitem (by simp [Event.fields])
  have htype : getItem event.toJson "type" = .ok (.string event.eventType) :=
    hitem (by simp [Event.fields])
  have hoccurred : getItem event.toJson "occurred_at" = .ok (.string event.occurredAt) :=
    hitem (by simp [Event.fields])
  have hrecorded : getItem event.toJson "recorded_at" = .ok (.string event.recordedAt) :=
    hitem (by simp [Event.fields])
  have hvalue : getItem event.toJson "payload" = .ok event.payload :=
    hitem (by simp [Event.fields])
  have hhex : fromHex (removeSha256 event.previousHash.toList) = some (crates.sha256 data) := by
    rw [hprevious, removeSha256_sha256Digest, (decode_hexEncode _).1]
  have hbytes : (digestBytes event.previousHash).getD (List.replicate 32 0)
      = crates.sha256 data := by
    rw [hprevious, digestBytes_sha256Digest hlen, Option.getD_some]
  rw [eventHash_of_items hid hrun hsequence htype hoccurred hrecorded hvalue hhex]
  simp only [computeEventHash, hbytes, canonicalJsonInto]
  -- the same entries, in key order on the server's side
  set entries : List (String × Value) :=
    [("id", uuidJson event.id), ("run_id", uuidJson event.runId),
      ("sequence", .ofInt event.sequence), ("type", .string event.eventType),
      ("occurred_at", .string event.occurredAt), ("recorded_at", .string event.recordedAt),
      ("payload", event.payload)] with hentries
  have hnodup : (entries.map Prod.fst).Nodup := by
    show ["id", "run_id", "sequence", "type", "occurred_at", "recorded_at", "payload"].Nodup
    decide
  have hintegral : (Value.object entries).Holds Integral :=
    ⟨hnodup, trivial, trivial, holds_ofInt _, trivial, trivial, trivial, hpayload, trivial⟩
  have hcanonical : canonical py (.object entries)
      = canonicalJson crates.formatF64 (.json entries) := by
    rw [canonical_eq, canonicalJson_json hnodup]
    exact canonicalJson_integral hintegral
  rw [hcanonical]
  rfl

/-- **The two chain checks agree**: what the ledger's check accepts, the verifier's does. -/
theorem verifyChain_of_verifyEventChain {events : List Event}
    (hpayloads : ∀ event ∈ events, event.payload.Holds Integral) {index : Nat}
    (h : verifyEventChainFrom crates index (sha256Digest crates data) events = true) :
    verifyChainFrom crates py index (sha256Digest crates data) (events.map Event.toJson)
      = .ok () := by
  induction events generalizing index data with
  | nil => rfl
  | cons event rest ih =>
    rw [verifyEventChainFrom] at h
    split at h
    · cases h
    next hsequence =>
    split at h
    · cases h
    next hprevious =>
    split at h
    · cases h
    next hhash =>
    have hsequence := Classical.not_not.mp hsequence
    have hprevious := Classical.not_not.mp hprevious
    have hhash := Classical.not_not.mp hhash
    have hitem : ∀ {key : String} {value : Value}, (key, value) ∈ event.fields →
        getItem event.toJson key = .ok value := getItem_json (nodup_fields event)
    have hfirst : getItem event.toJson "sequence" = .ok (.ofInt event.sequence) :=
      hitem (by simp [Event.fields])
    have hsecond : getItem event.toJson "previous_hash" = .ok (.string event.previousHash) :=
      hitem (by simp [Event.fields])
    have hthird : getItem event.toJson "hash" = .ok (.string event.hash) :=
      hitem (by simp [Event.fields])
    have hcomputed : eventHash crates py event.toJson event.previousHash
        = .ok (computeEventHash crates event) :=
      eventHash_eq hlen (hpayloads event List.mem_cons_self) hprevious
    rw [hprevious] at hcomputed
    rw [List.map_cons, verifyChainFrom]
    simp only [hfirst, hsecond, hthird, hcomputed, eqInt_ofInt, hsequence, hprevious, hhash, eqStr,
      bind, Except.bind, beq_self_eq_true, Bool.not_true, Bool.false_eq_true, if_false]
    rw [hhash] at h
    exact ih (fun e he => hpayloads e (List.mem_cons_of_mem _ he)) h

/-! ## The signature -/

theorem hmacHexdigest_eq (key msg : List UInt8) :
    hmacHexdigest crates key msg = Api.hmacSha256Hex crates key msg := by
  rw [hmacHexdigest, Api.hmacSha256Hex]
  by_cases hkey : 64 < key.length
  · simp only [if_pos hkey, hlen]
  · simp only [if_neg hkey]

theorem verifySignature_ok (key : List UInt8) (digest : String) :
    verifySignature crates (hexEncode key) digest
      (.string (Api.hmacSha256Hex crates key (utf8 digest))) = .ok () := by
  have hspace : ∀ c ∈ (hexEncode key).toList, isSpace c = false := by
    intro c hc
    obtain ⟨n, hn, rfl⟩ := mem_hexEncode hc
    exact (hexDigit_facts hn).2.1
  have hascii : ((Api.hmacSha256Hex crates key (utf8 digest)).toList.any
      fun c => decide (127 < c.toNat)) = false := by
    rw [List.any_eq_false]
    intro c hc
    obtain ⟨n, hn, rfl⟩ := mem_hexEncode hc
    have := (hexDigit_facts hn).2.2
    simpa using this
  rw [verifySignature, strip_of_not_space hspace, (decode_hexEncode _).1]
  simp only [hmacHexdigest_eq hlen, hascii, Bool.false_eq_true, if_false, beq_self_eq_true, if_true]

end

/-! ## The bundle -/

section

variable {crates : Crates} {py : Runtime} {runExport : RunExport} {exportedAt : String}

theorem nodup_bundleFields :
    ((Api.bundleFields runExport exportedAt).map Prod.fst).Nodup := by
  show ["schema", "exported_at", "run", "effects", "events", "checkpoints"].Nodup
  decide

/-- What is signed is the bundle without its manifest. -/
theorem canonicalJson_unsigned (formatF64 : UInt64 → String) (manifest : Value) :
    canonicalJson formatF64 (unsigned (Value.sortEntries
      (Api.bundleFields runExport exportedAt ++ [("manifest", manifest)])))
      = canonicalJson formatF64 (Api.bundle runExport exportedAt) := by
  have hfilter : (Api.bundleFields runExport exportedAt ++ [("manifest", manifest)]).filter
      (fun e => e.1 != "manifest") = Api.bundleFields runExport exportedAt := by
    rfl
  rw [Api.bundle, canonicalJson_json nodup_bundleFields, unsigned]
  refine (canonicalJson_perm ?_ nodup_bundleFields).symm
  rw [← hfilter]
  exact ((Value.sortEntries_perm _).filter _).symm

/-- **A genuine export is accepted**, with the key that signed it. -/
theorem verifyJsonBundle_renderJsonExport (hlen : ∀ data, (crates.sha256 data).length = 32)
    (hgenesis : sha256Digest crates [] = genesisHash) (signingKey : List UInt8)
    (hchain : verifyEventChain crates runExport.events = true)
    (hintegral : (Api.bundle runExport exportedAt).Holds Integral) :
    verifyJsonBundle crates py (some (hexEncode signingKey))
      (Api.renderJsonExport crates runExport signingKey exportedAt) = .ok () := by
  set manifest := Api.manifestFields crates runExport signingKey exportedAt with hmanifest
  set entries := Api.bundleFields runExport exportedAt ++ [("manifest", Value.json manifest)]
    with hentries
  have hnodup : (entries.map Prod.fst).Nodup := by
    show ["schema", "exported_at", "run", "effects", "events", "checkpoints", "manifest"].Nodup
    decide
  have hnodup' : (manifest.map Prod.fst).Nodup := by
    show ["algorithm", "bundle_sha256", "signature", "records", "events_head_hash"].Nodup
    decide
  have hget : get (Value.sortEntries entries) "manifest"
      = some (.object (Value.sortEntries manifest)) :=
    get_json hnodup (List.mem_append_right _ (List.mem_singleton.mpr rfl))
  have hevents : get (Value.sortEntries entries) "events"
      = some (.array (runExport.events.map Event.toJson)) :=
    get_json hnodup (by simp [hentries, Api.bundleFields])
  have hdigest : get (Value.sortEntries manifest) "bundle_sha256"
      = some (.string (Api.bundleSha256 crates runExport exportedAt)) :=
    get_json hnodup' (by simp [hmanifest, Api.manifestFields])
  have hsignature : get (Value.sortEntries manifest) "signature" = some (.string
      (Api.hmacSha256Hex crates signingKey
        (utf8 (Api.bundleSha256 crates runExport exportedAt)))) :=
    get_json hnodup' (by simp [hmanifest, Api.manifestFields])
  have hpayloads : ∀ event ∈ runExport.events, event.payload.Holds Integral := by
    intro event he
    obtain ⟨-, hfields⟩ := holds_json.mp hintegral
    have harray := hfields ("events", .array (runExport.events.map Event.toJson))
      (by simp [Api.bundleFields])
    have hevent := Value.holdsItems_iff.mp harray _ (List.mem_map_of_mem he)
    exact (holds_json.mp hevent).2 ("payload", event.payload) (by simp [Event.fields])
  have hverified : verifyChainFrom crates py 0 (genesis crates)
      (runExport.events.map Event.toJson) = .ok () := by
    rw [verifyEventChain, ← hgenesis] at hchain
    exact verifyChain_of_verifyEventChain hlen hpayloads hchain
  have hrecomputed : hashBytes crates (canonical py (unsigned (Value.sortEntries entries)))
      = Api.bundleSha256 crates runExport exportedAt := by
    rw [canonical_eq, canonicalJson_unsigned, canonicalJson_integral hintegral]
    rfl
  show verifyJsonBundle crates py _ (.object (Value.sortEntries entries)) = _
  rw [verifyJsonBundle, hget]
  simp only [hevents, Option.getD_some, iterate, hverified, hrecomputed, hdigest, hsignature, eqStr,
    bind, Except.bind, beq_self_eq_true, Bool.not_true, Bool.false_eq_true, if_false]
  exact verifySignature_ok hlen signingKey _

end

/-! ## What the verifier accepts -/

/-- What `json.load` makes of a JSON number: a negative `int` as such, and no NaN. -/
def Parsed : Number → Prop
  | .posInt _ => True
  | .negInt n => n < 0
  | .float bits => ¬ (bits.toNat / 2 ^ 52 % 2 ^ 11 = 2047 ∧ bits.toNat % 2 ^ 52 ≠ 0)

/-- What is assumed of the two float printers: a float is printed as a token that is no integer's,
and what both print alike is the same float. -/
structure FloatTexts (py : Runtime) (formatF64 : UInt64 → String) : Prop where
  python : ∀ bits, Parsed (.float bits) → IsToken (utf8 (py.floatstr bits)) ∧
    ∃ c ∈ (py.floatstr bits).toList, c ≠ '-' ∧ c.isDigit = false
  ledger : ∀ bits, (Number.float bits).Valid → IsToken (utf8 (formatF64 bits)) ∧
    ∃ c ∈ (formatF64 bits).toList, c ≠ '-' ∧ c.isDigit = false
  same : ∀ x y, Parsed (.float x) → (Number.float y).Valid → py.floatstr x = formatF64 y → x = y

theorem FloatTexts.tokens {py : Runtime} (h : FloatTexts py formatF64) :
    Tokens py.floatstr formatF64 Parsed Number.Valid :=
  tokens_of_floats (fun _ ha => ha) (fun _ ha => ha) h.python h.ledger h.same

theorem eqStr_iff {text : String} : eqStr value text = true ↔ value = .string text := by
  cases value <;> simp [eqStr]

/-- A bundle that is accepted has the digest that its manifest states. -/
theorem digest_of_accepted {crates : Crates} {py : Runtime} {keyFile : Option String}
    {entries manifest : List (String × Value)}
    (hmanifest : get entries "manifest" = some (.object manifest))
    (h : verifyJsonBundle crates py keyFile (.object entries) = .ok ()) :
    get manifest "bundle_sha256"
      = some (.string (hashBytes crates (canonical py (unsigned entries)))) := by
  rw [verifyJsonBundle, hmanifest] at h
  obtain ⟨events, -, h⟩ := bind_eq_ok.mp h
  obtain ⟨-, -, h⟩ := bind_eq_ok.mp h
  dsimp only at h
  split_ifs at h with hdigest
  rw [Bool.not_eq_true, Bool.not_eq_false', eqStr_iff] at hdigest
  cases hstated : get manifest "bundle_sha256" with
  | none =>
    rw [hstated] at hdigest
    cases hdigest
  | some value =>
    rw [hstated, Option.getD_some] at hdigest
    rw [hdigest]

theorem holds_unsigned {P : Number → Prop} (h : (Value.object entries).Holds P) :
    (unsigned entries).Holds P := by
  obtain ⟨hnodup, hentries⟩ := h
  have hsub : (entries.filter fun e => e.1 != "manifest").Sublist entries := List.filter_sublist
  refine ⟨hnodup.sublist (hsub.map Prod.fst), Value.holdsEntries_iff.mpr fun e he => ?_⟩
  exact Value.holdsEntries_iff.mp hentries e (hsub.subset he)

/--
**The independent verifier accepts exactly the genuine exports.** Every export whose events pass
`verify_event_chain` and whose JSON has only integers is accepted with the key that signed it. And
a bundle that is accepted, with or without a key, and whose manifest states the digest of an export
is that export apart from the manifest, as a JSON value, unless SHA-256 collides on the two.
-/
theorem verifier_exact (crates : Crates) (py : Runtime)
    (hlen : ∀ data, (crates.sha256 data).length = 32)
    (hgenesis : sha256Digest crates [] = genesisHash) (hfloats : FloatTexts py crates.formatF64) :
    (∀ (runExport : RunExport) (signingKey : List UInt8) (exportedAt : String),
      verifyEventChain crates runExport.events = true →
      (Api.bundle runExport exportedAt).Holds Integral →
      verifyJsonBundle crates py (some (hexEncode signingKey))
        (Api.renderJsonExport crates runExport signingKey exportedAt) = .ok ()) ∧
    (∀ (entries manifest : List (String × Value)) (keyFile : Option String)
      (runExport : RunExport) (exportedAt : String),
      (Value.object entries).Holds Parsed → (Api.bundle runExport exportedAt).WellFormed →
      verifyJsonBundle crates py keyFile (.object entries) = .ok () →
      get entries "manifest" = some (.object manifest) →
      get manifest "bundle_sha256"
        = some (.string (Api.bundleSha256 crates runExport exportedAt)) →
      (unsigned entries).meaning = (Api.bundle runExport exportedAt).meaning ∨
        canonical py (unsigned entries)
          ≠ canonicalJson crates.formatF64 (Api.bundle runExport exportedAt) ∧
        crates.sha256 (canonical py (unsigned entries))
          = crates.sha256 (canonicalJson crates.formatF64 (Api.bundle runExport exportedAt))) := by
  refine ⟨fun runExport signingKey exportedAt hchain hintegral =>
    verifyJsonBundle_renderJsonExport hlen hgenesis signingKey hchain hintegral, ?_⟩
  intro entries manifest keyFile runExport exportedAt hparsed hwf haccepted hmanifest hstated
  have hdigests : sha256Digest crates (canonical py (unsigned entries))
      = Api.bundleSha256 crates runExport exportedAt := by
    have hrecomputed := digest_of_accepted hmanifest haccepted
    rw [hstated] at hrecomputed
    exact (Value.string.inj (Option.some.inj hrecomputed)).symm
  by_cases hbytes : canonical py (unsigned entries)
      = canonicalJson crates.formatF64 (Api.bundle runExport exportedAt)
  · left
    refine canonicalJson_inj₂ hfloats.tokens (holds_unsigned hparsed) hwf ?_
    rw [← canonical_eq, hbytes]
  · exact .inr ⟨hbytes, sha256Digest_inj hdigests⟩

namespace Sample

/-- Python with the float printer of the sample crates. -/
def py : Runtime where
  floatstr := Ledger.Sample.floats.formatF64
  floatEqInt _ _ := false

theorem floatTexts : FloatTexts py Ledger.Sample.floats.formatF64 := by
  have htoken : ∀ bits, IsToken (utf8 (Ledger.Sample.floats.formatF64 bits)) ∧
      ∃ c ∈ (Ledger.Sample.floats.formatF64 bits).toList, c ≠ '-' ∧ c.isDigit = false := by
    intro bits
    have he := Ledger.Sample.mem_formatF64 bits
    refine ⟨isToken_of_letters ?_ (Ledger.Sample.letters_formatF64 bits), 'e', he, by decide⟩
    intro hempty
    rw [hempty] at he
    cases he
  exact ⟨fun bits _ => htoken bits, fun bits _ => htoken bits,
    fun _ _ _ _ h => Ledger.Sample.formatF64_inj h⟩

/-- One event, hashed as the ledger does. -/
def event : Event :=
  let event : Event := ⟨1, 2, 1, "step", "t1", "t1", .ofInt 3, genesisHash, ""⟩
  { event with hash := computeEventHash Ledger.Sample.floats event }

def runExport : RunExport where
  run := ⟨2, "run", "agent", .running, 1, 1, none, none, none, "t0", "t1"⟩
  effects := []
  events := [event]
  checkpoints := []

theorem verifyEventChain_runExport :
    verifyEventChain Ledger.Sample.floats runExport.events = true := by
  simp [verifyEventChain, verifyEventChainFrom, runExport, event, computeEventHash]

theorem integral_runExport : (Api.bundle runExport "t2").Holds Integral := by
  have hrun : runExport.run.toJson.Holds Integral := by
    refine holds_json.mpr ⟨by decide, ?_⟩
    simp only [List.forall_mem_cons, runExport]
    exact ⟨trivial, trivial, trivial, trivial, holds_ofInt _, holds_ofInt _, trivial, trivial,
      trivial, trivial, trivial, fun _ h => absurd h List.not_mem_nil⟩
  have hevent : event.toJson.Holds Integral := by
    refine holds_json.mpr ⟨nodup_fields event, ?_⟩
    simp only [List.forall_mem_cons, Event.fields]
    exact ⟨trivial, trivial, holds_ofInt _, trivial, trivial, trivial, holds_ofInt 3, trivial,
      trivial, fun _ h => absurd h List.not_mem_nil⟩
  refine holds_json.mpr ⟨nodup_bundleFields, ?_⟩
  simp only [List.forall_mem_cons, Api.bundleFields]
  exact ⟨trivial, trivial, hrun, trivial, ⟨hevent, trivial⟩, trivial,
    fun _ h => absurd h List.not_mem_nil⟩

theorem sha256Digest_nil : sha256Digest Ledger.Sample.floats [] = genesisHash := by
  show "sha256:" ++ hexEncode (Lib.Sha256.sha256 []) = _
  decide +kernel

end Sample

theorem verifier_exact_one_event :
    verifyJsonBundle Ledger.Sample.floats Sample.py (some (hexEncode [7]))
      (Api.renderJsonExport Ledger.Sample.floats Sample.runExport [7] "t2") = .ok () := by
  have hexact := verifier_exact Ledger.Sample.floats Sample.py Lib.Sha256.length_sha256
    Sample.sha256Digest_nil Sample.floatTexts
  exact hexact.1 Sample.runExport [7] "t2" Sample.verifyEventChain_runExport
    Sample.integral_runExport

end Calod.VerifyExport
