import Calod.Core.Error
import Calod.Ledger.Digest
import Calod.Lib.Bytes
import Calod.Lib.Codes
import Calod.Lib.Crc32c
import Calod.Lib.Map
import Calod.Lib.Transition

/-!
# The API-key store

`calod-core/src/store/api_keys.rs`: keys are created with a one-time secret of which only the
argon2 hash is kept, looked up by a fingerprint of the secret, revoked by id, and the whole
store is rewritten to `api_keys.bin` on every change.

The store is its memory together with what the file holds. A save can fail when the temporary
file is written and when it is renamed; either way the file stays as it was. What other crates
do (argon2, the fingerprint's hash, bincode) is the record `KeyCrates`.

* `StoreInner.decode_image` — what a save wrote is read back as the records it wrote
* `Session.memory_on_disk` — **as long as the last save succeeded, the file holds the records
  of the memory**, whatever failed before
* `Session.revocation_undone` — after a save that failed it does not
-/

namespace Calod.Core

open Lib Lib.Crc32c
open Calod.Ledger (Uuid hexEncode)

/-! ## Records -/

/-- A stored key. The secret itself is not part of it. -/
structure ApiKeyRecord where
  id : Uuid
  tenantId : String
  projectId : String
  /-- The argon2 text of the secret. -/
  secretHash : String
  secretFingerprint : UInt64
  scopes : Finset String
  /-- Seconds since the Unix epoch. -/
  createdAt : UInt64
  expiresAt : Option UInt64
  revoked : Bool
  deriving DecidableEq

/-- The view of a key that is handed out. -/
structure ApiKeyMetadata where
  id : Uuid
  tenantId : String
  projectId : String
  scopes : Finset String
  createdAt : UInt64
  expiresAt : Option UInt64
  revoked : Bool
  deriving DecidableEq

/-- `ApiKeyMetadata::from`. -/
def ApiKeyRecord.metadata (record : ApiKeyRecord) : ApiKeyMetadata where
  id := record.id
  tenantId := record.tenantId
  projectId := record.projectId
  scopes := record.scopes
  createdAt := record.createdAt
  expiresAt := record.expiresAt
  revoked := record.revoked

/-- What the store takes from other crates. -/
structure KeyCrates where
  /-- `fingerprint`: XxHash64 of the secret's bytes. -/
  fingerprint : String → UInt64
  /-- `SaltString::encode_b64`. -/
  encodeSalt : List UInt8 → Except String String
  /-- `Argon2::hash_password`, as text. -/
  hashPassword : String → String → Except String String
  /-- `PasswordHash::new` and `verify_password` on a stored text both succeed. -/
  verifyPassword : String → String → Bool
  /-- `bincode::serialize` and `bincode::deserialize` at `Vec<ApiKeyRecord>`. -/
  serialize : List ApiKeyRecord → Except String (List UInt8)
  deserialize : List UInt8 → Except String (List ApiKeyRecord)

/-- What `bincode` wrote, it reads back. -/
structure KeyCrates.Reads (crates : KeyCrates) : Prop where
  serialize : ∀ records, ∃ payload, crates.serialize records = .ok payload
  deserialize : ∀ records payload, crates.serialize records = .ok payload →
    crates.deserialize payload = .ok records

/-- The two tables of the store. -/
@[ext]
structure StoreInner where
  records : Map Uuid ApiKeyRecord := ∅
  byFingerprint : Map UInt64 Uuid := ∅

section

variable {crates : KeyCrates} {inner : StoreInner} {out : List UInt8} {record : ApiKeyRecord}

namespace StoreInner

/-- The two insertions that `create` and `decode` both make. -/
def insert (inner : StoreInner) (record : ApiKeyRecord) : StoreInner where
  records := inner.records.insert record.id record
  byFingerprint := inner.byFingerprint.insert record.secretFingerprint record.id

/-- What `revoke` does to the record it found. -/
def markRevoked (inner : StoreInner) (id : Uuid) (record : ApiKeyRecord) : StoreInner :=
  { inner with records := inner.records.insert id { record with revoked := true } }

/-! ## The file -/

def fileMagic : List UInt8 := [0x43, 0x4c, 0x44, 0x4b]

def fileVersion : UInt8 := 1

def headerLen : Nat := 5

/-- The bytes that `persist_locked` writes: header, payload and checksum. -/
def image (crates : KeyCrates) (inner : StoreInner) : Except PersistenceError (List UInt8) :=
  match crates.serialize inner.records.values with
  | .error message => .error (.serialization message)
  | .ok payload =>
    let out := fileMagic ++ fileVersion :: payload
    .ok (out ++ toLeBytes 4 (crc32c out).toNat)

/-- The loop at the end of `decode`. -/
def rebuild (records : List ApiKeyRecord) : StoreInner := records.foldl insert {}

def decode (crates : KeyCrates) (bytes : List UInt8) : Except PersistenceError StoreInner :=
  if bytes.length < headerLen + 4 then .error (.corruption "api-keys file too short")
  else if bytes.take 4 ≠ fileMagic then .error (.corruption "api-keys file has bad magic")
  else if bytes.getD 4 0 ≠ fileVersion then
    .error (.corruption s!"unsupported api-keys file version {bytes.getD 4 0}")
  else
    let body := bytes.take (bytes.length - 4)
    let expected := fromLeBytes (bytes.drop (bytes.length - 4))
    if (crc32c body).toNat ≠ expected then
      .error (.corruption "api-keys file checksum mismatch")
    else match crates.deserialize (body.drop headerLen) with
      | .error message => .error (.serialization message)
      | .ok records => .ok (rebuild records)

/-- `open`: a missing file is an empty store. -/
def «open» (crates : KeyCrates) : Option (List UInt8) → Except PersistenceError StoreInner
  | none => .ok {}
  | some bytes => decode crates bytes

/-- **What was written is read back as the records it was written from.** -/
theorem decode_image (hc : crates.Reads) (h : inner.image crates = .ok out) :
    decode crates out = .ok (rebuild inner.records.values) := by
  obtain ⟨payload, hp⟩ := hc.serialize inner.records.values
  simp only [image, hp, Except.ok.injEq] at h
  subst h
  set body := fileMagic ++ fileVersion :: payload with hbody
  have hlen : (body ++ toLeBytes 4 (crc32c body).toNat).length - 4 = body.length := by
    rw [List.length_append, length_toLeBytes, Nat.add_sub_cancel]
  have hcrc : fromLeBytes (toLeBytes 4 (crc32c body).toNat) = (crc32c body).toNat := by
    rw [fromLeBytes_toLeBytes]
    exact Nat.mod_eq_of_lt (crc32c body).toNat_lt
  have hlong : ¬ (body ++ toLeBytes 4 (crc32c body).toNat).length < headerLen + 4 := by
    simp [hbody, fileMagic, headerLen]
  rw [decode, if_neg hlong, if_neg (by simp [hbody, fileMagic]),
    if_neg (by simp [hbody, fileMagic])]
  simp only [hlen, List.take_left, List.drop_left, hcrc, ne_eq, not_true, if_false]
  rw [show body.drop headerLen = payload from rfl, hc.deserialize _ _ hp]

/-! ## Both tables from the records -/

/-- Every record stands under its own id. -/
def Keyed (inner : StoreInner) : Prop :=
  ∀ (id : Uuid) record, inner.records[id]? = some record → record.id = id

/-- The index leads from a fingerprint to the key that has it, and to no other. -/
def Indexed (inner : StoreInner) : Prop :=
  ∀ (fingerprint : UInt64) (id : Uuid), inner.byFingerprint[fingerprint]? = some id ↔
    ∃ record, inner.records[id]? = some record ∧ record.secretFingerprint = fingerprint

theorem keyed_empty : Keyed {} := by
  intro id record h
  rw [show (({} : StoreInner).records[id]?) = none from Map.get_empty id] at h
  cases h

theorem indexed_empty : Indexed {} := by
  intro fingerprint id
  rw [show (({} : StoreInner).byFingerprint[fingerprint]?) = none from Map.get_empty fingerprint,
    show (({} : StoreInner).records[id]?) = none from Map.get_empty id]
  simp

theorem Keyed.insert (h : inner.Keyed) (record : ApiKeyRecord) : (inner.insert record).Keyed := by
  intro id found hf
  rw [StoreInner.insert, Map.get_insert] at hf
  by_cases hid : record.id = id
  · rw [if_pos hid] at hf
    exact Option.some.inj hf ▸ hid
  · rw [if_neg hid] at hf
    exact h id found hf

theorem Keyed.markRevoked (h : inner.Keyed) {id : Uuid} (hr : inner.records[id]? = some record) :
    (inner.markRevoked id record).Keyed := by
  intro a found hf
  rw [StoreInner.markRevoked, Map.get_insert] at hf
  by_cases hid : id = a
  · rw [if_pos hid] at hf
    obtain rfl := Option.some.inj hf
    exact (h id record hr).trans hid
  · rw [if_neg hid] at hf
    exact h a found hf

/-- A key with a new id and a new fingerprint keeps the index exact. -/
theorem Indexed.insert {inner : StoreInner} (h : inner.Indexed) {record : ApiKeyRecord}
    (hid : inner.records[record.id]? = none)
    (hfp : ∀ (id : Uuid) old, inner.records[id]? = some old →
      old.secretFingerprint ≠ record.secretFingerprint) : (inner.insert record).Indexed := by
  intro fingerprint id
  rw [StoreInner.insert, Map.get_insert, Map.get_insert]
  by_cases hf : record.secretFingerprint = fingerprint
  · subst hf
    rw [if_pos rfl]
    constructor
    · intro he
      obtain rfl := Option.some.inj he
      exact ⟨record, if_pos rfl, rfl⟩
    · rintro ⟨found, hfound, hsame⟩
      by_cases he : record.id = id
      · rw [he]
      · rw [if_neg he] at hfound
        exact absurd hsame (hfp id found hfound)
  · rw [if_neg hf, h]
    constructor
    · rintro ⟨found, hfound, hsame⟩
      refine ⟨found, ?_, hsame⟩
      rw [if_neg, hfound]
      rintro rfl
      rw [hid] at hfound
      cases hfound
    · rintro ⟨found, hfound, hsame⟩
      by_cases he : record.id = id
      · rw [if_pos he] at hfound
        exact absurd (Option.some.inj hfound ▸ hsame) hf
      · exact ⟨found, by rwa [if_neg he] at hfound, hsame⟩

/-- Revoking a key changes neither its id nor its fingerprint. -/
theorem Indexed.markRevoked {inner : StoreInner} (h : inner.Indexed) {id : Uuid}
    {record : ApiKeyRecord} (hr : inner.records[id]? = some record) :
    (inner.markRevoked id record).Indexed := by
  intro fingerprint a
  rw [StoreInner.markRevoked, h, Map.get_insert]
  by_cases ha : id = a
  · subst ha
    rw [if_pos rfl, hr]
    simp
  · rw [if_neg ha]

theorem rebuild_records (inner : StoreInner) (records : List ApiKeyRecord) :
    (records.foldl insert inner).records = Map.byKey ApiKeyRecord.id inner.records records := by
  induction records generalizing inner with
  | nil => rfl
  | cons record records ih => exact ih (inner.insert record)

theorem Keyed.records_rebuild (h : inner.Keyed) :
    (rebuild inner.records.values).records = inner.records := by
  rw [rebuild, rebuild_records]
  exact Map.byKey_values h

theorem keyed_rebuild (records : List ApiKeyRecord) : (rebuild records).Keyed := by
  have h : ∀ inner, inner.Keyed → (records.foldl insert inner).Keyed := by
    induction records with
    | nil => exact fun _ hk => hk
    | cons record records ih => exact fun inner hk => ih _ (hk.insert record)
  exact h {} keyed_empty

/-- Whatever file was opened, its records stand under their ids. -/
theorem keyed_of_open {file : Option (List UInt8)} (h : StoreInner.open crates file = .ok inner) :
    inner.Keyed := by
  cases file with
  | none => exact Except.ok.inj h ▸ keyed_empty
  | some bytes =>
    obtain ⟨records, rfl⟩ : ∃ records, inner = rebuild records := by
      rw [StoreInner.open, decode] at h
      split_ifs at h
      simp only [] at h
      split_ifs at h
      split at h
      · cases h
      · exact ⟨_, (Except.ok.inj h).symm⟩
    exact keyed_rebuild records

/-- The last record of a fingerprint is the one that the index keeps; here there is one. -/
theorem get_rebuild_byFingerprint {records : List ApiKeyRecord} (fingerprint : UInt64) (id : Uuid)
    (hinj : ∀ r ∈ records, ∀ r' ∈ records, r.secretFingerprint = r'.secretFingerprint →
      r.id = r'.id) :
    (rebuild records).byFingerprint[fingerprint]? = some id ↔
      ∃ r ∈ records, r.secretFingerprint = fingerprint ∧ r.id = id := by
  -- the fold is read from its last insertion
  induction records using List.reverseRecOn with
  | nil =>
    rw [show (rebuild []).byFingerprint[fingerprint]? = none from Map.get_empty fingerprint]
    simp
  | append_singleton records last ih =>
    have ih := ih fun r hr r' hr' => hinj r (by simp [hr]) r' (by simp [hr'])
    rw [show rebuild (records ++ [last]) = (rebuild records).insert last by
      rw [rebuild, List.foldl_append]; rfl]
    rw [StoreInner.insert, Map.get_insert]
    by_cases hl : last.secretFingerprint = fingerprint
    · rw [if_pos hl]
      constructor
      · intro h
        exact ⟨last, by simp, hl, Option.some.inj h⟩
      · rintro ⟨r, hr, hf, hid⟩
        rw [← hid, hinj r hr last (by simp) (hf.trans hl.symm)]
    · rw [if_neg hl, ih]
      constructor
      · rintro ⟨r, hr, hf, hid⟩
        exact ⟨r, by simp [hr], hf, hid⟩
      · rintro ⟨r, hr, hf, hid⟩
        rcases List.mem_append.mp hr with hr | hr
        · exact ⟨r, hr, hf, hid⟩
        · obtain rfl := List.mem_singleton.mp hr
          exact absurd hf hl

/-- **A store whose tables fit together is rebuilt from its records.** -/
theorem rebuild_values (hk : inner.Keyed) (hi : inner.Indexed) :
    rebuild inner.records.values = inner := by
  have hvalues : ∀ r, r ∈ inner.records.values ↔ inner.records[r.id]? = some r := by
    intro r
    rw [Map.mem_values]
    constructor
    · rintro ⟨id, h⟩
      rwa [hk id r h]
    · exact fun h => ⟨r.id, h⟩
  have hinj : ∀ r ∈ inner.records.values, ∀ r' ∈ inner.records.values,
      r.secretFingerprint = r'.secretFingerprint → r.id = r'.id := by
    intro r hr r' hr' he
    have h := (hi r'.secretFingerprint r.id).mpr ⟨r, (hvalues r).mp hr, he⟩
    have h' := (hi r'.secretFingerprint r'.id).mpr ⟨r', (hvalues r').mp hr', rfl⟩
    rw [h] at h'
    exact Option.some.inj h'
  have hindex : (rebuild inner.records.values).byFingerprint = inner.byFingerprint := by
    refine Map.ext_get fun fingerprint => Option.ext fun id => ?_
    rw [get_rebuild_byFingerprint fingerprint id hinj, hi fingerprint id]
    constructor
    · rintro ⟨r, hr, hf, rfl⟩
      exact ⟨r, (hvalues r).mp hr, hf⟩
    · rintro ⟨r, hr, hf⟩
      exact ⟨r, Map.mem_values.mpr ⟨id, hr⟩, hf, hk id r hr⟩
  exact StoreInner.ext hk.records_rebuild hindex

/-! ## Verification -/

def secretPrefix : String := "cld_"

def startsWith (secret : String) : Bool := secretPrefix.toList.isPrefixOf secret.toList

/-- `verify`: every way to fail is the same `none`. -/
def verify (crates : KeyCrates) (inner : StoreInner) (secret : String) (now : UInt64) :
    Option ApiKeyMetadata :=
  if !startsWith secret then none
  else do
    let id ← inner.byFingerprint[crates.fingerprint secret]?
    let record ← inner.records[id]?
    if record.revoked then none
    else if record.expiresAt.any fun expiresAt => decide (expiresAt ≤ now) then none
    else if crates.verifyPassword secret record.secretHash then some record.metadata
    else none

theorem verify_eq_some {secret : String} {now : UInt64} {metadata : ApiKeyMetadata} :
    inner.verify crates secret now = some metadata ↔
      startsWith secret = true ∧ ∃ id record,
        inner.byFingerprint[crates.fingerprint secret]? = some id ∧
        inner.records[id]? = some record ∧ record.revoked = false ∧
        (∀ expiresAt, record.expiresAt = some expiresAt → now < expiresAt) ∧
        crates.verifyPassword secret record.secretHash = true ∧ record.metadata = metadata := by
  rw [verify]
  by_cases hs : startsWith secret = true
  · simp only [hs, Bool.not_true, Bool.false_eq_true, if_false, true_and,
      Option.bind_eq_bind, Option.bind_eq_some_iff]
    refine exists_congr fun id => ?_
    rw [← exists_and_left]
    refine exists_congr fun record => and_congr_right fun _ => and_congr_right fun _ => ?_
    cases record.revoked <;> cases record.expiresAt <;>
      cases crates.verifyPassword secret record.secretHash <;> simp
  · simp [hs]

end StoreInner

/-! ## Creating, revoking and saving -/

/-- Where a save fails, with the error of the file system. -/
inductive SaveFault where
  | write (message : String)
  | rename (message : String)

/-- The store: its memory and what `api_keys.bin` holds. -/
structure ApiKeyStore where
  inner : StoreInner := {}
  file : Option (List UInt8) := none

/-- What a call to `create` draws: random bytes, the key's id and the time. -/
structure CreateDraw where
  random : List UInt8
  salt : List UInt8
  id : Uuid
  now : UInt64

/-- The one-time secret of a draw. -/
def CreateDraw.secret (draw : CreateDraw) : String :=
  StoreInner.secretPrefix ++ hexEncode draw.random

/-- The arguments of `create`. -/
structure KeyRequest where
  tenantId : String
  projectId : String
  scopes : Finset String
  expiresAt : Option UInt64

/-- The part of `create` before the store is locked. -/
def newRecord (crates : KeyCrates) (request : KeyRequest) (draw : CreateDraw) :
    Except PersistenceError ApiKeyRecord :=
  match crates.encodeSalt draw.salt with
  | .error message => .error (.corruption ("salt encode failed: " ++ message))
  | .ok salt =>
    match crates.hashPassword draw.secret salt with
    | .error message => .error (.corruption ("argon2 hash failed: " ++ message))
    | .ok secretHash => .ok
      { id := draw.id
        tenantId := request.tenantId
        projectId := request.projectId
        secretHash
        secretFingerprint := crates.fingerprint draw.secret
        scopes := request.scopes
        createdAt := draw.now
        expiresAt := request.expiresAt
        revoked := false }

namespace ApiKeyStore

/-- `persist_locked`: the file is replaced by the rename alone. -/
def persistLocked (crates : KeyCrates) (fault : Option SaveFault) (store : ApiKeyStore) :
    Except PersistenceError Unit × ApiKeyStore :=
  match store.inner.image crates with
  | .error error => (.error error, store)
  | .ok out =>
    match fault with
    | some (.write message) => (.error (.io message), store)
    | some (.rename message) => (.error (.io message), store)
    | none => (.ok (), { store with file := some out })

/-- `create`. The tables are changed before the save, whose failure is only reported. -/
def create (crates : KeyCrates) (request : KeyRequest) (draw : CreateDraw)
    (fault : Option SaveFault) (store : ApiKeyStore) :
    Except PersistenceError (ApiKeyMetadata × String) × ApiKeyStore :=
  match newRecord crates request draw with
  | .error error => (.error error, store)
  | .ok record =>
    match persistLocked crates fault { store with inner := store.inner.insert record } with
    | (.error error, store) => (.error error, store)
    | (.ok (), store) => (.ok (record.metadata, draw.secret), store)

/-- `revoke`. -/
def revoke (crates : KeyCrates) (id : Uuid) (fault : Option SaveFault) (store : ApiKeyStore) :
    Except PersistenceError Bool × ApiKeyStore :=
  match store.inner.records[id]? with
  | none => (.ok false, store)
  | some record =>
    match persistLocked crates fault
      { store with inner := store.inner.markRevoked id record } with
    | (.error error, store) => (.error error, store)
    | (.ok (), store) => (.ok true, store)

/-- A restart. -/
def reopen (crates : KeyCrates) (store : ApiKeyStore) : Except PersistenceError ApiKeyStore :=
  match StoreInner.open crates store.file with
  | .error error => .error error
  | .ok inner => .ok { store with inner }

end ApiKeyStore

/-! ## Sessions -/

/-- A call on the store, with the fault that its save meets. -/
inductive KeyCall where
  | create (request : KeyRequest) (draw : CreateDraw) (fault : Option SaveFault)
  | revoke (id : Uuid) (fault : Option SaveFault)
  | verify (secret : String) (now : UInt64)
  | reopen

/-- What a caller was told. -/
inductive KeyEvent where
  | created (metadata : ApiKeyMetadata) (secret : String)
  | revoked (id : Uuid)
  deriving DecidableEq

/-- The errors of `create` and `revoke` that come from the save. -/
def PersistenceError.ofSave : PersistenceError → Bool
  | .corruption _ => false
  | _ => true

/-- The store with its history. -/
structure Session where
  store : ApiKeyStore := {}
  log : List KeyEvent := []
  /-- A save has failed since the last one that succeeded. -/
  unsaved : Bool := false

namespace Session

def step (crates : KeyCrates) (s : Session) : KeyCall → Option Session
  | .create request draw fault =>
    match s.store.create crates request draw fault with
    | (.ok (metadata, secret), store) =>
      some { store, log := s.log ++ [.created metadata secret], unsaved := false }
    | (.error error, store) => some { s with store, unsaved := s.unsaved || error.ofSave }
  | .revoke id fault =>
    match s.store.revoke crates id fault with
    | (.ok true, store) => some { store, log := s.log ++ [.revoked id], unsaved := false }
    | (.ok false, store) => some { s with store }
    | (.error error, store) => some { s with store, unsaved := s.unsaved || error.ofSave }
  | .verify _ _ => some s
  | .reopen =>
    match s.store.reopen crates with
    | .error _ => none
    | .ok store => some { s with store, unsaved := false }

/-- All that a call can do. -/
inductive Moves (crates : KeyCrates) (s : Session) : KeyCall → Session → Prop where
  | created {request : KeyRequest} {draw : CreateDraw} {record : ApiKeyRecord} {out : List UInt8} :
      newRecord crates request draw = .ok record →
      (s.store.inner.insert record).image crates = .ok out →
      Moves crates s (.create request draw none)
        { store := { inner := s.store.inner.insert record, file := some out }
          log := s.log ++ [.created record.metadata draw.secret], unsaved := false }
  | revoked {id : Uuid} {record : ApiKeyRecord} {out : List UInt8} :
      s.store.inner.records[id]? = some record →
      (s.store.inner.markRevoked id record).image crates = .ok out →
      Moves crates s (.revoke id none)
        { store := { inner := s.store.inner.markRevoked id record, file := some out }
          log := s.log ++ [.revoked id], unsaved := false }
  | createFailed {request : KeyRequest} {draw : CreateDraw} {fault : Option SaveFault}
      {record : ApiKeyRecord} : newRecord crates request draw = .ok record →
      (fault = none → ∃ error, (s.store.inner.insert record).image crates = .error error) →
      Moves crates s (.create request draw fault)
        { s with
          store := { s.store with inner := s.store.inner.insert record }, unsaved := true }
  | revokeFailed {id : Uuid} {fault : Option SaveFault} {record : ApiKeyRecord} :
      s.store.inner.records[id]? = some record →
      (fault = none → ∃ error, (s.store.inner.markRevoked id record).image crates = .error error) →
      Moves crates s (.revoke id fault)
        { s with
          store := { s.store with inner := s.store.inner.markRevoked id record }, unsaved := true }
  | idle {call : KeyCall} : Moves crates s call s
  | reopened {inner : StoreInner} : StoreInner.open crates s.store.file = .ok inner →
      Moves crates s .reopen { s with store := { s.store with inner }, unsaved := false }

theorem persistLocked_cases (crates : KeyCrates) (fault : Option SaveFault) (store : ApiKeyStore) :
    (∃ out, fault = none ∧ store.inner.image crates = .ok out ∧
      store.persistLocked crates fault = (.ok (), { store with file := some out })) ∨
    (∃ error, error.ofSave = true ∧
      (fault = none → ∃ error, store.inner.image crates = .error error) ∧
      store.persistLocked crates fault = (.error error, store)) := by
  rw [ApiKeyStore.persistLocked]
  cases himage : store.inner.image crates with
  | error error =>
    refine .inr ⟨error, ?_, fun _ => ⟨error, rfl⟩, rfl⟩
    rw [StoreInner.image] at himage
    split at himage
    · obtain rfl := Except.error.inj himage
      rfl
    · cases himage
  | ok out =>
    cases fault with
    | none => exact .inl ⟨out, rfl, rfl, rfl⟩
    | some fault =>
      cases fault with
      | write message | rename message => exact .inr ⟨.io message, rfl, nofun, rfl⟩

theorem newRecord_error {request : KeyRequest} {draw : CreateDraw} {error : PersistenceError}
    (h : newRecord crates request draw = .error error) : error.ofSave = false := by
  rw [newRecord] at h
  split at h
  · obtain rfl := Except.error.inj h
    rfl
  · split at h
    · obtain rfl := Except.error.inj h
      rfl
    · cases h

theorem step_moves {s s' : Session} {call : KeyCall} (h : step crates s call = some s') :
    Moves crates s call s' := by
  cases call with
  | create request draw fault =>
    rw [step, ApiKeyStore.create] at h
    cases hrecord : newRecord crates request draw with
    | error error =>
      simp only [hrecord, newRecord_error hrecord, Bool.or_false, Option.some.injEq] at h
      exact h ▸ .idle
    | ok record =>
      rcases persistLocked_cases crates fault
        { s.store with inner := s.store.inner.insert record } with
        ⟨out, rfl, himage, hsave⟩ | ⟨error, hof, hfault, hsave⟩
      · simp only [hrecord, hsave, Option.some.injEq] at h
        exact h ▸ .created hrecord himage
      · simp only [hrecord, hsave, hof, Bool.or_true, Option.some.injEq] at h
        exact h ▸ .createFailed hrecord hfault
  | revoke id fault =>
    rw [step, ApiKeyStore.revoke] at h
    cases hrecord : s.store.inner.records[id]? with
    | none =>
      simp only [hrecord, Option.some.injEq] at h
      exact h ▸ .idle
    | some record =>
      rcases persistLocked_cases crates fault
        { s.store with inner := s.store.inner.markRevoked id record } with
        ⟨out, rfl, himage, hsave⟩ | ⟨error, hof, hfault, hsave⟩
      · simp only [hrecord, hsave, Option.some.injEq] at h
        exact h ▸ .revoked hrecord himage
      · simp only [hrecord, hsave, hof, Bool.or_true, Option.some.injEq] at h
        exact h ▸ .revokeFailed hrecord hfault
  | verify secret now => exact Option.some.inj h ▸ .idle
  | reopen =>
    rw [step, ApiKeyStore.reopen] at h
    cases hopen : StoreInner.open crates s.store.file with
    | error error => simp only [hopen, reduceCtorEq] at h
    | ok inner =>
      simp only [hopen, Option.some.injEq] at h
      exact h ▸ .reopened hopen

/-! ## Memory and disk -/

/-- The file can be read, and holds the records of the memory unless a save has failed. -/
structure Saved (crates : KeyCrates) (s : Session) : Prop where
  keyed : s.store.inner.Keyed
  file : ∃ loaded, StoreInner.open crates s.store.file = .ok loaded ∧ loaded.Keyed ∧
    (s.unsaved = false → loaded.records = s.store.inner.records)

/-- A save that succeeds makes up for every one that failed before. -/
theorem Saved.of_image (hc : crates.Reads) {log : List KeyEvent} (hk : inner.Keyed)
    (h : inner.image crates = .ok out) :
    Saved crates { store := { inner, file := some out }, log, unsaved := false } where
  keyed := hk
  file := by
    refine ⟨StoreInner.rebuild inner.records.values, StoreInner.decode_image hc h, ?_, ?_⟩
    · intro id record hr
      rw [hk.records_rebuild] at hr
      exact hk id record hr
    · exact fun _ => hk.records_rebuild

theorem Saved.step (hc : crates.Reads) {s s' : Session} {call : KeyCall} (hs : Saved crates s)
    (h : step crates s call = some s') : Saved crates s' := by
  obtain ⟨loaded, hopen, hloaded, -⟩ := hs.file
  cases step_moves h with
  | created hrecord himage => exact .of_image hc (hs.keyed.insert _) himage
  | revoked hrecord himage => exact .of_image hc (hs.keyed.markRevoked hrecord) himage
  | createFailed hrecord => exact ⟨hs.keyed.insert _, loaded, hopen, hloaded, nofun⟩
  | revokeFailed hrecord => exact ⟨hs.keyed.markRevoked hrecord, loaded, hopen, hloaded, nofun⟩
  | idle => exact hs
  | reopened hreopen =>
    rw [hopen] at hreopen
    obtain rfl := Except.ok.inj hreopen
    exact ⟨hloaded, loaded, hopen, hloaded, fun _ => rfl⟩

/-- **Memory and disk agree as long as the last save succeeded**: from the opening of any file
on, whatever the calls, draws and faults, if no save has failed since the last one that
succeeded then opening the file gives the records in memory, revoked flags included. -/
theorem memory_on_disk {crates : KeyCrates} (hc : crates.Reads) (store : ApiKeyStore)
    (hopen : StoreInner.open crates store.file = .ok store.inner) {s : Session}
    (hr : Reach (step crates) (fun _ _ => True) { store } s) (hsaved : s.unsaved = false) :
    ∃ loaded, StoreInner.open crates s.store.file = .ok loaded ∧
      loaded.records = s.store.inner.records := by
  have hk := StoreInner.keyed_of_open hopen
  have hsaves : Saved crates s :=
    hr.invariant ⟨hk, _, hopen, hk, fun _ => rfl⟩ fun _ _ _ hi _ h => hi.step hc h
  obtain ⟨loaded, hloaded, -, hsame⟩ := hsaves.file
  exact ⟨loaded, hloaded, hsame hsaved⟩

end Session

/-! ## A save that fails -/

end

namespace Sample

/-! A codec for the records, in place of `bincode`. -/

def text (s : String) : List Nat := s.toList.map Char.toNat

def ofText (codes : List Nat) : String := String.ofList (codes.map Char.ofNat)

theorem ofText_text (s : String) : ofText (text s) = s := by
  simp [ofText, text, Function.comp_def]

abbrev Row := Nat × Nat × Nat × Nat × List Nat × List (List Nat)

/-- The fields of a record: numbers, the expiry, and the texts with the scopes at the end. -/
def row (r : ApiKeyRecord) : Row :=
  (r.id.toNat, r.secretFingerprint.toNat, r.createdAt.toNat, r.revoked.toNat,
    r.expiresAt.toList.map UInt64.toNat,
    text r.tenantId :: text r.projectId :: text r.secretHash :: (r.scopes.sort (· ≤ ·)).map text)

def ofRow : Row → Option ApiKeyRecord
  | (id, fingerprint, createdAt, revoked, expiresAt, tenantId :: projectId :: hash :: scopes) =>
    some
      { id := BitVec.ofNat 128 id
        tenantId := ofText tenantId
        projectId := ofText projectId
        secretHash := ofText hash
        secretFingerprint := UInt64.ofNat fingerprint
        scopes := (scopes.map ofText).toFinset
        createdAt := UInt64.ofNat createdAt
        expiresAt := (expiresAt.map UInt64.ofNat).head?
        revoked := revoked == 1 }
  | _ => none

theorem ofRow_row (r : ApiKeyRecord) : ofRow (row r) = some r := by
  obtain ⟨id, tenantId, projectId, hash, fingerprint, scopes, createdAt, expiresAt, revoked⟩ := r
  cases expiresAt <;> cases revoked <;>
    simp [ofRow, row, ofText_text, Function.comp_def]

def rows : Codec (List Row) :=
  .list (.pair .nat (.pair .nat (.pair .nat (.pair .nat
    (.pair (.list .nat) (.list (.list .nat)))))))

def deserialize (payload : List UInt8) : Except String (List ApiKeyRecord) :=
  match rows.read payload with
  | some (rows, []) => .ok (rows.filterMap ofRow)
  | _ => .error "corrupt"

theorem deserialize_write (records : List ApiKeyRecord) :
    deserialize (rows.write (records.map row)) = .ok records := by
  have hread := rows.read_write (records.map row) []
  rw [List.append_nil] at hread
  rw [deserialize, hread]
  simp [List.filterMap_map, ofRow_row]

/-- A key is its own hash, and its fingerprint is its length. -/
def crates : KeyCrates where
  fingerprint secret := UInt64.ofNat secret.length
  encodeSalt _ := .ok ""
  hashPassword secret _ := .ok secret
  verifyPassword secret hash := secret == hash
  serialize records := .ok (rows.write (records.map row))
  deserialize

theorem crates_reads : crates.Reads where
  serialize records := ⟨rows.write (records.map row), rfl⟩
  deserialize records payload h := by
    obtain rfl := Except.ok.inj h
    exact deserialize_write records

def request : KeyRequest where
  tenantId := "acme"
  projectId := "billing"
  scopes := {"effects:read"}
  expiresAt := some 1000

def draw : CreateDraw where
  random := List.replicate 32 0
  salt := List.replicate 16 0
  id := 1
  now := 10

def record : ApiKeyRecord where
  id := 1
  tenantId := "acme"
  projectId := "billing"
  secretHash := draw.secret
  secretFingerprint := 68
  scopes := {"effects:read"}
  createdAt := 10
  expiresAt := some 1000
  revoked := false

/-- The memory after the key was created. -/
def inner : StoreInner := ({} : StoreInner).insert record

theorem keyed_inner : inner.Keyed := StoreInner.keyed_empty.insert record

theorem indexed_inner : inner.Indexed := by
  refine StoreInner.indexed_empty.insert (Map.get_empty _) ?_
  intro id old h
  rw [show (({} : StoreInner).records[id]?) = none from Map.get_empty id] at h
  cases h

theorem newRecord_eq : newRecord crates request draw = .ok record := by
  rfl

/-- The file after the key was created. -/
def file : List UInt8 :=
  let payload := rows.write (inner.records.values.map row)
  let out := StoreInner.fileMagic ++ StoreInner.fileVersion :: payload
  out ++ toLeBytes 4 (crc32c out).toNat

theorem image_inner : inner.image crates = .ok file := rfl

theorem open_file : StoreInner.open crates (some file) = .ok inner := by
  rw [StoreInner.open, StoreInner.decode_image crates_reads image_inner,
    StoreInner.rebuild_values keyed_inner indexed_inner]

/-- The session in which the key was created. -/
def created : Session where
  store := { inner, file := some file }
  log := [.created record.metadata draw.secret]

theorem step_create : Session.step crates {} (.create request draw none) = some created := by
  rw [Session.step, ApiKeyStore.create, newRecord_eq]
  rfl

/-- The session in which the key's revocation could not be saved. -/
def revokeFailed : Session where
  store := { inner := inner.markRevoked 1 record, file := some file }
  log := [.created record.metadata draw.secret]
  unsaved := true

theorem step_revoke :
    Session.step crates created (.revoke 1 (some (.rename "no space left"))) =
      some revokeFailed := by
  have hrecord : created.store.inner.records[(1 : Uuid)]? = some record :=
    Map.get_insert_self _ _ _
  rw [Session.step, ApiKeyStore.revoke, hrecord]
  rfl

end Sample

/-- The condition is met after a key was created: the file holds it. -/
theorem Session.memory_on_disk_created :
    ∃ loaded, StoreInner.open Sample.crates Sample.created.store.file = .ok loaded ∧
      loaded.records = Sample.created.store.inner.records :=
  Session.memory_on_disk Sample.crates_reads {} rfl
    (.step .init trivial Sample.step_create) rfl

/-- A revocation whose save failed is undone by a restart: in memory the key is revoked and
rejected, and the file still holds it as valid. -/
theorem Session.revocation_undone :
    ∃ s, Reach (Session.step Sample.crates) (fun _ _ => True) {} s ∧
      s.store.inner.verify Sample.crates Sample.draw.secret 20 = none ∧
      ∃ loaded, StoreInner.open Sample.crates s.store.file = .ok loaded ∧
        loaded.records ≠ s.store.inner.records ∧
        loaded.verify Sample.crates Sample.draw.secret 20 = some Sample.record.metadata := by
  refine ⟨Sample.revokeFailed, .step (.step .init trivial Sample.step_create) trivial
    Sample.step_revoke, by decide +kernel, Sample.inner, Sample.open_file, ?_, by decide +kernel⟩
  intro h
  have hrevoked := congrArg (fun records : Map Uuid ApiKeyRecord =>
    records[(1 : Uuid)]?.map ApiKeyRecord.revoked) h
  revert hrevoked
  decide +kernel

end Calod.Core
