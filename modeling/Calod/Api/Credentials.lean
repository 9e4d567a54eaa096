import Calod.Core.ApiKeys

/-!
# Live keys

`verify` of the key store, by which `calod-api/src/auth.rs` admits a request: it answers with the
key whose secret the request carries.

A session of the store keeps what its callers were told. When no save fails, argon2 accepts
exactly the secret that was hashed, and ids and fingerprints are drawn new, the tables of the
store say of every key what the callers were told (`Told`), in memory as well as after a restart.

* `Session.verify_iff_live` — **a secret is accepted exactly if it is that of a live key**
-/

namespace Calod.Core

open Lib StoreInner
open Calod.Ledger (Uuid)

/-- argon2 accepts exactly the secret that was hashed. -/
def KeyCrates.HashExact (crates : KeyCrates) : Prop :=
  ∀ salt secret hash, crates.hashPassword secret salt = .ok hash →
    ∀ presented, crates.verifyPassword presented hash = true ↔ presented = secret

/-- A call in a run without I/O failures. A key's id and fingerprint are drawn new. -/
def KeyCall.Regular (crates : KeyCrates) (s : Session) : KeyCall → Prop
  | .create _ draw fault => fault = none ∧ ∀ metadata secret, .created metadata secret ∈ s.log →
      metadata.id ≠ draw.id ∧ crates.fingerprint secret ≠ crates.fingerprint draw.secret
  | .revoke _ fault => fault = none
  | _ => True

/-- The key that `metadata` describes was returned with `secret`, has not been revoked, and has
not expired at `now`. -/
structure KeyEvent.Live (log : List KeyEvent) (secret : String) (now : UInt64)
    (metadata : ApiKeyMetadata) : Prop where
  created : .created metadata secret ∈ log
  kept : .revoked metadata.id ∉ log
  unexpired : ∀ expiresAt, metadata.expiresAt = some expiresAt → now < expiresAt

/-- What the record of a key says, against what its creator and revoker were told. -/
structure ApiKeyRecord.Of (crates : KeyCrates) (log : List KeyEvent) (record : ApiKeyRecord)
    (metadata : ApiKeyMetadata) (secret : String) : Prop where
  describes : { record.metadata with revoked := false } = metadata
  revoked : record.revoked = true ↔ .revoked metadata.id ∈ log
  fingerprint : record.secretFingerprint = crates.fingerprint secret
  hash : ∀ presented, crates.verifyPassword presented record.secretHash = true ↔ presented = secret
  startsWith : StoreInner.startsWith secret = true

variable {metadata : ApiKeyMetadata} {record : ApiKeyRecord} {out : List UInt8} {draw : CreateDraw}
  {request : KeyRequest}

/-- The record of a key keeps saying what was told when other things are told. -/
theorem ApiKeyRecord.Of.congr {crates : KeyCrates} {log log' : List KeyEvent} {secret : String}
    (h : record.Of crates log metadata secret)
    (hlog : .revoked metadata.id ∈ log' ↔ .revoked metadata.id ∈ log) :
    record.Of crates log' metadata secret :=
  ⟨h.describes, h.revoked.trans hlog.symm, h.fingerprint, h.hash, h.startsWith⟩

namespace Session

/-- The store holds exactly the keys that were returned, and the file the same. -/
structure Told (crates : KeyCrates) (s : Session) : Prop where
  keyed : s.store.inner.Keyed
  indexed : s.store.inner.Indexed
  recorded : ∀ metadata secret, .created metadata secret ∈ s.log →
    ∃ record, s.store.inner.records[metadata.id]? = some record ∧
      record.Of crates s.log metadata secret
  returned : ∀ (id : Uuid) record, s.store.inner.records[id]? = some record →
    ∃ metadata secret, .created metadata secret ∈ s.log ∧ metadata.id = id
  revoked : ∀ id : Uuid, .revoked id ∈ s.log → ∃ record, s.store.inner.records[id]? = some record
  file : StoreInner.open crates s.store.file = .ok s.store.inner

theorem told_empty (crates : KeyCrates) : Told crates {} where
  keyed := keyed_empty
  indexed := indexed_empty
  recorded := nofun
  returned := by
    intro id record h
    rw [show (({} : Session).store.inner.records[id]?) = none from Map.get_empty id] at h
    cases h
  revoked := nofun
  file := rfl

/-- What a save of the memory leaves in the file. -/
theorem open_of_image {crates : KeyCrates} (hc : crates.Reads) {inner : StoreInner}
    (hk : inner.Keyed) (hi : inner.Indexed) (h : inner.image crates = .ok out) :
    StoreInner.open crates (some out) = .ok inner := by
  rw [StoreInner.open, decode_image hc h, rebuild_values hk hi]

theorem newRecord_ok {crates : KeyCrates} (hh : crates.HashExact)
    (h : newRecord crates request draw = .ok record) :
    record.id = draw.id ∧ record.revoked = false ∧
      record.secretFingerprint = crates.fingerprint draw.secret ∧
      ∀ presented, crates.verifyPassword presented record.secretHash = true ↔
        presented = draw.secret := by
  rw [newRecord] at h
  split at h
  · cases h
  · split at h
    · cases h
    · next hash hhash =>
      obtain rfl := Except.ok.inj h
      exact ⟨rfl, rfl, rfl, hh _ _ _ hhash⟩

theorem startsWith_secret (draw : CreateDraw) : StoreInner.startsWith draw.secret = true := by
  simp [StoreInner.startsWith, CreateDraw.secret, String.toList_append]

variable {crates : KeyCrates} {s s' : Session}

theorem Told.created (hc : crates.Reads) (hh : crates.HashExact) (hs : Told crates s)
    {request : KeyRequest} {draw : CreateDraw} {record : ApiKeyRecord} {out : List UInt8}
    (hnew : ∀ metadata secret, .created metadata secret ∈ s.log →
      metadata.id ≠ draw.id ∧ crates.fingerprint secret ≠ crates.fingerprint draw.secret)
    (hrecord : newRecord crates request draw = .ok record)
    (himage : (s.store.inner.insert record).image crates = .ok out) :
    Told crates
      { store := { inner := s.store.inner.insert record, file := some out }
        log := s.log ++ [.created record.metadata draw.secret], unsaved := false } := by
  obtain ⟨hid, hrev, hfp, hhash⟩ := newRecord_ok hh hrecord
  have hfree : s.store.inner.records[record.id]? = none := by
    cases hold : s.store.inner.records[record.id]? with
    | none => rfl
    | some old =>
      obtain ⟨metadata, secret, hmem, hsame⟩ := hs.returned _ _ hold
      exact absurd (hsame.trans hid) (hnew metadata secret hmem).1
  have hfresh : ∀ (id : Uuid) old, s.store.inner.records[id]? = some old →
      old.secretFingerprint ≠ record.secretFingerprint := by
    intro id old hold
    obtain ⟨metadata, secret, hmem, rfl⟩ := hs.returned _ _ hold
    obtain ⟨found, hfound, hof⟩ := hs.recorded metadata secret hmem
    rw [hold] at hfound
    obtain rfl := Option.some.inj hfound
    rw [hof.fingerprint, hfp]
    exact (hnew metadata secret hmem).2
  have hkeyed := hs.keyed.insert record
  have hindexed := hs.indexed.insert hfree hfresh
  have hget : ∀ id, (s.store.inner.insert record).records[id]? =
      if record.id = id then some record else s.store.inner.records[id]? :=
    fun id => Map.get_insert _ _ _ _
  refine ⟨hkeyed, hindexed, ?_, ?_, ?_, open_of_image hc hkeyed hindexed himage⟩
  · intro metadata secret hmem
    have hlog : ∀ id, KeyEvent.revoked id ∈
        s.log ++ [.created record.metadata draw.secret] ↔ KeyEvent.revoked id ∈ s.log := by simp
    rcases List.mem_append.mp hmem with hmem | hmem
    · obtain ⟨found, hfound, hof⟩ := hs.recorded metadata secret hmem
      refine ⟨found, ?_, hof.congr (hlog _)⟩
      rw [hget, if_neg, hfound]
      exact fun he => (hnew metadata secret hmem).1 (he.symm.trans hid)
    · obtain ⟨rfl, rfl⟩ : metadata = record.metadata ∧ secret = draw.secret := by simpa using hmem
      refine ⟨record, (hget _).trans (if_pos rfl), ⟨?_, ?_, hfp, hhash, startsWith_secret draw⟩⟩
      · rw [← hrev]
        rfl
      · -- an id that no key had cannot have been revoked
        rw [hrev, hlog]
        refine ⟨nofun, fun hr => ?_⟩
        obtain ⟨old, hold⟩ := hs.revoked _ hr
        rw [show record.metadata.id = record.id from rfl, hfree] at hold
        cases hold
  · intro id found hfound
    rw [hget] at hfound
    by_cases he : record.id = id
    · exact ⟨record.metadata, draw.secret, by simp, he⟩
    · rw [if_neg he] at hfound
      obtain ⟨metadata, secret, hmem, hsame⟩ := hs.returned id found hfound
      exact ⟨metadata, secret, by simp [hmem], hsame⟩
  · intro id hr
    obtain ⟨old, hold⟩ := hs.revoked id (by simpa using hr)
    rw [hget]
    by_cases he : record.id = id
    · exact ⟨record, if_pos he⟩
    · exact ⟨old, by rw [if_neg he, hold]⟩

theorem Told.revoked_step (hc : crates.Reads) (hs : Told crates s) {id : Uuid}
    (hrecord : s.store.inner.records[id]? = some record)
    (himage : (s.store.inner.markRevoked id record).image crates = .ok out) :
    Told crates
      { store := { inner := s.store.inner.markRevoked id record, file := some out }
        log := s.log ++ [.revoked id], unsaved := false } := by
  have hkeyed := hs.keyed.markRevoked hrecord
  have hindexed := hs.indexed.markRevoked hrecord
  have hget : ∀ a, (s.store.inner.markRevoked id record).records[a]? =
      if id = a then some { record with revoked := true } else s.store.inner.records[a]? :=
    fun a => Map.get_insert _ _ _ _
  refine ⟨hkeyed, hindexed, ?_, ?_, ?_, open_of_image hc hkeyed hindexed himage⟩
  · intro metadata secret hmem
    obtain ⟨found, hfound, hof⟩ := hs.recorded metadata secret (by simpa using hmem)
    rw [hget]
    by_cases he : id = metadata.id
    · rw [← he, hrecord] at hfound
      obtain rfl := Option.some.inj hfound
      refine ⟨_, if_pos he, ⟨hof.describes, ?_, hof.fingerprint, hof.hash, hof.startsWith⟩⟩
      simp [he]
    · refine ⟨found, (if_neg he).trans hfound, hof.congr ?_⟩
      simp [Ne.symm he]
  · intro a found hfound
    rw [hget] at hfound
    by_cases he : id = a
    · obtain ⟨metadata, secret, hmem, hsame⟩ := hs.returned id record hrecord
      exact ⟨metadata, secret, by simp [hmem], hsame.trans he⟩
    · rw [if_neg he] at hfound
      obtain ⟨metadata, secret, hmem, hsame⟩ := hs.returned a found hfound
      exact ⟨metadata, secret, by simp [hmem], hsame⟩
  · intro a hr
    rw [hget]
    by_cases he : id = a
    · exact ⟨_, if_pos he⟩
    · obtain ⟨old, hold⟩ := hs.revoked a (by simpa [Ne.symm he] using hr)
      exact ⟨old, by rw [if_neg he, hold]⟩

theorem Told.step (hc : crates.Reads) (hh : crates.HashExact) (hs : Told crates s) {call : KeyCall}
    (hp : call.Regular crates s) (h : step crates s call = some s') : Told crates s' := by
  have himages : ∀ inner : StoreInner, ∃ out, inner.image crates = .ok out := by
    intro inner
    obtain ⟨payload, hpayload⟩ := hc.serialize inner.records.values
    exact ⟨_, by rw [image, hpayload]⟩
  cases step_moves h with
  | created hrecord himage => exact hs.created hc hh hp.2 hrecord himage
  | revoked hrecord himage => exact hs.revoked_step hc hrecord himage
  | createFailed hrecord hfault =>
    obtain ⟨error, herror⟩ := hfault hp.1
    obtain ⟨out, hout⟩ := himages _
    rw [hout] at herror
    cases herror
  | revokeFailed hrecord hfault =>
    obtain ⟨error, herror⟩ := hfault hp
    obtain ⟨out, hout⟩ := himages _
    rw [hout] at herror
    cases herror
  | idle => exact hs
  | reopened hopen =>
    rw [hs.file] at hopen
    obtain rfl := Except.ok.inj hopen
    exact ⟨hs.keyed, hs.indexed, hs.recorded, hs.returned, hs.revoked, hs.file⟩

theorem Told.of_reach (hc : crates.Reads) (hh : crates.HashExact)
    (hr : Reach (Session.step crates) (fun s call => call.Regular crates s) {} s) :
    Told crates s :=
  hr.invariant (told_empty crates) fun _ _ _ hs hp h => hs.step hc hh hp h

theorem Told.verify_eq_some (hs : Told crates s) {secret : String} {now : UInt64} :
    s.store.inner.verify crates secret now = some metadata ↔
      KeyEvent.Live s.log secret now metadata := by
  rw [StoreInner.verify_eq_some]
  constructor
  · rintro ⟨-, id, record, -, hrecord, hrev, hexp, hhash, rfl⟩
    obtain ⟨metadata, created, hmem, rfl⟩ := hs.returned id record hrecord
    obtain ⟨found, hfound, hof⟩ := hs.recorded metadata created hmem
    rw [hrecord] at hfound
    obtain rfl := Option.some.inj hfound
    -- argon2 says that the secret presented is the one that was returned
    obtain rfl := (hof.hash secret).mp hhash
    have hmeta : metadata = record.metadata := by
      rw [← hof.describes, ← hrev]
      rfl
    subst hmeta
    refine ⟨hmem, fun hr => ?_, hexp⟩
    rw [hof.revoked.mpr hr] at hrev
    cases hrev
  · rintro ⟨hmem, hkept, hexp⟩
    obtain ⟨record, hrecord, hof⟩ := hs.recorded metadata secret hmem
    have hrev : record.revoked = false := by
      cases hr : record.revoked with
      | false => rfl
      | true => exact absurd (hof.revoked.mp hr) hkept
    have hmeta : record.metadata = metadata := by
      rw [← hof.describes, ← hrev]
      rfl
    refine ⟨hof.startsWith, metadata.id, record, ?_, hrecord, hrev, ?_, ?_, hmeta⟩
    · exact (hs.indexed _ _).mpr ⟨record, hrecord, hof.fingerprint⟩
    · rw [← hmeta] at hexp
      exact hexp
    · exact (hof.hash secret).mpr rfl

/-- **API keys admit exactly the live credentials**: in every session without I/O failures, at
every time, a secret is accepted exactly if it was returned by an earlier `create` whose key has
not been revoked and has not expired, and what is returned is that key's metadata. The store can
be reopened at any point, and stays as it is. -/
theorem verify_iff_live (hc : crates.Reads) (hh : crates.HashExact)
    (hr : Reach (step crates) (fun s call => call.Regular crates s) {} s) :
    (∀ (secret : String) (now : UInt64) (metadata : ApiKeyMetadata),
      s.store.inner.verify crates secret now = some metadata ↔
        KeyEvent.Live s.log secret now metadata) ∧
    ∃ s', step crates s .reopen = some s' ∧ s'.store = s.store ∧ s'.log = s.log := by
  have hs := Told.of_reach hc hh hr
  refine ⟨fun secret now metadata => hs.verify_eq_some, ?_⟩
  refine ⟨{ s with unsaved := false }, ?_, rfl, rfl⟩
  rw [step, ApiKeyStore.reopen, hs.file]

end Session

namespace Sample

theorem crates_hashExact : crates.HashExact := by
  intro salt secret hash h presented
  obtain rfl := Except.ok.inj h
  exact beq_iff_eq

end Sample

/-- The secret of the sample's key is accepted before it expires. -/
theorem Session.verify_iff_live_created :
    Sample.created.store.inner.verify Sample.crates Sample.draw.secret 20 =
      some Sample.record.metadata := by
  have hregular : (KeyCall.create Sample.request Sample.draw none).Regular Sample.crates {} :=
    ⟨rfl, nofun⟩
  refine ((Session.verify_iff_live Sample.crates_reads Sample.crates_hashExact
    (.step .init hregular Sample.step_create)).1 _ _ _).mpr ⟨?_, ?_, ?_⟩
  · exact List.mem_singleton.mpr rfl
  · simp [Sample.created]
  · intro expiresAt h
    obtain rfl := Option.some.inj h
    decide

end Calod.Core
