import Calod.Ledger.Config
import Calod.Storage.Wal

/-!
# Snapshot directory

`calod-ledger/src/snapshot.rs`. A save writes the state file and then the manifest, so the two
are separate steps here and a crash can fall between them. Loading is fail-closed.
-/

namespace Calod.Ledger

open Calod.Core Calod.Storage

def manifestFileName : String := "manifest.json"

def stateFileName : String := "ledger-state.json"

def snapshotFormatVersion : Nat := 1

structure SnapshotFileEntry where
  path : String
  len : Nat
  crc32c : Nat
  deriving DecidableEq, Repr

structure LedgerSnapshotManifest where
  version : Nat
  createdAtMs : Int
  walWatermark : Option WalPosition
  files : List SnapshotFileEntry
  deriving DecidableEq, Repr

/-- The two files of a snapshot directory, as far as they exist. -/
structure SnapshotDir where
  stateFile : Option PersistedState
  manifest : Option LedgerSnapshotManifest

def SnapshotDir.empty : SnapshotDir := { stateFile := none, manifest := none }

/-- The watermark of the saved manifest. -/
def SnapshotDir.watermark (dir : SnapshotDir) : Option WalPosition :=
  dir.manifest.bind LedgerSnapshotManifest.walWatermark

/-- The manifest that `save_snapshot` writes for a state. -/
def manifestFor (env : Env) (state : PersistedState) (watermark : Option WalPosition)
    (createdAtMs : Int) : LedgerSnapshotManifest where
  version := snapshotFormatVersion
  createdAtMs := createdAtMs
  walWatermark := watermark
  files := [{ path := stateFileName, len := env.stateLen state, crc32c := env.stateCrc state }]

/-- First half of `save_snapshot`: the state file replaces the previous one. -/
def SnapshotDir.writeState (dir : SnapshotDir) (state : PersistedState) : SnapshotDir :=
  { dir with stateFile := some state }

/-- Second half of `save_snapshot`. -/
def SnapshotDir.writeManifest (dir : SnapshotDir) (manifest : LedgerSnapshotManifest) :
    SnapshotDir :=
  { dir with manifest := some manifest }

/-- Verify the files that a manifest lists; the last state file read is the result. -/
def verifyFiles (env : Env) (dir : SnapshotDir) :
    List SnapshotFileEntry → Option PersistedState → Except PersistenceError (Option PersistedState)
  | [], state => .ok state
  | entry :: rest, _ =>
    if entry.path ≠ stateFileName then
      .error (.corruption ("ledger snapshot manifest lists unknown file " ++ entry.path))
    else
      match dir.stateFile with
      | none =>
        .error (.corruption ("ledger snapshot file " ++ entry.path
          ++ " is unreadable: No such file or directory (os error 2)"))
      | some data =>
        if env.stateLen data ≠ entry.len ∨ env.stateCrc data ≠ entry.crc32c then
          .error (.corruption ("ledger snapshot file " ++ entry.path
            ++ " failed checksum verification"))
        else verifyFiles env dir rest (some data)

def loadSnapshot (env : Env) (dir : SnapshotDir) :
    Except PersistenceError (Option (PersistedState × LedgerSnapshotManifest)) :=
  match dir.manifest with
  | none =>
    if dir.stateFile.isSome then
      .error (.corruption ("ledger snapshot state exists in " ++ env.config.snapshotDir ++ " but "
        ++ manifestFileName ++ " is missing; refusing to apply an unverifiable snapshot"))
    else .ok none
  | some manifest =>
    if manifest.version ≠ snapshotFormatVersion then
      .error (.corruption ("unsupported ledger snapshot version " ++ toString manifest.version
        ++ " (expected " ++ toString snapshotFormatVersion ++ ")"))
    else
      match verifyFiles env dir manifest.files none with
      | .error e => .error e
      | .ok (some state) => .ok (some (state, manifest))
      | .ok none =>
        .error (.corruption ("ledger snapshot manifest in " ++ env.config.snapshotDir
          ++ " lists no state file"))

/-- A complete save loads back. -/
theorem loadSnapshot_saved (env : Env) (dir : SnapshotDir) (state : PersistedState)
    (watermark : Option WalPosition) (now : Int) :
    loadSnapshot env
        ((dir.writeState state).writeManifest (manifestFor env state watermark now))
      = .ok (some (state, manifestFor env state watermark now)) := by
  simp [loadSnapshot, SnapshotDir.writeState, SnapshotDir.writeManifest, manifestFor, verifyFiles]

/-- What loads is the state file, under the manifest that is there. -/
theorem loadSnapshot_eq_some {env : Env} {dir : SnapshotDir} {state : PersistedState}
    {manifest : LedgerSnapshotManifest} (h : loadSnapshot env dir = .ok (some (state, manifest))) :
    dir.stateFile = some state ∧ dir.manifest = some manifest := by
  have hfiles : ∀ files acc,
      verifyFiles env dir files acc = .ok (some state) →
        acc = some state ∨ dir.stateFile = some state := by
    intro files
    induction files with
    | nil =>
      intro acc hv
      exact Or.inl (Except.ok.inj hv)
    | cons entry rest ih =>
      intro acc hv
      rw [verifyFiles] at hv
      split at hv
      · cases hv
      · split at hv
        · cases hv
        · next data hdata =>
          split at hv
          · cases hv
          · rcases ih _ hv with hd | hd
            · exact Or.inr (hdata.trans hd)
            · exact Or.inr hd
  unfold loadSnapshot at h
  split at h
  · split at h <;> cases h
  · next m hm =>
    split at h
    · cases h
    · split at h
      · cases h
      · next s hs =>
        cases h
        rcases hfiles _ _ hs with he | he
        · cases he
        · exact ⟨he, hm⟩
      · cases h

/-- No manifest: nothing loads. -/
theorem loadSnapshot_eq_none {env : Env} {dir : SnapshotDir}
    (h : loadSnapshot env dir = .ok none) : dir.manifest = none := by
  unfold loadSnapshot at h
  split at h
  · next hm => exact hm
  · split at h
    · cases h
    · split at h <;> cases h

end Calod.Ledger
