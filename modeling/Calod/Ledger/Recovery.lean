import Calod.Ledger.Invariants

/-!
# Recovery

What `Ledger::open` does, taken apart: the snapshot that loads, and the replay of the records
past its watermark.

* `open_eq_ok` — the parts of a successful open
* `replay_invariant` — what every record preserves, a replay preserves
* `replay_append` — replaying one more record applies it last
-/

namespace Calod.Ledger

open Calod.Core Calod.Storage Lib

variable {idx : Indexes} {kinds : List RecordKind} {env : Env} {disk : SnapshotDir}
  {watermark : Option WalPosition} {dir : WalDir RecordKind}

/-! ## Replay -/

theorem replay_append {idx idx' : Indexes} (kind : RecordKind) (h : replay idx kinds = .ok idx') :
    replay idx (kinds ++ [kind]) = replay idx' [kind] := by
  induction kinds generalizing idx with
  | nil =>
    cases h
    rfl
  | cons k kinds ih =>
    rw [List.cons_append, replay]
    rw [replay] at h
    split
    · next i he =>
      rw [he] at h
      exact ih h
    · next i e he =>
      rw [he] at h
      cases h

theorem replay_singleton {kind : RecordKind} (h : (idx.apply kind).2 = .ok ()) :
    replay idx [kind] = .ok (idx.apply kind).1 := by
  have he : idx.apply kind = ((idx.apply kind).1, .ok ()) := Prod.ext rfl h
  rw [replay, he]
  rfl

/-- **What every record preserves, a replay preserves.** -/
theorem replay_invariant {I : Indexes → Prop}
    (hstep : ∀ idx kind, kind ∈ kinds → I idx → I (idx.apply kind).1) :
    ∀ {idx idx' : Indexes}, I idx → replay idx kinds = .ok idx' → I idx' := by
  induction kinds with
  | nil =>
    intro idx idx' hi h
    cases h
    exact hi
  | cons kind kinds ih =>
    intro idx idx' hi h
    rw [replay] at h
    split at h
    · next i he =>
      have hi' := hstep idx kind List.mem_cons_self hi
      rw [he] at hi'
      exact ih (fun idx k hk => hstep idx k (List.mem_cons_of_mem _ hk)) hi' h
    · cases h

/-! ## Opening -/

/-- What loads is nothing, or the state file under the manifest's watermark. -/
theorem loadIndexes_eq_ok (h : loadIndexes env disk = .ok (idx, watermark)) :
    (disk.manifest = none ∧ idx = .empty ∧ watermark = none) ∨
      ∃ state manifest, disk.stateFile = some state ∧ disk.manifest = some manifest ∧
        idx = .loadState state ∧ watermark = manifest.walWatermark := by
  unfold loadIndexes at h
  obtain ⟨loaded, hload, h⟩ := bind_eq_ok.mp h
  cases loaded with
  | none =>
    cases pure_eq_ok.mp h
    exact Or.inl ⟨loadSnapshot_eq_none hload, rfl, rfl⟩
  | some p =>
    obtain ⟨state, manifest⟩ := p
    obtain ⟨hstate, hmanifest⟩ := loadSnapshot_eq_some hload
    simp only [] at h
    split at h
    · cases h
    · cases pure_eq_ok.mp h
      exact Or.inr ⟨state, manifest, hstate, hmanifest, rfl, rfl⟩

/-- The watermark that `open` starts from is the one of the saved manifest. -/
theorem loadIndexes_watermark (h : loadIndexes env disk = .ok (idx, watermark)) :
    watermark = disk.watermark := by
  unfold SnapshotDir.watermark
  rcases loadIndexes_eq_ok h with ⟨hm, -, rfl⟩ | ⟨_, manifest, -, hm, -, rfl⟩
  · rw [hm]; rfl
  · rw [hm]; rfl

/-- **The parts of a successful open.** -/
theorem open_eq_ok {ledger : Ledger} (h : Ledger.open env disk dir = .ok ledger) :
    ∃ idx, loadIndexes env disk = .ok (idx, disk.watermark) ∧
      replay idx (replayed env disk.watermark dir) = .ok ledger.indexes ∧
      Wal.open env.encodedLen env.config.maxSegmentSize dir = .ok ledger.wal ∧
      ledger.lastWalPosition = disk.watermark := by
  unfold Ledger.open at h
  obtain ⟨⟨idx, watermark⟩, hload, h⟩ := bind_eq_ok.mp h
  obtain ⟨indexes, hreplay, h⟩ := bind_eq_ok.mp h
  obtain ⟨wal, hwal, h⟩ := bind_eq_ok.mp h
  cases pure_eq_ok.mp h
  obtain rfl := loadIndexes_watermark hload
  exact ⟨idx, hload, hreplay, hwal, rfl⟩

/-- And the other way: the parts make an open. -/
theorem open_of_parts {idx indexes : Indexes} {wal : Wal RecordKind}
    (hload : loadIndexes env disk = .ok (idx, watermark))
    (hreplay : replay idx (replayed env watermark dir) = .ok indexes)
    (hwal : Wal.open env.encodedLen env.config.maxSegmentSize dir = .ok wal) :
    Ledger.open env disk dir = .ok { indexes, wal, lastWalPosition := watermark } := by
  unfold Ledger.open
  rw [hload]
  simp only [bind, Except.bind, hreplay, hwal]
  rfl

/-- A complete save loads back as the state it was made from. -/
theorem loadIndexes_saved (env : Env) (disk : SnapshotDir) (idx : Indexes)
    (watermark : Option WalPosition) (now : Int) :
    loadIndexes env ((disk.writeState idx.collectState).writeManifest
        (manifestFor env idx.collectState watermark now))
      = .ok (.loadState idx.collectState, watermark) := by
  unfold loadIndexes
  rw [loadSnapshot_saved]
  rfl

end Calod.Ledger
