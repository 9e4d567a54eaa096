import Calod.Ledger.Concurrent

/-!
# Stored timelines are hash chains

In every state that any interleaving of calls, snapshots, crashes and reopens reaches, every
stored timeline passes `verify_event_chain`.

Events may be built on stale heads; the links survive because `applyEvent` checks them. The
hashes recompute because every event that is pending, in the log or in the state file was
built by `buildEvent`. `Sound` is the invariant that carries this through the disk.
-/

namespace Calod.Ledger

open Calod.Storage Lib Ledger.Sample

/-- The event of a record, if any, has the hash that its view computes to. -/
def Hashed (crates : Crates) (kind : RecordKind) : Prop :=
  ∀ event, kind.event = some event → event.hash = computeEventHash crates event.view

namespace Sys

/-- Memory, log and state file hold well-keyed hash chains. -/
structure Sound (env : Env) (s : Sys) : Prop where
  keyed : s.ledger.indexes.Keyed
  chained : s.ledger.indexes.Chained env.crates
  pending : ∀ i kind, s.pendingAt i = some kind → Hashed env.crates kind
  logged : ∀ r ∈ s.ledger.wal.records env.encodedLen, Hashed env.crates r.payload
  saved : ∀ state, s.disk.stateFile = some state →
    ∃ idx : Indexes, idx.Keyed ∧ idx.Chained env.crates ∧ state = idx.collectState

variable {env : Env} {s s' : Sys}

theorem sound_init : Sound env init where
  keyed := Indexes.keyed_empty
  chained := Indexes.chained_empty
  pending i kind h := by simp [pendingAt, init] at h
  logged r hr := by
    simp [init, fresh, Wal.records, Wal.segments, replayAll, Segment.records, scanSegment] at hr
  saved state h := by cases h

/-- What `open` rebuilds from a sound disk is well-keyed and chained. -/
theorem Sound.opened {keepUnacked : Bool} {ledger : Ledger} (hs : Sound env s)
    (ho : Ledger.open env s.disk (s.crashDir keepUnacked) = .ok ledger) :
    ledger.indexes.Keyed ∧ ledger.indexes.Chained env.crates := by
  obtain ⟨idx, hload, hreplay, -, -⟩ := open_eq_ok ho
  have hidx : idx.Keyed ∧ idx.Chained env.crates := by
    rcases loadIndexes_eq_ok hload with ⟨-, rfl, -⟩ | ⟨state, _, hstate, -, rfl, -⟩
    · exact ⟨Indexes.keyed_empty, Indexes.chained_empty⟩
    · obtain ⟨idx₀, hk, hc, rfl⟩ := hs.saved state hstate
      exact ⟨hk.load_collect fun r => (hc r).1, hc.load_collect hk⟩
  -- every replayed record is one of the log
  have hlog : ∀ kind ∈ replayed env s.disk.watermark (s.crashDir keepUnacked),
      Hashed env.crates kind := by
    intro kind hk
    obtain ⟨r, hr, rfl⟩ := List.mem_map.mp hk
    exact hs.logged r ((crashDir_records_sublist env s keepUnacked).subset
      (List.mem_filter.mp hr).1)
  refine replay_invariant (I := fun idx => idx.Keyed ∧ idx.Chained env.crates) ?_ hidx hreplay
  intro idx kind hk hi
  exact ⟨hi.1.apply kind, hi.2.apply (hlog kind hk)⟩

/-- **Every step keeps memory, log and state file sound.** -/
theorem Sound.step {action : Action} (hs : Sound env s) (h : s.step env action = some s') :
    Sound env s' := by
  have hmoves := step_moves h
  have hlogged : ∀ r ∈ s'.ledger.wal.records env.encodedLen, Hashed env.crates r.payload := by
    intro r hr
    rcases hmoves.records r hr with hr | ⟨i, hi⟩
    · exact hs.logged r hr
    · exact hs.pending i _ hi
  have hsaved : ∀ state, s'.disk.stateFile = some state →
      ∃ idx : Indexes, idx.Keyed ∧ idx.Chained env.crates ∧ state = idx.collectState := by
    intro state hstate
    rcases hmoves.stateFile with he | he
    · exact hs.saved state (he ▸ hstate)
    · rw [he] at hstate
      cases hstate
      exact ⟨_, hs.keyed, hs.chained, rfl⟩
  cases hmoves.indexMove with
  | same hindexes hpending =>
    refine ⟨hindexes ▸ hs.keyed, hindexes ▸ hs.chained, ?_, hlogged, hsaved⟩
    intro i kind hk
    rcases hpending i kind hk with hk | ⟨_, hb⟩
    · exact hs.pending i kind hk
    · intro event he
      obtain ⟨_, _, -, hon⟩ := hb.event_spec he
      exact hon.hash
  | commit hcommits hi hindexes hpending =>
    refine ⟨?_, ?_, ?_, hlogged, hsaved⟩
    · rw [hindexes]
      exact hs.keyed.apply _
    · rw [hindexes]
      exact hs.chained.apply (hs.pending _ _ hi)
    · intro j kind hj
      exact hs.pending j kind (hpending j kind hj).2
  | reopen haction hopen hpending =>
    obtain ⟨hk, hc⟩ := hs.opened hopen
    refine ⟨hk, hc, ?_, hlogged, hsaved⟩
    intro j kind hj
    rw [hpending j] at hj
    cases hj

theorem Sound.of_reach {P : Sys → Action → Prop} (h : Reach (Sys.step env) P init s) :
    Sound env s :=
  h.invariant sound_init fun _ _ _ hi _ hs => hi.step hs

end Sys

/--
**Every stored timeline verifies**, in every state reached by any interleaving of calls,
snapshots, crashes and reopens: numbers `1..=N`, links from the genesis hash, hashes recomputed.
-/
theorem stored_timelines_verify (env : Env) {s : Sys}
    (h : Reach (Sys.step env) (fun _ _ => True) Sys.init s) {r : Uuid} {events : List EventRecord}
    (hr : s.ledger.indexes.events[r]? = some events) :
    verifyEventChain env.crates (events.map EventRecord.view) = true ∧
      (∀ (i : Nat) (e : EventRecord), events[i]? = some e →
        e.sequence = i + 1 ∧ e.hash = computeEventHash env.crates e.view) ∧
      (∀ e, events[0]? = some e → e.previousHash = genesisHash) ∧
      (∀ (i : Nat) (e e' : EventRecord), events[i]? = some e → events[i + 1]? = some e' →
        e'.previousHash = e.hash) := by
  have hs := Sys.Sound.of_reach h
  have ht : s.ledger.indexes.timeline r = events := Indexes.timeline_of_get hr
  obtain ⟨hl, hh⟩ := hs.chained r
  have hv := hs.chained.verify r
  rw [ht] at hl hh hv
  refine ⟨hv, fun i e he => ?_, fun e he => ?_, fun i e e' he he' => ?_⟩
  · exact ⟨(hl i e he).1, hh e (List.mem_of_getElem? he)⟩
  · exact (hl 0 e he).2
  · rw [show e'.previousHash = _ from (hl (i + 1) e' he').2, Links.headAt,
      List.take_add_one, he, Option.toList_some, Links.lastHash_append_singleton]
    rfl

/-- A run with an event, a snapshot and a reopen: the stored event verifies. -/
theorem stored_timelines_verify_after_reopen :
    ∃ s events, Reach (Sys.step Sample.env) (fun _ _ => True) Sys.init s ∧
      s.ledger.indexes.events[(1 : Uuid)]? = some events ∧ events.length = 1 ∧
      verifyEventChain Sample.env.crates (events.map EventRecord.view) = true := by
  have hrun : ((Lib.run (Sys.step Sample.env) (fun _ _ => true) Sys.init
      (spawn Sample.createRun :: steps 0 1 3
        ++ spawn (Sample.appendEvent 1) :: steps 1 2 4
        ++ .spawn .snapshot :: steps 2 3 5
        ++ [.reopen true])).map fun s => (s.ledger.indexes.timeline 1).length) = some 1 := by
    decide +kernel
  obtain ⟨s, hreach, hlen⟩ := exists_reach_of_run hrun
  replace hreach : Reach (Sys.step Sample.env) (fun _ _ => True) Sys.init s :=
    hreach.mono fun _ _ _ => trivial
  cases he : s.ledger.indexes.events[(1 : Uuid)]? with
  | none =>
    rw [Indexes.timeline, he] at hlen
    cases hlen
  | some events =>
    rw [Indexes.timeline_of_get he] at hlen
    exact ⟨s, events, hreach, he, hlen, (stored_timelines_verify Sample.env hreach he).1⟩

end Calod.Ledger
