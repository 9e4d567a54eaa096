import Calod.Lib.Map
import Calod.Lib.Transition

/-!
# Watched keys

`calod-core/src/store/watch.rs`, the handlers of the transaction commands in
`calod-resp/src/cld_srv/served_store.rs` and the end of `Connection::process`. The registry keeps a
version and the number of watchers of every watched key; a connection keeps the list of the keys it
watches. The writer task of a connection registers and releases; `process` releases as well, once
the reader or the writer has ended, and the writer may still be running then.

* `watch_counts_exact` — the registry counts the entries in the lists of the live connections, as
  long as no connection is torn down during its `RESET` or runs such a command after its teardown
* `torn_down_releases_twice` — the writer of a connection that is torn down releases what another
  connection has registered, or registers what nobody releases
-/

namespace Calod.Server

open Lib

/-! ## The registry -/

/-- For each watched key its version and the number of its watchers. -/
structure WatchRegistry where
  entries : Map String (Nat × Nat)

namespace WatchRegistry

variable (r : WatchRegistry) (key : String)

def new : WatchRegistry := ⟨∅⟩

/-- One more watcher; the answer is the current version. -/
def watch : WatchRegistry × Nat :=
  match r.entries[key]? with
  | some (version, n) => (⟨r.entries.insert key (version, n + 1)⟩, version)
  | none => (⟨r.entries.insert key (0, 1)⟩, 0)

/-- The first half of `unwatch`: one watcher less. Was it the last one? -/
def decrement : WatchRegistry × Bool :=
  match r.entries[key]? with
  | some (version, n) => (⟨r.entries.insert key (version, n - 1)⟩, n - 1 = 0)
  | none => (r, false)

/-- The second half of `unwatch`: drop the key, unless it has a watcher again. -/
def removeUnwatched : WatchRegistry :=
  match r.entries[key]? with
  | some (_, 0) => ⟨r.entries.erase key⟩
  | _ => r

/-- `unwatch`, when nothing comes between its halves. -/
def unwatch : WatchRegistry :=
  if (r.decrement key).2 then (r.decrement key).1.removeUnwatched key else (r.decrement key).1

def bump : WatchRegistry :=
  match r.entries[key]? with
  | some (version, n) => ⟨r.entries.insert key (version + 1, n)⟩
  | none => r

def current : Nat := (r.entries[key]?.map (·.1)).getD 0

/-- The number of watchers. -/
def count : Nat := (r.entries[key]?.map (·.2)).getD 0

variable {r key}

@[simp]
theorem count_new (k : String) : new.count k = 0 := by
  simp [count, new]

theorem count_watch (k : String) :
    (r.watch key).1.count k = r.count k + if key = k then 1 else 0 := by
  unfold watch count
  cases h : r.entries[key]? with
  | none | some =>
    by_cases hk : key = k
    · subst hk
      simp [h]
    · simp [Map.get_insert, hk]

theorem count_decrement (k : String) :
    (r.decrement key).1.count k = r.count k - if key = k then 1 else 0 := by
  unfold decrement count
  cases h : r.entries[key]? with
  | none =>
    by_cases hk : key = k
    · subst hk
      simp [h]
    · simp [hk]
  | some e =>
    by_cases hk : key = k
    · subst hk
      simp [h]
    · simp [Map.get_insert, hk]

@[simp]
theorem count_removeUnwatched (k : String) : (r.removeUnwatched key).count k = r.count k := by
  unfold removeUnwatched
  split
  · next v h =>
    unfold count
    by_cases hk : key = k
    · subst hk
      simp [h]
    · simp [Map.get_erase, hk]
  · rfl

@[simp]
theorem watch_snd : (r.watch key).2 = r.current key := by
  unfold watch current
  cases h : r.entries[key]? <;> simp

@[simp]
theorem current_watch (k : String) : (r.watch key).1.current k = r.current k := by
  unfold watch current
  by_cases hk : key = k
  · subst hk
    cases h : r.entries[key]? <;> simp
  · cases h : r.entries[key]? <;> simp [Map.get_insert, hk]

@[simp]
theorem current_decrement (k : String) : (r.decrement key).1.current k = r.current k := by
  unfold decrement current
  by_cases hk : key = k
  · subst hk
    cases h : r.entries[key]? <;> simp [h]
  · cases h : r.entries[key]? <;> simp [Map.get_insert, hk]

/-- A version is forgotten only when nobody watches the key. -/
theorem current_removeUnwatched {k : String} (h : 0 < r.count k) :
    (r.removeUnwatched key).current k = r.current k := by
  unfold removeUnwatched
  split
  · next v hv =>
    by_cases hk : key = k
    · subst hk
      simp [count, hv] at h
    · simp [current, Map.get_erase, hk]
  · rfl

theorem current_bump (h : 0 < r.count key) : (r.bump key).current key = r.current key + 1 := by
  unfold bump current
  cases hv : r.entries[key]? with
  | none => simp [count, hv] at h
  | some e => simp

theorem current_le_bump (k : String) : r.current k ≤ (r.bump key).current k := by
  unfold bump current
  cases hv : r.entries[key]? with
  | none => exact le_rfl
  | some e =>
    by_cases hk : key = k
    · subst hk
      simp [hv]
    · simp [Map.get_insert, hk]

@[simp]
theorem count_bump (k : String) : (r.bump key).count k = r.count k := by
  unfold bump count
  by_cases hk : key = k
  · subst hk
    cases h : r.entries[key]? <;> simp [h]
  · cases h : r.entries[key]? <;> simp [Map.get_insert, hk]

theorem count_unwatch (k : String) :
    (r.unwatch key).count k = r.count k - if key = k then 1 else 0 := by
  unfold unwatch
  split
  · rw [count_removeUnwatched, count_decrement]
  · exact count_decrement k

theorem current_unwatch {k : String} (h : 0 < (r.unwatch key).count k) :
    (r.unwatch key).current k = r.current k := by
  unfold unwatch at h ⊢
  split
  · next hd =>
    rw [if_pos hd, count_removeUnwatched] at h
    rw [current_removeUnwatched h, current_decrement]
  · exact current_decrement k

end WatchRegistry

/-! ## Connections -/

/-- Keys that are being released one by one. -/
structure Releasing where
  /-- The last watcher of this key has gone; it is about to be dropped. -/
  dropping : Option String
  rest : List String
  deriving DecidableEq

/-- One half of an `unwatch`; `none` after the last one. -/
def Releasing.next (r : WatchRegistry) : Releasing → Option (WatchRegistry × Releasing)
  | ⟨some key, rest⟩ => some (r.removeUnwatched key, ⟨none, rest⟩)
  | ⟨none, key :: rest⟩ =>
    some ((r.decrement key).1, ⟨if (r.decrement key).2 then some key else none, rest⟩)
  | ⟨none, []⟩ => none

/-- Where the writer task is. -/
inductive WatchTask where
  | idle
  /-- In `handle_watch`, which holds the lock on the list. -/
  | watching (keys : List String)
  /-- After `UNWATCH`, `DISCARD` or `EXEC` has taken the list, or in the middle of a `RESET`, which
  leaves the list as it is until the end. -/
  | releasing (keys : Releasing) (reset : Bool)
  | done
  deriving DecidableEq

/-- Where `process` is. -/
inductive Process where
  /-- Both tasks are running. -/
  | serving
  /-- It releases the keys of the list, and holds the lock. -/
  | releasing (keys : Releasing)
  | ended
  deriving DecidableEq

/-- A connection, as far as watching goes. -/
structure Watcher where
  watched : List (String × Nat)
  inMulti : Bool
  writer : WatchTask
  process : Process

inductive WatchCommand where
  | watch (keys : List String)
  | unwatch
  | multi
  | discard
  | exec
  | reset

namespace Watcher

variable (c : Watcher)

def new : Watcher := ⟨[], false, .idle, .serving⟩

def keys : List String := c.watched.map (·.1)

/-- The list is taken, and its keys are released next. -/
def takeWatched : Watcher :=
  { c with watched := [], inMulti := false, writer := .releasing ⟨none, c.keys⟩ false }

/-- A command up to where it gives up the lock on the list; `WATCH` keeps it. -/
def start : WatchCommand → Watcher
  | .watch keys => if c.inMulti then c else { c with writer := .watching keys }
  | .unwatch =>
    { c with watched := [], writer := .releasing ⟨none, c.keys⟩ false }
  | .multi => { c with inMulti := true }
  | .discard | .exec => if c.inMulti then c.takeWatched else c
  | .reset => { c with writer := .releasing ⟨none, c.keys⟩ true }

/-- Does `process` hold the lock on the list? -/
def locked : Bool := c.process matches .releasing _

/-- The writer's next step. -/
def advance (r : WatchRegistry) : Option (WatchRegistry × Watcher) :=
  match c.writer with
  | .idle | .done => none
  | .watching [] => some (r, { c with writer := .idle })
  | .watching (key :: rest) =>
    some ((r.watch key).1, { c with
      watched := c.watched ++ [(key, (r.watch key).2)], writer := .watching rest })
  | .releasing keys reset =>
    match keys.next r with
    | some (r', keys') => some (r', { c with writer := .releasing keys' reset })
    | none =>
      if reset then
        if c.locked then none
        else some (r, { c with watched := [], inMulti := false, writer := .idle })
      else some (r, { c with writer := .idle })

/-- The next step of `process`. -/
def release (r : WatchRegistry) : Option (WatchRegistry × Watcher) :=
  match c.process with
  | .releasing keys =>
    match keys.next r with
    | some (r', keys') => some (r', { c with process := .releasing keys' })
    | none => some (r, { c with process := .ended })
  | _ => none

end Watcher

structure WatchState where
  registry : WatchRegistry
  conns : List Watcher

inductive WatchAction where
  | connect
  /-- The writer begins with a command. -/
  | start (i : Nat) (cmd : WatchCommand)
  | advance (i : Nat)
  /-- The writer ends. -/
  | finish (i : Nat)
  /-- One of the tasks has ended, and `process` takes the lock. -/
  | teardown (i : Nat)
  | release (i : Nat)

namespace WatchState

def init : WatchState := ⟨.new, []⟩

/-- A step of one connection. -/
def on (s : WatchState) (i : Nat) (f : Watcher → Option (WatchRegistry × Watcher)) :
    Option WatchState :=
  (s.conns[i]?.bind f).map fun (r, c) => ⟨r, s.conns.set i c⟩

def step (s : WatchState) : WatchAction → Option WatchState
  | .connect => some { s with conns := s.conns ++ [.new] }
  | .start i cmd => s.on i fun c =>
    if c.writer = .idle ∧ c.locked = false then some (s.registry, c.start cmd) else none
  | .advance i => s.on i (·.advance s.registry)
  | .finish i => s.on i fun c =>
    if c.writer = .idle then some (s.registry, { c with writer := .done }) else none
  | .teardown i => s.on i fun c =>
    if c.process = .serving ∧ (c.writer matches .watching _) = false then
      some (s.registry, { c with process := .releasing ⟨none, c.keys⟩ })
    else none
  | .release i => s.on i (·.release s.registry)

end WatchState

/-! ## Counting registrations -/

namespace Releasing

/-- The registrations of a key that are still to be released. -/
def pending (q : Releasing) (k : String) : Nat := q.rest.count k

variable {r r' : WatchRegistry} {q q' : Releasing}

theorem pending_of_next_eq_none (h : q.next r = none) (k : String) : q.pending k = 0 := by
  obtain ⟨dropping, rest⟩ := q
  cases dropping with
  | some key => cases h
  | none =>
    cases rest with
    | nil => rfl
    | cons key rest => cases h

/-- What the registry loses is not to be released any more. -/
theorem count_next (h : q.next r = some (r', q')) {k : String} (hle : q.pending k ≤ r.count k) :
    r'.count k + q.pending k = r.count k + q'.pending k := by
  obtain ⟨dropping, rest⟩ := q
  cases dropping with
  | some key =>
    cases h
    simp [pending]
  | none =>
    cases rest with
    | nil => cases h
    | cons key rest =>
      cases h
      simp only [pending, List.count_cons, beq_iff_eq] at hle ⊢
      rw [WatchRegistry.count_decrement]
      omega

end Releasing

namespace Watcher

/-- The entries of a key in the list. -/
def entries (c : Watcher) (k : String) : Nat := c.keys.count k

def live (c : Watcher) : Bool := c.process = .serving

/-- No release is under way. -/
def quiet (c : Watcher) : Bool :=
  !(c.writer matches .releasing _ _) && !(c.process matches .releasing _)

/-- Is the writer inside a `RESET`? -/
def resetting (c : Watcher) : Bool := c.writer matches .releasing _ true

/-- The registrations that the writer is about to release. -/
def ofWriter (c : Watcher) (k : String) : Nat :=
  match c.writer with
  | .releasing q _ => q.pending k
  | _ => 0

/-- The registrations that the list stands for: those that `process` has not released, and none
while a `RESET` releases them. -/
def ofList (c : Watcher) (k : String) : Nat :=
  match c.process with
  | .serving => if c.resetting then 0 else c.entries k
  | .releasing q => q.pending k
  | .ended => 0

/-- The registrations that a connection still has to release. -/
def held (c : Watcher) (k : String) : Nat := c.ofList k + c.ofWriter k

/-- The writer is inside a `WATCH` or a `RESET` only as long as `process` is waiting. -/
def Orderly (c : Watcher) : Prop :=
  (c.writer matches .watching _) = true ∨ c.resetting = true → c.process = .serving

/-- A step of a connection changes the registry by as much as what the connection holds. -/
structure Balanced (r : WatchRegistry) (c : Watcher) (r' : WatchRegistry) (c' : Watcher) :
    Prop where
  orderly : c'.Orderly
  count : ∀ k, r'.count k + c.held k = r.count k + c'.held k

variable {r r' : WatchRegistry} {c c' : Watcher}

theorem quiet_held (h : c.quiet = true) (k : String) :
    c.held k = if c.live then c.entries k else 0 := by
  obtain ⟨watched, inMulti, writer, process⟩ := c
  cases writer <;> cases process <;>
    simp_all [quiet, held, ofList, ofWriter, resetting, live]

/-- A command is begun while `process` is waiting. -/
theorem balanced_start (hw : c.writer = .idle) (hs : c.process = .serving) (cmd : WatchCommand) :
    Balanced r c r (c.start cmd) := by
  obtain ⟨watched, inMulti, writer, process⟩ := c
  subst hw hs
  refine ⟨?_, fun k => ?_⟩
  · intro _
    cases cmd <;> cases inMulti <;> rfl
  · cases cmd <;> cases inMulti <;>
      simp [start, takeWatched, held, ofList, ofWriter, resetting, Releasing.pending, entries, keys]

theorem balanced_advance (h : c.advance r = some (r', c')) (ho : c.Orderly)
    (hle : ∀ k, c.held k ≤ r.count k) : Balanced r c r' c' := by
  obtain ⟨watched, inMulti, writer, process⟩ := c
  cases writer with
  | idle => cases h
  | done => cases h
  | watching keys =>
    obtain rfl : process = .serving := ho (.inl rfl)
    cases keys with
    | nil =>
      cases h
      exact ⟨fun _ => rfl, fun k => rfl⟩
    | cons key rest =>
      cases h
      refine ⟨fun _ => rfl, fun k => ?_⟩
      rw [WatchRegistry.count_watch]
      simp [held, ofList, ofWriter, resetting, entries, keys, List.count_cons]
      omega
  | releasing q reset =>
    rw [advance] at h
    cases hn : q.next r with
    | some p =>
      obtain ⟨r₁, q'⟩ := p
      simp only [hn, Option.some.injEq, Prod.mk.injEq] at h
      obtain ⟨rfl, rfl⟩ := h
      refine ⟨fun hb => ho ?_, fun k => ?_⟩
      · cases reset <;> exact hb
      · have hk : q.pending k ≤ r.count k := le_trans (Nat.le_add_left _ _) (hle k)
        have := Releasing.count_next hn hk
        simp only [held, ofWriter]
        have hl : ofList ⟨watched, inMulti, .releasing q' reset, process⟩ k
            = ofList ⟨watched, inMulti, .releasing q reset, process⟩ k := by
          cases reset <;> rfl
        omega
    | none =>
      have hp := Releasing.pending_of_next_eq_none hn
      simp only [hn] at h
      cases reset with
      | false =>
        cases h
        refine ⟨fun hb => by simp [resetting] at hb, fun k => ?_⟩
        simp [held, ofList, ofWriter, resetting, hp, entries, keys]
      | true =>
        obtain rfl : process = .serving := ho (.inr rfl)
        cases h
        refine ⟨fun _ => rfl, fun k => ?_⟩
        simp [held, ofList, ofWriter, resetting, hp, entries, keys]

theorem balanced_finish (ho : c.Orderly) (hw : c.writer = .idle) :
    Balanced r c r { c with writer := .done } := by
  obtain ⟨watched, inMulti, writer, process⟩ := c
  subst hw
  exact ⟨fun hb => by simp [resetting] at hb, fun k => rfl⟩

/-- The keys of the list are what `process` has to release. -/
theorem balanced_teardown (hs : c.process = .serving)
    (hw : (c.writer matches .watching _) = false) (hr : c.resetting = false) :
    Balanced r c r { c with process := .releasing ⟨none, c.keys⟩ } := by
  refine ⟨?_, fun k => ?_⟩
  · rintro (hb | hb)
    · exact absurd (hb.symm.trans hw) (by decide)
    · exact absurd (hb.symm.trans hr) (by decide)
  · show r.count k + (c.ofList k + c.ofWriter k) = r.count k + (c.entries k + c.ofWriter k)
    rw [show c.ofList k = c.entries k by simp [ofList, hs, hr]]

theorem balanced_release (h : c.release r = some (r', c')) (ho : c.Orderly)
    (hle : ∀ k, c.held k ≤ r.count k) : Balanced r c r' c' := by
  obtain ⟨watched, inMulti, writer, process⟩ := c
  cases process with
  | serving => cases h
  | ended => cases h
  | releasing q =>
    -- the writer is neither in a `WATCH` nor in a `RESET`: that would need a waiting `process`
    have hno : ∀ p, Orderly ⟨watched, inMulti, writer, p⟩ :=
      fun p hb => absurd (ho hb) (by simp)
    rw [release] at h
    cases hn : q.next r with
    | some p =>
      obtain ⟨r₁, q'⟩ := p
      simp only [hn, Option.some.injEq, Prod.mk.injEq] at h
      obtain ⟨rfl, rfl⟩ := h
      refine ⟨hno _, fun k => ?_⟩
      have hk : q.pending k ≤ r.count k := le_trans (Nat.le_add_right _ _) (hle k)
      have := Releasing.count_next hn hk
      simp only [held, ofList]
      have hl : ofWriter ⟨watched, inMulti, writer, .releasing q'⟩ k
          = ofWriter ⟨watched, inMulti, writer, .releasing q⟩ k := rfl
      omega
    | none =>
      simp only [hn, Option.some.injEq, Prod.mk.injEq] at h
      obtain ⟨rfl, rfl⟩ := h
      refine ⟨hno _, fun k => ?_⟩
      show r.count k + (q.pending k + _) = r.count k + (0 + _)
      rw [Releasing.pending_of_next_eq_none hn]
      rfl

end Watcher

namespace WatchState

/-- The registrations of all connections. -/
def held (s : WatchState) (k : String) : Nat := (s.conns.map (·.held k)).sum

/-- The entries of a key in the lists of the live connections. -/
def entries (s : WatchState) (k : String) : Nat :=
  ((s.conns.filter (·.live)).map (·.entries k)).sum

/-- No release is under way. -/
def quiet (s : WatchState) : Bool := s.conns.all (·.quiet)

/-- A connection is not torn down in the middle of a `RESET`, and its writer begins none of the
commands once it is torn down. -/
def orderly (s : WatchState) : WatchAction → Bool
  | .start i _ => s.conns[i]?.all (·.live)
  | .teardown i => s.conns[i]?.all fun c => !c.resetting
  | _ => true

/-- The registry counts what the connections hold. -/
structure Counted (s : WatchState) : Prop where
  orderly : ∀ c ∈ s.conns, c.Orderly
  count : ∀ k, s.registry.count k = s.held k

variable {s s' : WatchState}

theorem held_le (h : Counted s) {i : Nat} {c : Watcher} (hc : s.conns[i]? = some c) (k : String) :
    c.held k ≤ s.registry.count k := by
  rw [h.count k]
  exact List.le_sum_of_mem (List.mem_map_of_mem (List.mem_of_getElem? hc))

/-- A balanced step of one connection keeps the count. -/
theorem Counted.on (h : Counted s) {i : Nat} {f : Watcher → Option (WatchRegistry × Watcher)}
    (hs : s.on i f = some s')
    (hf : ∀ c r' c', s.conns[i]? = some c → f c = some (r', c') →
      Watcher.Balanced s.registry c r' c') : Counted s' := by
  obtain ⟨⟨r', c'⟩, hb, rfl⟩ := Option.map_eq_some_iff.mp hs
  obtain ⟨c, hc, hfc⟩ := Option.bind_eq_some_iff.mp hb
  have hbal := hf c r' c' hc hfc
  refine ⟨fun d hd => ?_, fun k => ?_⟩
  · rcases List.mem_or_eq_of_mem_set hd with hd | rfl
    · exact h.orderly d hd
    · exact hbal.orderly
  · have hsum := sum_map_set (·.held k) c' hc
    have hk := hbal.count k
    have h0 := h.count k
    simp only [held] at h0 ⊢
    omega

theorem Counted.step (h : Counted s) {a : WatchAction} (ha : s.orderly a = true)
    (hs : s.step a = some s') : Counted s' := by
  cases a with
  | connect =>
    cases hs
    refine ⟨fun c hc => ?_, fun k => ?_⟩
    · rcases List.mem_append.mp hc with hc | hc
      · exact h.orderly c hc
      · obtain rfl := List.mem_singleton.mp hc
        exact fun _ => rfl
    · rw [h.count k]
      simp [held, Watcher.new, Watcher.held, Watcher.ofList, Watcher.ofWriter, Watcher.entries,
        Watcher.keys]
  | start i cmd =>
    refine h.on hs fun c r' c' hc hf => ?_
    have hlive : c.process = .serving := by
      simpa [WatchState.orderly, hc, Watcher.live] using ha
    split at hf
    · next hw =>
      cases hf
      exact Watcher.balanced_start hw.1 hlive cmd
    · cases hf
  | advance i =>
    refine h.on hs fun c r' c' hc hf => ?_
    exact Watcher.balanced_advance hf (h.orderly c (List.mem_of_getElem? hc)) (held_le h hc)
  | finish i =>
    refine h.on hs fun c r' c' hc hf => ?_
    split at hf
    · next hw =>
      cases hf
      exact Watcher.balanced_finish (h.orderly c (List.mem_of_getElem? hc)) hw
    · cases hf
  | teardown i =>
    refine h.on hs fun c r' c' hc hf => ?_
    have hreset : c.resetting = false := by
      simpa [WatchState.orderly, hc] using ha
    by_cases hw : c.process = .serving ∧ (c.writer matches .watching _) = false
    · rw [if_pos hw] at hf
      cases hf
      exact Watcher.balanced_teardown hw.1 hw.2 hreset
    · rw [if_neg hw] at hf
      cases hf
  | release i =>
    refine h.on hs fun c r' c' hc hf => ?_
    exact Watcher.balanced_release hf (h.orderly c (List.mem_of_getElem? hc)) (held_le h hc)

theorem counted_init : Counted init where
  orderly _ hc := absurd hc (List.not_mem_nil)
  count k := by simp [init, held]

theorem held_of_quiet (hq : s.quiet = true) (k : String) : s.held k = s.entries k := by
  obtain ⟨r, conns⟩ := s
  simp only [quiet, List.all_eq_true] at hq
  simp only [held, entries]
  induction conns with
  | nil => rfl
  | cons c conns ih =>
    have hc := Watcher.quiet_held (hq c List.mem_cons_self) k
    have ih := ih fun d hd => hq d (List.mem_cons_of_mem _ hd)
    cases hl : c.live <;> simp [hl, hc, ih]

theorem entries_eq_zero (h : ∀ c ∈ s.conns, c.live = false) (k : String) : s.entries k = 0 := by
  have hnil : s.conns.filter (·.live) = [] := by
    simpa [List.filter_eq_nil_iff] using h
  simp [entries, hnil]

end WatchState

/-- **Registrations are counted exactly.** Whenever no release is under way, the registry has as
many watchers of a key as the lists of the live connections have entries for it, and without a live
connection none. At any time, what a live connection watches is registered, unless its `RESET` is
releasing it. -/
theorem watch_counts_exact {s : WatchState}
    (hr : Reach WatchState.step (fun s a => s.orderly a = true) .init s) (k : String) :
    (s.quiet = true → s.registry.count k = s.entries k) ∧
    (∀ c ∈ s.conns, c.live = true → c.resetting = false → k ∈ c.keys →
      0 < s.registry.count k) ∧
    (s.quiet = true → (∀ c ∈ s.conns, c.live = false) → s.registry.count k = 0) := by
  have h : s.Counted :=
    hr.invariant WatchState.counted_init fun _ _ _ hc ha hs => hc.step ha hs
  have hcount : s.quiet = true → s.registry.count k = s.entries k := fun hq => by
    rw [h.count k, WatchState.held_of_quiet hq k]
  refine ⟨hcount, fun c hc hl hreset hk => ?_, fun hq hdead => ?_⟩
  · obtain ⟨i, hi⟩ := List.mem_iff_getElem?.mp hc
    have hpos : 0 < c.entries k := List.count_pos_iff.mpr hk
    have hlist : c.ofList k = c.entries k := by
      simp only [Watcher.ofList, of_decide_eq_true hl, hreset, Bool.false_eq_true, if_false]
    calc 0 < c.ofList k := hlist ▸ hpos
      _ ≤ c.held k := Nat.le_add_right _ _
      _ ≤ s.registry.count k := WatchState.held_le h hi k
  · rw [hcount hq, WatchState.entries_eq_zero hdead k]

namespace Sample

/-- Two connections watch the same key; the first one is torn down while its writer is idle. -/
def watchedTwice : List WatchAction :=
  [.connect, .connect, .start 0 (.watch ["k"]), .advance 0, .advance 0,
    .start 1 (.watch ["k"]), .advance 1, .advance 1, .teardown 0, .release 0, .release 0]

end Sample

theorem watch_counts_exact_after_teardown :
    ∃ s, Reach WatchState.step (fun s a => s.orderly a = true) .init s ∧
      s.registry.count "k" = s.entries "k" ∧ s.entries "k" = 1 := by
  have hrun : (run WatchState.step WatchState.orderly .init Sample.watchedTwice).map
      (fun s => (s.quiet, s.entries "k")) = some (true, 1) := by decide +kernel
  obtain ⟨s, hr, hs⟩ := exists_reach_of_run hrun
  obtain ⟨hq, he⟩ := Prod.mk.inj hs
  exact ⟨s, hr, (watch_counts_exact hr "k").1 hq, he⟩

/-- **A torn down connection is not out of the game.** Its writer runs an `UNWATCH` on the list that
`process` has released already, and takes the registration of the other connection; or it runs a
`WATCH`, and the registration stays although no connection is left. -/
theorem torn_down_releases_twice :
    (∃ s, Reach WatchState.step (fun _ _ => True) .init s ∧ s.quiet = true ∧
      s.registry.count "k" = 0 ∧ s.entries "k" = 1) ∧
    (∃ s, Reach WatchState.step (fun _ _ => True) .init s ∧ s.quiet = true ∧
      s.registry.count "k" = 1 ∧ s.conns.all (fun c => !c.live) = true ∧
      s.entries "k" = 0) := by
  constructor
  · have hrun : (run WatchState.step (fun _ _ => true) .init (Sample.watchedTwice ++
        [.start 0 .unwatch, .advance 0, .advance 0, .advance 0])).map
        (fun s => (s.quiet, s.registry.count "k", s.entries "k")) = some (true, 0, 1) := by
      decide +kernel
    obtain ⟨s, hr, hs⟩ := exists_reach_of_run hrun
    simp only [Prod.mk.injEq] at hs
    exact ⟨s, hr.mono fun _ _ _ => trivial, hs⟩
  · have hrun : (run WatchState.step (fun _ _ => true) .init [.connect, .teardown 0, .release 0,
        .start 0 (.watch ["k"]), .advance 0, .advance 0, .finish 0]).map
        (fun s => (s.quiet, s.registry.count "k", s.conns.all (fun c => !c.live), s.entries "k"))
          = some (true, 1, true, 0) := by
      decide +kernel
    obtain ⟨s, hr, hs⟩ := exists_reach_of_run hrun
    simp only [Prod.mk.injEq] at hs
    exact ⟨s, hr.mono fun _ _ _ => trivial, hs⟩

end Calod.Server
