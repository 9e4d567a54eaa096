import Calod.Server.Dispatch
import Calod.Server.Watch

/-!
# Transactions

`MULTI`, `EXEC`, `DISCARD`, `WATCH` and `UNWATCH` of `served_store.rs`, with commands that run one
after the other. Each connection has its list of watched keys with the versions it has recorded,
and its queue; a command of the store that succeeds bumps the versions of its `mutated_keys`.

* `watch_catches_change` — a changed key makes `EXEC` return the null array, if the commands that
  ran since the `WATCH` clear no database, evict nothing, find the key unexpired, and leave it as
  it is when they fail
* `flush_not_caught` — `FLUSHALL` bumps no version
-/

namespace Calod.Server

open Lib Store Store.Handler Calod.Storage Server.Sample Store.Sample WatchRegistry

variable {env : Env} {F : Type}

/-! ## Several keys at once -/

namespace WatchRegistry

def unwatchAll (r : WatchRegistry) (keys : List Key) : WatchRegistry := keys.foldl unwatch r

def bumpAll (r : WatchRegistry) (keys : List Key) : WatchRegistry := keys.foldl bump r

/-- `watch` for each key, with the versions. -/
def watchAll (r : WatchRegistry) : List Key → WatchRegistry × List (Key × Nat)
  | [] => (r, [])
  | key :: rest =>
    (((r.watch key).1.watchAll rest).1, (key, (r.watch key).2) :: ((r.watch key).1.watchAll rest).2)

variable {r : WatchRegistry} {k : Key}

theorem count_unwatchAll (keys : List Key) : ∀ r : WatchRegistry,
    (r.unwatchAll keys).count k = r.count k - keys.count k := by
  induction keys with
  | nil => exact fun r => rfl
  | cons key rest ih =>
    intro r
    rw [unwatchAll, List.foldl_cons, ← unwatchAll, ih, count_unwatch, List.count_cons]
    simp only [beq_iff_eq]
    omega

theorem current_unwatchAll (keys : List Key) : ∀ {r : WatchRegistry},
    0 < (r.unwatchAll keys).count k → (r.unwatchAll keys).current k = r.current k := by
  induction keys with
  | nil => exact fun _ => rfl
  | cons key rest ih =>
    intro r h
    rw [unwatchAll, List.foldl_cons, ← unwatchAll] at h ⊢
    rw [ih h]
    refine current_unwatch ?_
    rw [count_unwatchAll] at h
    omega

theorem count_bumpAll (keys : List Key) : ∀ r : WatchRegistry,
    (r.bumpAll keys).count k = r.count k := by
  induction keys with
  | nil => exact fun r => rfl
  | cons key rest ih =>
    intro r
    rw [bumpAll, List.foldl_cons, ← bumpAll, ih, count_bump]

theorem current_le_bumpAll (keys : List Key) : ∀ r : WatchRegistry,
    r.current k ≤ (r.bumpAll keys).current k := by
  induction keys with
  | nil => exact fun r => le_rfl
  | cons key rest ih =>
    intro r
    exact (current_le_bump k).trans (ih _)

theorem current_lt_bumpAll {keys : List Key} (hk : k ∈ keys) : ∀ {r : WatchRegistry},
    0 < r.count k → r.current k < (r.bumpAll keys).current k := by
  induction keys with
  | nil => cases hk
  | cons key rest ih =>
    intro r h
    rcases List.mem_cons.mp hk with rfl | hk
    · calc r.current k < (r.bump k).current k := by rw [current_bump h]; exact Nat.lt_succ_self _
        _ ≤ _ := current_le_bumpAll rest _
    · refine lt_of_le_of_lt (current_le_bump k) (ih hk ?_)
      rwa [count_bump]

theorem count_watchAll (keys : List Key) : ∀ r : WatchRegistry,
    (r.watchAll keys).1.count k = r.count k + keys.count k := by
  induction keys with
  | nil => exact fun r => rfl
  | cons key rest ih =>
    intro r
    rw [watchAll, ih, count_watch, List.count_cons]
    simp only [beq_iff_eq]
    omega

theorem current_watchAll (keys : List Key) : ∀ r : WatchRegistry,
    (r.watchAll keys).1.current k = r.current k := by
  induction keys with
  | nil => exact fun r => rfl
  | cons key rest ih =>
    intro r
    rw [watchAll, ih, current_watch]

theorem keys_watchAll (keys : List Key) : ∀ r : WatchRegistry,
    (r.watchAll keys).2.map Prod.fst = keys := by
  induction keys with
  | nil => exact fun r => rfl
  | cons key rest ih =>
    intro r
    rw [watchAll, List.map_cons, ih]

/-- The version that is recorded is the current one. -/
theorem mem_watchAll {keys : List Key} (hk : k ∈ keys) : ∀ r : WatchRegistry,
    (k, r.current k) ∈ (r.watchAll keys).2 := by
  induction keys with
  | nil => cases hk
  | cons key rest ih =>
    intro r
    rw [watchAll]
    rcases List.mem_cons.mp hk with rfl | hk
    · rw [watch_snd]
      exact List.mem_cons_self
    · have := ih hk (r.watch key).1
      rw [current_watch] at this
      exact List.mem_cons_of_mem _ this

end WatchRegistry

/-! ## Sessions -/

/-- The `TxnState` of a connection, and its database. -/
structure Session where
  watched : List (Key × Nat) := []
  queued : Option (List Command) := none
  dirty : Bool := false
  db : Fin numDatabases := 0

/-- What `EXEC` answers. -/
inductive ExecReply where
  /-- `EXEC without MULTI`. -/
  | withoutMulti
  | execAbort
  | nullArray
  /-- The replies of these commands. -/
  | array (cmds : List Command)

namespace Session

def keys (c : Session) : List Key := c.watched.map Prod.fst

/-- Has a version changed? -/
def aborted (r : WatchRegistry) (c : Session) : Bool := c.watched.any fun w => r.current w.1 ≠ w.2

/-- The decision of `handle_exec`. -/
def execReply (r : WatchRegistry) (c : Session) : ExecReply :=
  match c.queued with
  | none => .withoutMulti
  | some queued =>
    if c.dirty then .execAbort else if c.aborted r then .nullArray else .array queued

end Session

/-- The commands that `EXEC` runs. -/
def ExecReply.runs : ExecReply → List Command
  | .array cmds => cmds
  | _ => []

/-- `mutated_keys`. -/
def Command.mutatedKeys : Command → List Key
  | .write cmd => cmd.mutatedKeys
  | _ => []

theorem Command.footprint_keys (cmd : Command) : cmd.footprint.keys = cmd.mutatedKeys := by
  cases cmd with
  | write cmd => exact cmd.footprint_keys
  | _ => rfl

/-- The commands that end a watch. -/
def Command.endsWatch : Command → Bool
  | .other .exec | .other .discard | .other .unwatch | .other .reset => true
  | _ => false

/-- Is the result of the handler `Ok`? -/
def Command.succeeds (db : Fin numDatabases) (draw : Draw) (s : Dbs env) : Command → Bool
  | .write cmd =>
    match (cmd.run db draw s).1 with
    | .ok _ => true
    | .error _ => false
  | _ => true

/-- What a command meets when it runs. -/
structure Moment (F : Type) where
  draw : Draw
  dir : SnapshotDir F
  watermark : Option WalPosition

/-- The store, the registry and the connections. -/
structure TxnServer (env : Env) where
  dbs : Dbs env
  registry : WatchRegistry
  sessions : List Session

inductive TxnAction (F : Type) where
  | connect
  /-- The connection `i` sends a command; the commands that run then meet these moments. -/
  | send (i : Nat) (cmd : Command) (moments : Nat → Moment F)
  /-- The connection `i` is closed, and its place is taken by the next client. -/
  | close (i : Nat)

namespace TxnServer

variable (bin : Bincode F) (s : TxnServer env) (i : Nat) (c : Session)

def init : TxnServer env := ⟨Dbs.fresh, .new, []⟩

def put : TxnServer env := { s with sessions := s.sessions.set i c }

/-- The watched keys are released, and the connection goes on with an empty list. -/
def release : TxnServer env :=
  { s with
    registry := s.registry.unwatchAll c.keys
    sessions := s.sessions.set i { c with watched := [] } }

/-- The keys are registered, and recorded with their versions. -/
def register (keys : List Key) : TxnServer env :=
  { s with
    registry := (s.registry.watchAll keys).1
    sessions := s.sessions.set i { c with watched := c.watched ++ (s.registry.watchAll keys).2 } }

/-- The effect on the store, and the bumps. -/
def apply (db : Fin numDatabases) (cmd : Command) (m : Moment F) : TxnServer env :=
  { s with
    dbs := Call.effect bin ⟨db, cmd, m.draw, m.dir, m.watermark⟩ s.dbs
    registry :=
      if cmd.succeeds db m.draw s.dbs then s.registry.bumpAll cmd.mutatedKeys else s.registry }

/-- `execute_inner`. -/
def executeInner (db : Fin numDatabases) (cmd : Command) (m : Moment F) : TxnServer env :=
  match cmd, s.sessions[i]? with
  | .other (.select n), some c =>
    if h : n < numDatabases then s.put i { c with db := ⟨n, h⟩ } else s
  | .other .reset, some c => s.release i { watched := c.watched }
  | cmd, _ => s.apply bin db cmd m

/-- `execute` up to the commands that it runs. -/
def execute : Command → TxnServer env × List Command
  | .other .multi => (if c.queued.isSome then s else s.put i { c with queued := some [] }, [])
  | .other .exec =>
    (if c.queued.isNone then s else s.release i { c with queued := none, dirty := false },
      (c.execReply s.registry).runs)
  | .other .discard =>
    (if c.queued.isNone then s else s.release i { c with queued := none, dirty := false }, [])
  | .other (.watch keys) => (if c.queued.isSome then s else s.register i c keys, [])
  | .other .unwatch => (s.release i c, [])
  | cmd =>
    match c.queued with
    | none => (s, [cmd])
    | some queued =>
      -- A command that was not understood is not queued.
      if cmd matches .other (.unknown _) then (s.put i { c with dirty := true }, [])
      else (s.put i { c with queued := some (queued ++ [cmd]) }, [])

/-- Run commands one after the other, on the database that was selected before. -/
def runAll (db : Fin numDatabases) (moments : Nat → Moment F) (s : TxnServer env) :
    List Command → Nat → TxnServer env
  | [], _ => s
  | cmd :: rest, n => runAll db moments (s.executeInner bin i db cmd (moments n)) rest (n + 1)

def step : TxnAction F → Option (TxnServer env)
  | .connect => some { s with sessions := s.sessions ++ [{}] }
  | .send i cmd moments => s.sessions[i]?.map fun c =>
    (s.execute i c cmd).1.runAll bin i c.db moments (s.execute i c cmd).2 0
  | .close i => s.sessions[i]?.map fun c => s.release i { watched := c.watched }

end TxnServer

open TxnServer

/-! ## Registrations -/

namespace TxnServer

variable {bin : Bincode F} {s s' : TxnServer env} {i j : Nat} {c c' : Session}

/-- The registry counts the entries of the lists. -/
def Exact (s : TxnServer env) : Prop :=
  ∀ k, s.registry.count k = (s.sessions.map (·.keys.count k)).sum

theorem exact_init : (init : TxnServer env).Exact := by
  intro k
  simp [init]

theorem Exact.put (h : s.Exact) (hc : s.sessions[i]? = some c) (hw : c'.watched = c.watched) :
    (s.put i c').Exact := by
  intro k
  have hsum := sum_map_set (·.keys.count k) c' hc
  have hkeys : c'.keys = c.keys := by rw [Session.keys, hw, Session.keys]
  have h0 := h k
  simp only [hkeys] at hsum
  show s.registry.count k = ((s.sessions.set i c').map (·.keys.count k)).sum
  omega

theorem Exact.release (h : s.Exact) (hc : s.sessions[i]? = some c) (hw : c'.watched = c.watched) :
    (s.release i c').Exact := by
  intro k
  have hsum := sum_map_set (·.keys.count k) { c' with watched := [] } hc
  have hkeys : c'.keys = c.keys := by rw [Session.keys, hw, Session.keys]
  have h0 := h k
  show (s.registry.unwatchAll c'.keys).count k
    = ((s.sessions.set i { c' with watched := [] }).map (·.keys.count k)).sum
  rw [count_unwatchAll, hkeys]
  simp only [show ({ c' with watched := [] } : Session).keys.count k = 0 from rfl] at hsum
  omega

theorem Exact.register (h : s.Exact) (hc : s.sessions[i]? = some c) (keys : List Key) :
    (s.register i c keys).Exact := by
  intro k
  have hsum := sum_map_set (·.keys.count k)
    { c with watched := c.watched ++ (s.registry.watchAll keys).2 } hc
  have h0 := h k
  show (s.registry.watchAll keys).1.count k = ((s.sessions.set i
    { c with watched := c.watched ++ (s.registry.watchAll keys).2 }).map (·.keys.count k)).sum
  rw [count_watchAll]
  simp only [Session.keys, List.map_append, keys_watchAll, List.count_append]
    at hsum h0 ⊢
  omega

theorem Exact.apply (h : s.Exact) (db : Fin numDatabases) (cmd : Command) (m : Moment F) :
    (s.apply bin db cmd m).Exact := by
  intro k
  show (if cmd.succeeds db m.draw s.dbs then s.registry.bumpAll cmd.mutatedKeys
    else s.registry).count k = _
  split
  · rw [count_bumpAll]
    exact h k
  · exact h k

theorem Exact.executeInner (h : s.Exact) (db : Fin numDatabases) (cmd : Command) (m : Moment F) :
    (s.executeInner bin i db cmd m).Exact := by
  unfold TxnServer.executeInner
  split
  · next hc =>
    split
    · exact h.put hc rfl
    · exact h
  · next hc => exact h.release hc rfl
  · exact h.apply db _ m

theorem Exact.runAll (db : Fin numDatabases) (moments : Nat → Moment F) (cmds : List Command) :
    ∀ {s : TxnServer env} n, s.Exact → (s.runAll bin i db moments cmds n).Exact := by
  induction cmds with
  | nil => exact fun _ h => h
  | cons cmd rest ih => exact fun n h => ih (n + 1) (h.executeInner db cmd (moments n))

theorem Exact.execute (h : s.Exact) (hc : s.sessions[i]? = some c) (cmd : Command) :
    (s.execute i c cmd).1.Exact := by
  unfold TxnServer.execute
  split
  · dsimp only
    split
    · exact h
    · exact h.put hc rfl
  · dsimp only
    split
    · exact h
    · exact h.release hc rfl
  · dsimp only
    split
    · exact h
    · exact h.release hc rfl
  · dsimp only
    split
    · exact h
    · exact h.register hc _
  · exact h.release hc rfl
  · split
    · exact h
    · split
      · exact h.put hc rfl
      · exact h.put hc rfl

theorem Exact.step (h : s.Exact) {a : TxnAction F} (hs : s.step bin a = some s') : s'.Exact := by
  cases a with
  | connect =>
    cases hs
    intro k
    rw [h k]
    simp [Session.keys]
  | send i cmd moments =>
    obtain ⟨c, hc, rfl⟩ := Option.map_eq_some_iff.mp hs
    exact (h.execute hc cmd).runAll c.db moments _ 0
  | close i =>
    obtain ⟨c, hc, rfl⟩ := Option.map_eq_some_iff.mp hs
    exact h.release hc rfl

/-! ## A watched key -/

variable (bin) in
/-- A command that clears no database and evicts nothing, finds the key unexpired, and if it fails
leaves it as it is. -/
structure Spares (a : Addr env) (k : Key) (s : TxnServer env) (db : Fin numDatabases)
    (cmd : Command) (m : Moment F) : Prop where
  flushes : cmd.footprint.flushes = false
  evictionless : m.draw.Evictionless
  live : Access.Live m.draw (s.dbs.entry a k)
  failed : cmd.succeeds db m.draw s.dbs = false →
    (s.apply bin db cmd m).dbs.entry a k = s.dbs.entry a k

variable (bin) in
/-- Each of the commands spares the key when its turn comes. -/
def SparesAll (a : Addr env) (k : Key) (i : Nat) (db : Fin numDatabases)
    (moments : Nat → Moment F) (s : TxnServer env) : List Command → Nat → Prop
  | [], _ => True
  | cmd :: rest, n => Spares bin a k s db cmd (moments n) ∧
    SparesAll a k i db moments (s.executeInner bin i db cmd (moments n)) rest (n + 1)

variable (bin) in
/-- The connection `i` goes on watching, and what is run spares the key. -/
def Undisturbed (i : Nat) (a : Addr env) (k : Key) (s : TxnServer env) : TxnAction F → Prop
  | .connect => True
  | .close j => j ≠ i
  | .send j cmd moments => (j = i → cmd.endsWatch = false) ∧ ∀ c, s.sessions[j]? = some c →
    SparesAll bin a k j c.db moments (s.execute j c cmd).1 (s.execute j c cmd).2 0

/-- The connection `i` has recorded the version `v` of the key; as long as it is the current one,
the entry is the one of then. -/
structure Kept (i : Nat) (a : Addr env) (k : Key) (v : Nat) (e : Option CacheEntry)
    (s : TxnServer env) : Prop where
  exact : s.Exact
  watched : ∃ c, s.sessions[i]? = some c ∧ (k, v) ∈ c.watched
  le : v ≤ s.registry.current k
  same : s.registry.current k = v → s.dbs.entry a k = e

variable {a : Addr env} {k : Key} {v : Nat} {e : Option CacheEntry}

theorem Kept.count_pos (h : Kept i a k v e s) : 0 < s.registry.count k := by
  obtain ⟨c, hc, hk⟩ := h.watched
  rw [h.exact k]
  have hpos : 0 < c.keys.count k := List.count_pos_iff.mpr (List.mem_map_of_mem (f := Prod.fst) hk)
  exact lt_of_lt_of_le hpos
    (List.le_sum_of_mem (List.mem_map_of_mem (f := (·.keys.count k)) (List.mem_of_getElem? hc)))

/-- The list of `i` after a change to the list of `j`. -/
theorem watched_set {sessions : List Session} (hj : sessions[j]? = some c)
    (h : ∃ c, sessions[i]? = some c ∧ (k, v) ∈ c.watched)
    (hw : j = i → (k, v) ∈ c.watched → (k, v) ∈ c'.watched) :
    ∃ d, (sessions.set j c')[i]? = some d ∧ (k, v) ∈ d.watched := by
  obtain ⟨d, hd, hk⟩ := h
  by_cases hji : j = i
  · subst hji
    rw [hd] at hj
    cases hj
    exact ⟨c', List.getElem?_set_self (List.getElem?_eq_some_iff.mp hd).1, hw rfl hk⟩
  · exact ⟨d, (List.getElem?_set_ne hji).trans hd, hk⟩

variable (hb : bin.Lawful) (h : Kept i a k v e s) (hj : s.sessions[j]? = some c)

include h hj in
theorem Kept.put (hw : c'.watched = c.watched) : Kept i a k v e (s.put j c') where
  exact := h.exact.put hj hw
  watched := watched_set hj h.watched fun _ hk => hw ▸ hk
  le := h.le
  same := h.same

include h hj in
/-- Other connections that stop watching the key do not make its version go away. -/
theorem Kept.release (hji : j ≠ i) (hw : c'.watched = c.watched) :
    Kept i a k v e (s.release j c') := by
  have hex : (s.release j c').Exact := h.exact.release hj hw
  have hwatched : ∃ d, (s.sessions.set j { c' with watched := [] })[i]? = some d ∧
      (k, v) ∈ d.watched := watched_set hj h.watched fun hji' => absurd hji' hji
  have hpos : 0 < (s.registry.unwatchAll c'.keys).count k := by
    obtain ⟨d, hd, hk⟩ := hwatched
    have hcount : (s.registry.unwatchAll c'.keys).count k = _ := hex k
    rw [hcount]
    have hone : 0 < d.keys.count k :=
      List.count_pos_iff.mpr (List.mem_map_of_mem (f := Prod.fst) hk)
    exact lt_of_lt_of_le hone
      (List.le_sum_of_mem (List.mem_map_of_mem (f := (·.keys.count k)) (List.mem_of_getElem? hd)))
  have hcur : (s.release j c').registry.current k = s.registry.current k :=
    current_unwatchAll _ hpos
  exact ⟨hex, hwatched, hcur ▸ h.le, fun hv => h.same (hcur ▸ hv)⟩

include h hj in
theorem Kept.register (keys : List Key) : Kept i a k v e (s.register j c keys) := by
  have hcur : (s.register j c keys).registry.current k = s.registry.current k :=
    current_watchAll keys _
  exact ⟨h.exact.register hj keys,
    watched_set hj h.watched fun _ hk => List.mem_append_left _ hk,
    hcur ▸ h.le, fun hv => h.same (hcur ▸ hv)⟩

/-- A command that does not name the key leaves it alone. -/
theorem Spares.entry_eq {db : Fin numDatabases} {cmd : Command} {m : Moment F} (hb : bin.Lawful)
    (h : Spares bin a k s db cmd m) (hk : k ∉ cmd.mutatedKeys) :
    (s.apply bin db cmd m).dbs.entry a k = s.dbs.entry a k := by
  show (Call.effect bin ⟨db, cmd, m.draw, m.dir, m.watermark⟩ s.dbs).entry a k = _
  by_cases hr : cmd = .debugReload
  · subst hr
    exact (loadVerified_in_place hb m.watermark).entry a k
  · rw [Call.effect_of_ne hr]
    exact (cmd.uses_handler db).frame h.flushes h.evictionless (cmd.footprint_keys ▸ hk) h.live

include hb h in
theorem Kept.apply {db : Fin numDatabases} {cmd : Command} {m : Moment F}
    (hs : Spares bin a k s db cmd m) : Kept i a k v e (s.apply bin db cmd m) := by
  refine ⟨h.exact.apply db cmd m, h.watched, ?_, ?_⟩
  · refine h.le.trans ?_
    show _ ≤ (if cmd.succeeds db m.draw s.dbs then s.registry.bumpAll cmd.mutatedKeys
      else s.registry).current k
    split
    · exact current_le_bumpAll _ _
    · exact le_rfl
  · intro hv
    by_cases hok : cmd.succeeds db m.draw s.dbs = true
    · have hreg : (s.apply bin db cmd m).registry = s.registry.bumpAll cmd.mutatedKeys :=
        if_pos hok
      rw [hreg] at hv
      -- a key that was written has a newer version
      have hk : k ∉ cmd.mutatedKeys := by
        intro hk
        have := current_lt_bumpAll hk h.count_pos
        have := h.le
        omega
      have hcur : s.registry.current k = v :=
        le_antisymm (hv ▸ current_le_bumpAll _ _) h.le
      rw [hs.entry_eq hb hk]
      exact h.same hcur
    · have hreg : (s.apply bin db cmd m).registry = s.registry := if_neg hok
      rw [hs.failed (Bool.not_eq_true _ ▸ hok)]
      exact h.same (hreg ▸ hv)

include hb h in
theorem Kept.executeInner {db : Fin numDatabases} {cmd : Command} {m : Moment F}
    (hj : j = i → cmd.endsWatch = false) (hs : Spares bin a k s db cmd m) :
    Kept i a k v e (s.executeInner bin j db cmd m) := by
  unfold TxnServer.executeInner
  split
  · next hc =>
    split
    · exact h.put hc rfl
    · exact h
  · next hc => exact h.release hc (fun hji => by cases hj hji) rfl
  · exact h.apply hb hs

theorem Kept.runAll (hb : bin.Lawful) {db : Fin numDatabases} {moments : Nat → Moment F}
    {cmds : List Command} (hj : j = i → ∀ cmd ∈ cmds, cmd.endsWatch = false) :
    ∀ {s} {n}, Kept i a k v e s → SparesAll bin a k j db moments s cmds n →
      Kept i a k v e (s.runAll bin j db moments cmds n) := by
  induction cmds with
  | nil => exact fun h _ => h
  | cons cmd rest ih =>
    intro s n h hs
    refine ih (fun hji c hc => hj hji c (List.mem_cons_of_mem _ hc)) ?_ hs.2
    exact h.executeInner hb (fun hji => hj hji cmd List.mem_cons_self) hs.1

theorem Kept.execute (h : Kept i a k v e s) (hc : s.sessions[j]? = some c) {cmd : Command}
    (hj : j = i → cmd.endsWatch = false) : Kept i a k v e (s.execute j c cmd).1 := by
  unfold TxnServer.execute
  split
  · dsimp only
    split
    · exact h
    · exact h.put hc rfl
  · dsimp only
    split
    · exact h
    · exact h.release hc (fun hji => by cases hj hji) rfl
  · dsimp only
    split
    · exact h
    · exact h.release hc (fun hji => by cases hj hji) rfl
  · dsimp only
    split
    · exact h
    · exact h.register hc _
  · exact h.release hc (fun hji => by cases hj hji) rfl
  · split
    · exact h
    · split
      · exact h.put hc rfl
      · exact h.put hc rfl

/-- Apart from `EXEC`, a command runs itself or nothing. -/
theorem execute_runs {cmd cmd' : Command} (hcmd : cmd.endsWatch = false)
    (h : cmd' ∈ (s.execute i c cmd).2) : cmd' = cmd := by
  unfold TxnServer.execute at h
  split at h
  · cases h
  · cases hcmd
  · cases h
  · cases h
  · cases h
  · split at h
    · exact List.mem_singleton.mp h
    · split at h <;> cases h

include hb h in
theorem Kept.step {act : TxnAction F} (hu : Undisturbed bin i a k s act)
    (hs : s.step bin act = some s') : Kept i a k v e s' := by
  cases act with
  | connect =>
    have hex := h.exact.step hs
    cases hs
    obtain ⟨c, hc, hk⟩ := h.watched
    refine ⟨hex, ⟨c, ?_, hk⟩, h.le, h.same⟩
    exact (List.getElem?_append_left (List.getElem?_eq_some_iff.mp hc).1).trans hc
  | send j cmd moments =>
    obtain ⟨c, hc, rfl⟩ := Option.map_eq_some_iff.mp hs
    refine (h.execute hc hu.1).runAll hb (fun hji cmd' hm => ?_) (hu.2 c hc)
    rw [execute_runs (hu.1 hji) hm]
    exact hu.1 hji
  | close j =>
    obtain ⟨c, hc, rfl⟩ := Option.map_eq_some_iff.mp hs
    exact h.release hc hu rfl

theorem kept_register (h : s.Exact) (hc : s.sessions[i]? = some c) {keys : List Key}
    (hk : k ∈ keys) (a : Addr env) :
    Kept i a k (s.registry.current k) (s.dbs.entry a k) (s.register i c keys) where
  exact := h.register hc keys
  watched := ⟨_, List.getElem?_set_self (List.getElem?_eq_some_iff.mp hc).1,
    List.mem_append_right _ (mem_watchAll hk _)⟩
  le := (current_watchAll keys _).ge
  same _ := rfl

end TxnServer

/-- **`WATCH` catches a change.** The connection `i` watches `k`; other commands of any connections
run, under the conditions of `Undisturbed`; then the entry of `k` is not the one of before. The
`EXEC` of `i` returns the null array, and leaves the store alone. -/
theorem watch_catches_change {bin : Bincode F} (hb : bin.Lawful) {s s₁ t : TxnServer env} {i : Nat}
    {c c' : Session} {keys : List Key} {k : Key} {queued : List Command}
    {moments : Nat → Moment F}
    (hr : Reach (step bin) (fun _ _ => True) .init s)
    (hc : s.sessions[i]? = some c) (hq : c.queued = none) (hk : k ∈ keys)
    (hw : s.step bin (.send i (.other (.watch keys)) moments) = some s₁)
    (hu : Reach (step bin) (Undisturbed bin i (env.addr c.db k) k) s₁ t)
    (hc' : t.sessions[i]? = some c') (hq' : c'.queued = some queued) (hd : c'.dirty = false)
    (hne : t.dbs.entry (env.addr c.db k) k ≠ s.dbs.entry (env.addr c.db k) k) :
    c'.execReply t.registry = .nullArray ∧ ∀ moments, ∃ t',
      t.step bin (.send i (.other .exec) moments) = some t' ∧ t'.dbs = t.dbs := by
  have hex : s.Exact := hr.invariant exact_init fun _ _ _ h _ hs => h.step hs
  have hs₁ : s₁ = s.register i c keys := by
    simpa [step, hc, TxnServer.execute, hq, TxnServer.runAll] using hw.symm
  subst hs₁
  have hkept := hu.invariant (kept_register hex hc hk _)
    fun _ _ _ h hu hs => h.step hb hu hs
  have habort : c'.aborted t.registry = true := by
    obtain ⟨d, hd', hmem⟩ := hkept.watched
    rw [hc'] at hd'
    cases hd'
    refine List.any_eq_true.mpr ⟨_, hmem, ?_⟩
    exact decide_eq_true fun hcur => hne (hkept.same hcur)
  have hreply : c'.execReply t.registry = .nullArray := by
    simp [Session.execReply, hq', hd, habort]
  have hexec : t.execute i c' (.other .exec) =
      (t.release i { c' with queued := none, dirty := false }, []) := by
    simp [TxnServer.execute, hreply, hq', ExecReply.runs]
  refine ⟨hreply, fun moments => ⟨_, by rw [step, hc']; rfl, ?_⟩⟩
  dsimp only
  rw [hexec]
  rfl

namespace Sample

def moment : Moment (List (Key × CacheEntry)) :=
  ⟨Store.Sample.draw 0, ⟨"snapshots", none, []⟩, none⟩

def send (i : Nat) (cmd : Command) : TxnAction (List (Key × CacheEntry)) :=
  .send i cmd fun _ => moment

def txnStep : TxnServer Store.Sample.env → TxnAction (List (Key × CacheEntry)) →
    Option (TxnServer Store.Sample.env) := TxnServer.step Store.Sample.bincode

/-- Two connections; the second one sets the key. -/
def setByOther : List (TxnAction (List (Key × CacheEntry))) :=
  [.connect, .connect, send 1 (.write (set "k"))]

/-- Another value for the key. -/
def setAgain : Command := .write (.key (.set "k" [0x32] none none))

/-- The bytes under the key of database 0. -/
def bytes (s : TxnServer Store.Sample.env) (key : Key) : Option Bytes :=
  (s.dbs.entry (Store.Sample.env.addr 0 key) key).bind fun e => (Kind.string "").project e.value

end Sample

/-- The second connection sets the watched key again, and the first one begins a transaction. -/
theorem watch_catches_change_set :
    ∃ (t : TxnServer Store.Sample.env) (c' : Session), t.sessions[0]? = some c' ∧
      bytes t "k" = some [0x32] ∧ c'.execReply t.registry = .nullArray := by
  have hrun : ((run txnStep (fun _ _ => true) .init setByOther).bind fun s =>
      (txnStep s (Sample.send 0 (.other (.watch ["k"])))).bind fun s₁ =>
      (txnStep s₁ (Sample.send 1 setAgain)).bind fun s₂ =>
      (txnStep s₂ (Sample.send 0 (.other .multi))).map fun t => decide (
        s.sessions[0]?.map (fun c => (c.queued.isNone, c.db)) = some (true, 0) ∧
        s₁.sessions[1]?.map (fun c => (c.queued.isNone, c.db)) = some (true, 0) ∧
        t.sessions[0]?.map (fun c => (c.queued.isSome, c.dirty)) = some (true, false) ∧
        (s₁.dbs.entry (Store.Sample.env.addr 0 "k") "k").all (fun e => !e.isExpired 0) = true ∧
        setAgain.succeeds 0 moment.draw s₁.dbs = true ∧
        bytes s "k" = some [0x31] ∧ bytes t "k" = some [0x32]))
      = some true := by decide +kernel
  obtain ⟨s, hs, hrun⟩ := Option.bind_eq_some_iff.mp hrun
  obtain ⟨s₁, hs₁, hrun⟩ := Option.bind_eq_some_iff.mp hrun
  obtain ⟨s₂, hs₂, hrun⟩ := Option.bind_eq_some_iff.mp hrun
  obtain ⟨t, ht, hrun⟩ := Option.map_eq_some_iff.mp hrun
  obtain ⟨hc, hd, hc', hlive, hok, hold, hnew⟩ := of_decide_eq_true hrun
  simp only [Option.map_eq_some_iff, Prod.mk.injEq] at hc hd hc'
  obtain ⟨c, hc, hq, hdb⟩ := hc
  obtain ⟨d, hd, hdq, hddb⟩ := hd
  obtain ⟨c', hc', hq', hdirty⟩ := hc'
  obtain ⟨queued, hq'⟩ := Option.isSome_iff_exists.mp hq'
  have hr : Reach txnStep (fun _ _ => True) .init s :=
    (reach_of_run .init hs).mono fun _ _ _ => trivial
  have hexec : s₁.execute 1 d setAgain = (s₁, [setAgain]) := by
    simp [TxnServer.execute, setAgain, Option.isNone_iff_eq_none.mp hdq]
  have hset : Undisturbed bincode 0 (Store.Sample.env.addr c.db "k") "k" s₁
      (Sample.send 1 setAgain) := by
    refine And.intro (fun h => by cases h) fun d' hd' => ?_
    rw [hd] at hd'
    cases hd'
    rw [hexec, hddb, hdb]
    refine ⟨⟨rfl, draw_evictionless 0, fun x hx => ?_, fun h => ?_⟩, trivial⟩
    · rw [hx] at hlive
      exact Bool.not_eq_true' _ ▸ hlive
    · exact absurd (hok.symm.trans h) (by decide)
  have hmulti : Undisturbed bincode 0 (Store.Sample.env.addr c.db "k") "k" s₂
      (Sample.send 0 (.other .multi)) := And.intro (fun _ => rfl) fun _ _ => trivial
  have hne : t.dbs.entry (Store.Sample.env.addr c.db "k") "k"
      ≠ s.dbs.entry (Store.Sample.env.addr c.db "k") "k" := by
    rw [hdb]
    intro he
    rw [bytes, he, ← bytes, hold] at hnew
    cases hnew
  exact ⟨t, c', hc', hnew, (watch_catches_change bincode_lawful hr hc
    (Option.isNone_iff_eq_none.mp hq) List.mem_cons_self hs₁
    ((Reach.init.step hset hs₂).step hmulti ht) hc' hq' hdirty hne).1⟩

/-- **A flush is not caught.** `FLUSHALL` removes the watched key, and `EXEC` runs its queue. -/
theorem flush_not_caught :
    ∃ s s₁ t t', Reach txnStep (fun _ _ => True) .init s ∧
      txnStep s (Sample.send 0 (.other (.watch ["k"]))) = some s₁ ∧
      Reach txnStep (fun _ _ => True) s₁ t ∧
      bytes s "k" = some [0x31] ∧ bytes t "k" = none ∧
      (t.sessions[0]?.map fun c => (c.execReply t.registry).runs.length) = some 1 ∧
      txnStep t (Sample.send 0 (.other .exec)) = some t' ∧
      bytes t' "seen" = some [0x31] := by
  have hrun : ((run txnStep (fun _ _ => true) .init setByOther).bind fun s =>
      (txnStep s (Sample.send 0 (.other (.watch ["k"])))).bind fun s₁ =>
      (run txnStep (fun _ _ => true) s₁ [Sample.send 1 (.write (.key .flushAll)),
        Sample.send 0 (.other .multi), Sample.send 0 (.write (set "seen"))]).bind fun t =>
      (txnStep t (Sample.send 0 (.other .exec))).map fun t' =>
        (bytes s "k", bytes t "k",
          t.sessions[0]?.map fun c => (c.execReply t.registry).runs.length,
          bytes t' "seen"))
      = some (some [0x31], none, some 1, some [0x31]) := by decide +kernel
  obtain ⟨s, hs, hrun⟩ := Option.bind_eq_some_iff.mp hrun
  obtain ⟨s₁, hs₁, hrun⟩ := Option.bind_eq_some_iff.mp hrun
  obtain ⟨t, ht, hrun⟩ := Option.bind_eq_some_iff.mp hrun
  obtain ⟨t', ht', hrun⟩ := Option.map_eq_some_iff.mp hrun
  simp only [Prod.mk.injEq] at hrun
  exact ⟨s, s₁, t, t', (reach_of_run .init hs).mono fun _ _ _ => trivial, hs₁,
    (reach_of_run .init ht).mono fun _ _ _ => trivial, hrun.1, hrun.2.1, hrun.2.2.1, ht',
    hrun.2.2.2⟩

end Calod.Server
