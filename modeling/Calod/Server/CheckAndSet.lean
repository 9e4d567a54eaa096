import Calod.Server.Watch

/-!
# Check and set

Clients that count a key up with `WATCH`, `GET`, `MULTI`, `SET` and `EXEC`
(`calod-resp/src/cld_srv/served_store.rs`, `handle_watch`, `handle_exec` and the write path of
`execute_inner`). `EXEC` compares the versions, releases the watches and only then runs the `SET`,
which is applied to the shard before the version is bumped; other clients run in between.

* `no_update_lost` — the key has grown by one for every `EXEC` that was not aborted, as long as no
  client compares its version between another's comparison and its bump
* `update_lost` — two clients that compare before either of them bumps both write the same value
-/

namespace Calod.Server

open Lib WatchRegistry

/-- Where a client of the key is. -/
inductive Counting where
  | idle
  /-- `WATCH` has answered. -/
  | watched (version : Nat)
  /-- `GET` has answered, and the `SET` of the successor is queued. -/
  | read (version : Nat) (value : Int)
  /-- `EXEC` has compared the versions; `none` if it is aborted, and the value to set otherwise. -/
  | decided (next : Option Int)
  /-- In `unwatch`, after the last watcher has gone. -/
  | dropping (next : Option Int)
  | released (next : Option Int)
  /-- The `SET` is applied to the shard. -/
  | applied
  deriving DecidableEq

/-- The registry, what the shard holds under the key, the clients, and how many `EXEC`s have
returned something else than the null array. -/
structure CountingState where
  registry : WatchRegistry
  value : Int
  clients : List Counting
  succeeded : Nat

namespace CountingState

def init (value : Int) (n : Nat) : CountingState := ⟨.new, value, List.replicate n .idle, 0⟩

/-- The next step of a client: the new registry, value and phase. -/
def advance (key : String) (s : CountingState) : Counting → WatchRegistry × Int × Counting
  | .idle => ((s.registry.watch key).1, s.value, .watched (s.registry.watch key).2)
  | .watched version => (s.registry, s.value, .read version s.value)
  | .read version value =>
    (s.registry, s.value,
      .decided (if s.registry.current key ≠ version then none else some (value + 1)))
  | .decided next =>
    ((s.registry.decrement key).1, s.value,
      if (s.registry.decrement key).2 then .dropping next else .released next)
  | .dropping next => (s.registry.removeUnwatched key, s.value, .released next)
  | .released none => (s.registry, s.value, .idle)
  | .released (some value) => (s.registry, value, .applied)
  | .applied => (s.registry.bump key, s.value, .idle)

/-- A step of the client `i`. -/
def step (key : String) (s : CountingState) (i : Nat) : Option CountingState :=
  s.clients[i]?.map fun c =>
    let (registry, value, c') := s.advance key c
    ⟨registry, value, s.clients.set i c', s.succeeded + if c = .applied then 1 else 0⟩

end CountingState

open CountingState

/-! ## Clients between their comparison and their bump -/

namespace Counting

/-- Is the client registered as a watcher? -/
def registered : Counting → Nat
  | .watched _ | .read _ _ | .decided _ => 1
  | _ => 0

/-- The version that the client has recorded, as long as it may compare it. -/
def version : Counting → Option Nat
  | .watched version | .read version _ => some version
  | _ => none

/-- The value that the client is going to set, once its comparison has succeeded. -/
def next : Counting → Option Int
  | .decided next | .dropping next | .released next => next
  | _ => none

/-- Has the comparison succeeded, with the bump still to come? -/
def committing (c : Counting) : Bool := c.next.isSome || c matches .applied

end Counting

open Counting

namespace CountingState

/-- No client compares its version while another one is committing. -/
def exclusive (s : CountingState) (i : Nat) : Bool :=
  match s.clients[i]? with
  | some (.read _ _) => s.clients.all fun c => !c.committing
  | _ => true

/-- While the clients commit one at a time: the registry counts the registered ones, a recorded
version that is still current goes with the current value, unless a bump is due, and the value has
grown with every `SET`. -/
structure Consistent (key : String) (v₀ : Int) (s : CountingState) : Prop where
  count : s.registry.count key = (s.clients.map Counting.registered).sum
  old : ∀ c ∈ s.clients, ∀ v, c.version = some v → v ≤ s.registry.current key
  seen : ∀ version value, .read version value ∈ s.clients → s.registry.current key = version →
    .applied ∉ s.clients → value = s.value
  next : ∀ c ∈ s.clients, ∀ v, c.next = some v → v = s.value + 1
  alone : ∀ {i j : Nat} {c d : Counting}, s.clients[i]? = some c → s.clients[j]? = some d →
    c.committing = true → d.committing = true → i = j
  total : s.value = v₀ + s.succeeded + s.clients.count .applied

variable {key : String} {v₀ : Int} {s s' : CountingState} {i : Nat} {c c' : Counting}

theorem consistent_init (n : Nat) : Consistent key v₀ (init v₀ n) where
  count := by simp [init, registered]
  old c hc v hv := by
    obtain rfl := List.eq_of_mem_replicate hc
    cases hv
  seen _ _ hc := by cases List.eq_of_mem_replicate hc
  next c hc v hv := by
    obtain rfl := List.eq_of_mem_replicate hc
    cases hv
  alone {i j c d} hc _ hcc _ := by
    obtain rfl := List.eq_of_mem_replicate (List.mem_of_getElem? hc)
    cases hcc
  total := by simp [init, List.count_replicate]

theorem Consistent.count_pos (h : Consistent key v₀ s) (hc : c ∈ s.clients)
    (hr : c.registered = 1) : 0 < s.registry.count key := by
  rw [h.count]
  have := List.le_sum_of_mem (List.mem_map_of_mem (f := registered) hc)
  omega

theorem Counting.registered_of_version {v : Nat} (h : c.version = some v) : c.registered = 1 := by
  cases c <;> first | rfl | cases h

section

variable (h : Consistent key v₀ s)

include h

/-- Only one client commits: no other one does when `i` does, before or after its step. -/
theorem alone_set (hc : s.clients[i]? = some c)
    (hone : c'.committing = true → c.committing = true ∨ ∀ d ∈ s.clients, d.committing = false)
    {j k : Nat} {d e : Counting} (hj : (s.clients.set i c')[j]? = some d)
    (hk : (s.clients.set i c')[k]? = some e) (hd : d.committing = true) (he : e.committing = true) :
    j = k := by
  -- an index of the new list holds an old client or is `i`
  have hold : ∀ {j : Nat} {d : Counting}, (s.clients.set i c')[j]? = some d →
      j = i ∧ d = c' ∨ s.clients[j]? = some d := by
    intro j d hj
    by_cases hji : i = j
    · subst hji
      rw [List.getElem?_set_self (List.getElem?_eq_some_iff.mp hc).1] at hj
      exact .inl ⟨rfl, (Option.some.inj hj).symm⟩
    · rw [List.getElem?_set_ne hji] at hj
      exact .inr hj
  rcases hold hj with ⟨rfl, rfl⟩ | hj' <;> rcases hold hk with ⟨rfl, rfl⟩ | hk'
  · rfl
  · rcases hone hd with hcc | hno
    · exact h.alone hc hk' hcc he
    · exact absurd he (by simp [hno e (List.mem_of_getElem? hk')])
  · rcases hone he with hcc | hno
    · exact h.alone hj' hc hd hcc
    · exact absurd hd (by simp [hno d (List.mem_of_getElem? hj')])
  · exact h.alone hj' hk' hd he

/-- A step that neither applies nor bumps. -/
theorem Consistent.move (hc : s.clients[i]? = some c) {r' : WatchRegistry}
    (hcur : r'.current key = s.registry.current key ∨ s.registry.count key = 0)
    (hcount : r'.count key + c.registered = s.registry.count key + c'.registered)
    (hna : c ≠ .applied) (hna' : c' ≠ .applied)
    (hver : ∀ v, c'.version = some v → v ≤ r'.current key)
    (hseen : ∀ version value, c' = .read version value → value = s.value)
    (hnext : ∀ v, c'.next = some v → v = s.value + 1)
    (hone : c'.committing = true → c.committing = true ∨ ∀ d ∈ s.clients, d.committing = false) :
    Consistent key v₀ ⟨r', s.value, s.clients.set i c', s.succeeded⟩ := by
  have hsame : ∀ d ∈ s.clients, ∀ v, d.version = some v →
      r'.current key = s.registry.current key := by
    intro d hd v hv
    have := h.count_pos hd (Counting.registered_of_version hv)
    exact hcur.resolve_right (by omega)
  have happ : (s.clients.set i c').count .applied = s.clients.count .applied := by
    obtain ⟨hi, rfl⟩ := List.getElem?_eq_some_iff.mp hc
    rw [List.count_set hi]
    simp [hna, hna']
  refine ⟨?_, ?_, ?_, ?_, alone_set h hc hone, ?_⟩
  · have := sum_map_set registered c' hc
    have := h.count
    show r'.count key = ((s.clients.set i c').map registered).sum
    omega
  · intro d hd v hv
    rcases List.mem_or_eq_of_mem_set hd with hd | rfl
    · exact hsame d hd v hv ▸ h.old d hd v hv
    · exact hver v hv
  · intro version value hd hv hno
    rcases List.mem_or_eq_of_mem_set hd with hd | hd
    · refine h.seen version value hd ((hsame _ hd version rfl).symm.trans hv) ?_
      rw [← List.count_eq_zero, ← happ]
      exact List.count_eq_zero.mpr hno
    · exact hseen version value hd.symm
  · intro d hd v hv
    rcases List.mem_or_eq_of_mem_set hd with hd | rfl
    · exact h.next d hd v hv
    · exact hnext v hv
  · show s.value = v₀ + s.succeeded + ((s.clients.set i c').count .applied : Nat)
    rw [happ]
    exact h.total

/-- The `SET` of a client: nobody else is committing. -/
theorem Consistent.apply {v : Int} (hc : s.clients[i]? = some (.released (some v))) :
    Consistent key v₀ ⟨s.registry, v, s.clients.set i .applied, s.succeeded⟩ := by
  have hv : v = s.value + 1 := h.next _ (List.mem_of_getElem? hc) v rfl
  have hi := (List.getElem?_eq_some_iff.mp hc).1
  have hmem : .applied ∈ s.clients.set i .applied := List.mem_set hi _
  refine ⟨?_, ?_, fun _ _ _ _ hno => absurd hmem hno, ?_, alone_set h hc fun _ => .inl rfl, ?_⟩
  · have := sum_map_set registered .applied hc
    have := h.count
    simp only [registered] at *
    omega
  · intro d hd w hw
    rcases List.mem_or_eq_of_mem_set hd with hd | rfl
    · exact h.old d hd w hw
    · cases hw
  · intro d hd w hw
    obtain ⟨j, hj⟩ := List.getElem?_of_mem hd
    by_cases hij : i = j
    · subst hij
      rw [List.getElem?_set_self hi] at hj
      cases hj
      cases hw
    · rw [List.getElem?_set_ne hij] at hj
      exact absurd (h.alone hc hj rfl (by simp [committing, hw])) hij
  · have := h.total
    obtain ⟨_, hci⟩ := List.getElem?_eq_some_iff.mp hc
    show v = v₀ + s.succeeded + ((s.clients.set i .applied).count .applied : Nat)
    rw [List.count_set hi, hci]
    simp
    omega

/-- The bump of a client: no version that was recorded before is current after it. -/
theorem Consistent.bump (hc : s.clients[i]? = some .applied) :
    Consistent key v₀
      ⟨s.registry.bump key, s.value, s.clients.set i .idle, s.succeeded + 1⟩ := by
  have hnew : ∀ d ∈ s.clients, ∀ v, d.version = some v →
      v < (s.registry.bump key).current key := by
    intro d hd v hv
    have hpos := h.count_pos hd (Counting.registered_of_version hv)
    rw [current_bump hpos]
    exact Nat.lt_succ_of_le (h.old d hd v hv)
  refine ⟨?_, ?_, ?_, ?_, alone_set h hc fun _ => .inl rfl, ?_⟩
  · have := sum_map_set registered .idle hc
    have := h.count
    show (s.registry.bump key).count key = ((s.clients.set i .idle).map registered).sum
    rw [count_bump]
    simp only [registered] at *
    omega
  · intro d hd v hv
    rcases List.mem_or_eq_of_mem_set hd with hd | rfl
    · exact (hnew d hd v hv).le
    · cases hv
  · intro version value hd hv _
    rcases List.mem_or_eq_of_mem_set hd with hd | hd
    · exact absurd hv (hnew _ hd version rfl).ne'
    · cases hd
  · intro d hd v hv
    rcases List.mem_or_eq_of_mem_set hd with hd | rfl
    · exact h.next d hd v hv
    · cases hv
  · have := h.total
    obtain ⟨hi, hci⟩ := List.getElem?_eq_some_iff.mp hc
    have hpos : 0 < s.clients.count .applied := List.count_pos_iff.mpr (List.mem_of_getElem? hc)
    show s.value = v₀ + (s.succeeded + 1 : Nat) + ((s.clients.set i .idle).count .applied : Nat)
    rw [List.count_set hi, hci]
    simp
    omega

theorem Consistent.step (hx : s.exclusive i = true) (hs : s.step key i = some s') :
    Consistent key v₀ s' := by
  obtain ⟨c, hc, rfl⟩ := Option.map_eq_some_iff.mp hs
  cases c with
  | idle =>
    refine h.move hc (.inl (by simp)) ?_ (by simp) (by simp) ?_ (by simp) (by simp [Counting.next])
      (by simp [committing, Counting.next])
    · simp [count_watch, registered]
    · intro v hv
      obtain rfl := Option.some.inj hv
      simp
  | watched version =>
    refine h.move hc (.inl rfl) rfl (by simp) (by simp) ?_ ?_ (by simp [Counting.next])
      (by simp [committing, Counting.next])
    · intro v hv
      exact h.old _ (List.mem_of_getElem? hc) v hv
    · intro _ _ hr
      cases hr
      rfl
  | read version value =>
    have hno : ∀ d ∈ s.clients, d.committing = false := by
      simpa [exclusive, hc] using hx
    have hna : .applied ∉ s.clients := fun hm => absurd (hno _ hm) (by decide)
    refine h.move hc (.inl rfl) rfl (by simp) (by simp) (by simp [Counting.version]) (by simp) ?_
      fun _ => .inr hno
    intro v hv
    simp only [Counting.next] at hv
    split at hv
    · cases hv
    · next hcur =>
      obtain rfl := Option.some.inj hv
      rw [h.seen version value (List.mem_of_getElem? hc) (not_not.mp hcur) hna]
  | decided next =>
    have hnext := h.next _ (List.mem_of_getElem? hc)
    have hpos := h.count_pos (List.mem_of_getElem? hc) rfl
    -- the client is not registered any more, whether or not it was the last one
    have hcount : (s.registry.decrement key).1.count key + 1 = s.registry.count key := by
      rw [count_decrement, if_pos rfl]
      omega
    show Consistent key v₀ ⟨(s.registry.decrement key).1, s.value, s.clients.set i
      (if (s.registry.decrement key).2 then .dropping next else .released next), s.succeeded⟩
    cases (s.registry.decrement key).2 with
    | true | false =>
      exact h.move hc (.inl (by simp)) hcount (by simp) (by simp) (by simp [Counting.version])
        (by simp) hnext fun hcc => .inl hcc
  | dropping next =>
    have hnext := h.next _ (List.mem_of_getElem? hc)
    have hcur : (s.registry.removeUnwatched key).current key = s.registry.current key ∨
        s.registry.count key = 0 := by
      rcases Nat.eq_zero_or_pos (s.registry.count key) with h0 | hpos
      · exact .inr h0
      · exact .inl (current_removeUnwatched hpos)
    exact h.move hc hcur (by simp [registered]) (by simp) (by simp)
      (by simp [Counting.version]) (by simp) hnext fun hcc => .inl hcc
  | released next =>
    cases next with
    | none =>
      exact h.move hc (.inl rfl) rfl (by simp) (by simp) (by simp [Counting.version]) (by simp)
        (by simp [Counting.next]) (by simp [committing, Counting.next])
    | some v => exact h.apply hc
  | applied => exact h.bump hc

end

/-- No client is between its `SET` and the end of its `EXEC`. -/
def settled (s : CountingState) : Bool := s.clients.all (· ≠ .applied)

end CountingState

/-- **No update is lost.** However the steps of the clients interleave, the key has grown by the
number of `EXEC`s that did not return the null array. -/
theorem no_update_lost (key : String) (v₀ : Int) (n : Nat) {s : CountingState}
    (hr : Reach (step key) (fun s i => s.exclusive i = true) (.init v₀ n) s)
    (hs : s.settled = true) : s.value = v₀ + s.succeeded := by
  have h : s.Consistent key v₀ :=
    hr.invariant (consistent_init n) fun _ _ _ hc hx hst => hc.step hx hst
  have hna : s.clients.count .applied = 0 := by
    rw [List.count_eq_zero]
    intro hm
    have := List.all_eq_true.mp hs _ hm
    simp at this
  have ht := h.total
  rw [hna] at ht
  simpa using ht

/-- Two clients; the second one reads before the first one commits, and is aborted. -/
theorem no_update_lost_second_aborted :
    ∃ s, Reach (step "k") (fun s i => s.exclusive i = true) (.init 5 2) s ∧
      s.value = 5 + s.succeeded ∧ s.value = 6 := by
  have hrun : (run (step "k") exclusive (.init 5 2)
      [0, 1, 0, 1, 0, 0, 0, 0, 1, 1, 1, 1]).map (fun s => (s.settled, s.value))
        = some (true, 6) := by decide +kernel
  obtain ⟨s, hr, hs⟩ := exists_reach_of_run hrun
  obtain ⟨hset, hv⟩ := Prod.mk.inj hs
  exact ⟨s, hr, no_update_lost "k" 5 2 hr hset, hv⟩

/-- **An update is lost.** Both clients compare their versions before either of them bumps: both
`EXEC`s succeed, and the key has grown by one. -/
theorem update_lost :
    ∃ s, Reach (step "k") (fun _ _ => True) (.init 0 2) s ∧
      s.clients = [.idle, .idle] ∧ s.succeeded = 2 ∧ s.value = 1 := by
  have hrun : (run (step "k") (fun _ _ => true) (.init 0 2)
      [0, 1, 0, 1, 0, 1, 0, 0, 0, 1, 1, 1, 1]).map (fun s => (s.clients, s.succeeded, s.value))
        = some ([.idle, .idle], 2, 1) := by decide +kernel
  obtain ⟨s, hr, hs⟩ := exists_reach_of_run hrun
  simp only [Prod.mk.injEq] at hs
  exact ⟨s, hr.mono fun _ _ _ => trivial, hs⟩

end Calod.Server
