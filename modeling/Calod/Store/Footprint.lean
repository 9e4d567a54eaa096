import Calod.Store.Shard

/-!
# What a handler can do, by the operations it uses

A `Footprint` lists what a command may touch: the keys it may change, those it may create, and
whether it reads the clock or the iteration order of a set, writes an expiry or clears databases.
`Allows` turns it into a set of operations. For a handler that uses no others:

* `Uses.frame` — a key outside the footprint keeps its live entry
* `Uses.counted` — the counters stay exact if the keys to be created are there already
* `Uses.agree` — without clock, order and expiry, the result is a function of the entries
-/

namespace Calod.Store

open Lib Dbs Handler

variable {env : Env} {o : Access env} {e : CacheEntry}

structure Footprint where
  keys : List Key
  creates : List Key := []
  clock : Bool := false
  order : Bool := false
  expiry : Bool := false
  flushes : Bool := false

namespace Footprint

/-- The operations of a command of database `db`; one that creates keys removes none. -/
def Allows (f : Footprint) (db : Fin numDatabases) : Access env → Prop
  | .clock => f.clock
  | .order _ => f.order
  | .look .. => True
  | .fetch .. => f.creates = []
  | .takeEntry _ key => key ∈ f.keys ∧ f.creates = []
  | .set _ key _ ttl => key ∈ f.keys ∧ f.creates = [] ∧ (ttl = none ∨ f.expiry)
  | .moveEntry _ key _ newKey => key ∈ f.keys ∧ newKey ∈ f.keys ∧ f.creates = []
  | .copyEntry _ _ _ newKey => newKey ∈ f.keys ∧ f.creates = []
  | .setLike _ _ _ newKey _ => newKey ∈ f.keys ∧ f.creates = []
  | .ensure a key _ => key ∈ f.keys ∧ key ∈ f.creates ∧ a = env.addr db key
  | .store _ key _ => key ∈ f.keys
  | .setExpiry _ key expiry => key ∈ f.keys ∧ (expiry = .never ∨ f.expiry)
  | .clearAll _ => f.flushes ∧ f.creates = []

variable {f : Footprint} {db : Fin numDatabases} {key : Key}

theorem reads (hc : f.creates = []) : Reads (f.Allows db : Access env → Prop) :=
  ⟨fun _ _ => trivial, fun _ _ => hc⟩

theorem writes (hk : key ∈ f.keys) (hc : f.creates = []) :
    Writes (f.Allows db : Access env → Prop) key where
  takeEntry _ := ⟨hk, hc⟩
  set _ _ := ⟨hk, hc, .inl rfl⟩
  store _ _ := hk
  persist _ := ⟨hk, .inl rfl⟩

theorem expires (hk : key ∈ f.keys) (hc : f.creates = []) (hx : f.expiry = true) :
    Expires (f.Allows db : Access env → Prop) key where
  set _ _ _ := ⟨hk, hc, .inr hx⟩
  setExpiry _ _ := ⟨hk, .inr hx⟩

theorem createsAt (hk : key ∈ f.keys) (hc : key ∈ f.creates) :
    Creates (f.Allows db) (env.addr db key) key where
  look _ _ := trivial
  ensure _ := ⟨hk, hc, rfl⟩
  store _ _ := hk

/-- The three at once. -/
theorem allowed (f : Footprint) (env : Env) (db : Fin numDatabases) :
    (f.creates = [] → Reads (f.Allows db : Access env → Prop)) ∧
      (f.creates = [] → ∀ key ∈ f.keys, Writes (f.Allows db : Access env → Prop) key) ∧
      ∀ key ∈ f.keys, key ∈ f.creates →
        Creates (f.Allows db : Access env → Prop) (env.addr db key) key :=
  ⟨reads, fun hc _ hk => writes hk hc, fun _ hk hc => createsAt hk hc⟩

end Footprint

/-! ## A key outside the footprint -/

namespace Access

variable {f : Footprint} {db : Fin numDatabases} {draw : Draw} {s : Dbs env} {b : Addr env}
  {k : Key}

/-- The entry is not expired, so no reading removes it. -/
def Live (draw : Draw) (e : Option CacheEntry) : Prop :=
  ∀ x, e = some x → x.isExpired draw.now = false

theorem entry_fetch_of_live (he : Live draw (s.entry b k)) (a : Addr env) (key : Key) :
    (Handler.fetch a key draw s).2.entry b k = s.entry b k := by
  unfold Handler.fetch
  cases h : s.entry a key with
  | none => rfl
  | some e =>
    dsimp only
    split
    · next hx =>
      rw [entry_remove, if_neg]
      rintro ⟨rfl, rfl⟩
      rw [he e h] at hx
      exact Bool.false_ne_true hx
    · rfl

theorem entry_set_of_ne (hd : draw.Evictionless) (a : Addr env) {key : Key} (hk : k ≠ key)
    (value : DataType) (ttl : Option Nat) :
    (Handler.set a key value ttl draw s).2.entry b k = s.entry b k := by
  show ((s.makeRoom a draw).update a (·.insert key _)).entry b k = _
  rw [entry_insert, if_neg fun h => hk h.2.symm, entry_makeRoom hd]

theorem entry_putEntry_of_ne (hd : draw.Evictionless) (a : Addr env) {key : Key} (hk : k ≠ key)
    (e : CacheEntry) : (putEntry a key e draw s).2.entry b k = s.entry b k := by
  show (update _ a (·.insert key e)).entry b k = _
  rw [entry_insert, if_neg fun h => hk h.2.symm]
  split
  · exact entry_makeRoom hd s a b k
  · rfl

theorem moveEntry_apply (source : Addr env) (key : Key) (a : Addr env) (newKey : Key) :
    Handler.moveEntry source key a newKey draw s =
      match s.entry source key with
      | none => (.ok false, s)
      | some e =>
        (.ok true, (putEntry a newKey e draw (s.update source (·.remove key))).2) := by
  unfold Handler.moveEntry
  rw [Prog.bind_apply, Handler.takeEntry]
  cases s.entry source key <;> rfl

theorem copyEntry_apply (source : Addr env) (key : Key) (a : Addr env) (newKey : Key) :
    Handler.copyEntry source key a newKey draw s =
      match Handler.fetch source key draw s with
      | (.ok (.live e), t) => (.ok true, (putEntry a newKey e draw t).2)
      | (_, t) => (.ok false, t) := by
  unfold Handler.copyEntry
  rw [Prog.bind_apply, Handler.fetch]
  cases s.entry source key with
  | none => rfl
  | some e => cases hx : e.isExpired draw.now <;> simp only [hx] <;> rfl

/-- The time to live that `setLike` gives. -/
def ttlOf (now : Nat) : Fetched → Option Nat
  | .live e => ((e.pttl now).filter fun ms => 0 < ms).map Int.toNat
  | _ => none

theorem setLike_apply (source : Addr env) (key : Key) (a : Addr env) (newKey : Key)
    (value : DataType) :
    Handler.setLike source key a newKey value draw s =
      match Handler.fetch source key draw s with
      | (.ok found, t) => Handler.set a newKey value (ttlOf draw.now found) draw t
      | (.error e, t) => (.error e, t) := by
  unfold Handler.setLike
  rw [Prog.bind_apply, Handler.clock]
  dsimp only
  rw [Prog.bind_apply, Handler.fetch]
  cases s.entry source key with
  | none => rfl
  | some e => cases hx : e.isExpired draw.now <;> simp only [hx] <;> rfl

/-- **An operation of the footprint keeps the live entry of any other key.** -/
theorem entry_perform {o : Access env} (ho : f.Allows db o) (hf : f.flushes = false)
    (hd : draw.Evictionless) (hk : k ∉ f.keys) (he : Live draw (s.entry b k)) :
    (o.perform draw s).2.entry b k = s.entry b k := by
  have hne : ∀ {key}, key ∈ f.keys → k ≠ key := fun hm h => hk (h ▸ hm)
  cases o with
  | clock => rfl
  | order items => rfl
  | look a key => rfl
  | fetch a key => exact entry_fetch_of_live he a key
  | takeEntry a key =>
    simp only [perform, Handler.takeEntry]
    split
    · rfl
    · rw [entry_remove, if_neg fun h => hne ho.1 h.2.symm]
  | set a key value ttl => exact entry_set_of_ne hd a (hne ho.1) value ttl
  | moveEntry source key a newKey =>
    simp only [perform, moveEntry_apply]
    split
    · rfl
    · rw [entry_putEntry_of_ne hd a (hne ho.2.1), entry_remove,
        if_neg fun h => hne ho.1 h.2.symm]
  | copyEntry source key a newKey =>
    have hfetch := entry_fetch_of_live he source key
    simp only [perform, copyEntry_apply]
    split
    · next hx =>
      rw [hx] at hfetch
      rw [entry_putEntry_of_ne hd a (hne ho.1)]
      exact hfetch
    · next _ hx =>
      rw [hx] at hfetch
      exact hfetch
  | setLike source key a newKey value =>
    have hfetch := entry_fetch_of_live he source key
    simp only [perform, setLike_apply]
    split
    · next hx =>
      rw [hx] at hfetch
      rw [entry_set_of_ne hd a (hne ho.1)]
      exact hfetch
    · next hx =>
      rw [hx] at hfetch
      exact hfetch
  | ensure a key value =>
    simp only [perform, Handler.ensure]
    split
    · rfl
    · rw [entry_write, if_neg fun h => hne ho.1 h.2.symm]
  | store a key value =>
    simp only [perform, Handler.store]
    split
    · rw [entry_write, if_neg fun h => hne ho h.2.symm]
    · rfl
  | setExpiry a key expiry =>
    simp only [perform, Handler.setExpiry]
    split
    · rw [entry_write, if_neg fun h => hne ho.1 h.2.symm]
    · rfl
  | clearAll a => exact absurd (hf ▸ ho.1) Bool.false_ne_true

end Access

/-! ## Counters -/

/-- The counter is the number of entries. -/
def Shard.Counted (shard : Shard) : Prop := shard.size = UInt64.ofNat shard.data.size

namespace Shard

variable {shard : Shard} {key : Key}

theorem counted_empty : empty.Counted := rfl

theorem Counted.remove (h : shard.Counted) (hk : key ∈ shard.data) :
    (shard.remove key).Counted := by
  have hpos : 1 ≤ shard.data.size := by
    rw [Nat.one_le_iff_ne_zero]
    exact fun h0 => Std.ExtTreeMap.ne_empty_of_mem hk
      (Std.ExtTreeMap.eq_empty_iff_size_eq_zero.mpr h0)
  show shard.size - 1 = UInt64.ofNat (shard.data.erase key).size
  rw [Std.ExtTreeMap.size_erase, if_pos (Std.ExtTreeMap.contains_iff_mem.mpr hk),
    UInt64.ofNat_sub hpos, h]
  rfl

theorem Counted.insert (h : shard.Counted) (e : CacheEntry) : (shard.insert key e).Counted := by
  show (if key ∈ shard.data then shard.size else shard.size + 1) =
    UInt64.ofNat (shard.data.insert key e).size
  rw [Std.ExtTreeMap.size_insert]
  simp only [Std.ExtTreeMap.contains_iff_mem]
  split
  · exact h
  · rw [UInt64.ofNat_add, h]
    rfl

/-- A write through a reference keeps the number of entries only if the key is there. -/
theorem Counted.write (h : shard.Counted) (hk : key ∈ shard.data) (e : CacheEntry) :
    (shard.write key e).Counted := by
  show shard.size = UInt64.ofNat (shard.data.insert key e).size
  rw [Std.ExtTreeMap.size_insert, if_pos (Std.ExtTreeMap.contains_iff_mem.mpr hk)]
  exact h

theorem Counted.evictAll (target : UInt64) (candidates : List Key) :
    ∀ {shard : Shard}, shard.Counted → (candidates.foldl (evictOne target) shard).Counted := by
  induction candidates with
  | nil => exact fun h => h
  | cons key rest ih =>
    intro shard h
    refine ih ?_
    unfold Shard.evictOne
    split
    · next hk => exact h.remove hk.2
    · exact h

theorem Counted.evict (h : shard.Counted) (target : UInt64) (candidates : List Key) :
    (shard.evict target candidates).Counted := by
  unfold Shard.evict
  split
  · exact h
  · exact Counted.evictAll target candidates h

end Shard

namespace Dbs

variable {s : Dbs env} {a : Addr env} {key : Key}

def Counted (s : Dbs env) : Prop := ∀ a, (s a).Counted

theorem mem_of_entry (h : s.entry a key = some e) : key ∈ (s a).data := by
  rw [Std.ExtTreeMap.mem_iff_isSome_getElem?]
  exact Option.isSome_of_eq_some h

section

variable (h : s.Counted)

include h

theorem Counted.update {f : Shard → Shard} (hf : (f (s a)).Counted) : (s.update a f).Counted := by
  intro b
  by_cases hb : b = a
  · rw [hb, update_self]
    exact hf
  · rw [update_ne s f hb]
    exact h b

theorem Counted.remove (hk : s.entry a key = some e) : (s.update a (·.remove key)).Counted :=
  h.update ((h a).remove (mem_of_entry hk))

theorem Counted.write (hk : s.entry a key = some e) (e' : CacheEntry) :
    (s.update a (·.write key e')).Counted :=
  h.update ((h a).write (mem_of_entry hk) e')

theorem Counted.makeRoom (a : Addr env) (draw : Draw) : (s.makeRoom a draw).Counted := by
  unfold Dbs.makeRoom
  split
  · exact h.update ((h a).evict _ _)
  · exact h

theorem Counted.fetch (a : Addr env) (key : Key) (draw : Draw) :
    (Handler.fetch a key draw s).2.Counted := by
  unfold Handler.fetch
  cases he : s.entry a key with
  | none => exact h
  | some e =>
    dsimp only
    split
    · exact h.remove he
    · exact h

theorem Counted.set (a : Addr env) (key : Key) (value : DataType) (ttl : Option Nat) (draw : Draw) :
    (Handler.set a key value ttl draw s).2.Counted :=
  (h.makeRoom a draw).update (((h.makeRoom a draw) a).insert _)

theorem Counted.putEntry (a : Addr env) (key : Key) (e : CacheEntry) (draw : Draw) :
    (putEntry a key e draw s).2.Counted := by
  have hroom : (if (s.entry a key).isNone then s.makeRoom a draw else s).Counted := by
    split
    · exact h.makeRoom a draw
    · exact h
  exact hroom.update ((hroom a).insert e)

end

end Dbs

namespace Access

variable {f : Footprint} {db : Fin numDatabases} {draw : Draw} {s : Dbs env}

/-- The keys that the command may create are there. -/
def Present (f : Footprint) (db : Fin numDatabases) (s : Dbs env) : Prop :=
  ∀ key ∈ f.creates, (s.entry (env.addr db key) key).isSome = true

theorem present_of_nil (h : f.creates = []) (s : Dbs env) : Present f db s := by
  intro key hk
  rw [h] at hk
  cases hk

theorem Present.write (h : Present f db s) (a : Addr env) (key : Key) (e : CacheEntry) :
    Present f db (s.update a (·.write key e)) := by
  intro k hk
  rw [entry_write]
  split
  · rfl
  · exact h k hk

/-- **An operation of the footprint keeps the counters exact.** -/
theorem counted_perform {o : Access env} (ho : f.Allows db o) (hs : s.Counted)
    (hp : Present f db s) :
    (o.perform draw s).2.Counted ∧ Present f db (o.perform draw s).2 := by
  cases o with
  | clock | order | look => exact ⟨hs, hp⟩
  | fetch a key => exact ⟨hs.fetch a key draw, present_of_nil ho _⟩
  | takeEntry a key =>
    refine ⟨?_, present_of_nil ho.2 _⟩
    simp only [perform, Handler.takeEntry]
    cases he : s.entry a key with
    | none => exact hs
    | some e => exact hs.remove he
  | set a key value ttl => exact ⟨hs.set a key value ttl draw, present_of_nil ho.2.1 _⟩
  | moveEntry source key a newKey =>
    refine ⟨?_, present_of_nil ho.2.2 _⟩
    simp only [perform, moveEntry_apply]
    cases he : s.entry source key with
    | none => exact hs
    | some e => exact (hs.remove he).putEntry a newKey e draw
  | copyEntry source key a newKey =>
    refine ⟨?_, present_of_nil ho.2 _⟩
    have hfetch := hs.fetch source key draw
    simp only [perform, copyEntry_apply]
    split
    · next hx =>
      rw [hx] at hfetch
      exact hfetch.putEntry a newKey _ draw
    · next _ hx =>
      rw [hx] at hfetch
      exact hfetch
  | setLike source key a newKey value =>
    refine ⟨?_, present_of_nil ho.2 _⟩
    have hfetch := hs.fetch source key draw
    simp only [perform, setLike_apply]
    split
    · next hx =>
      rw [hx] at hfetch
      exact hfetch.set a newKey value _ draw
    · next hx =>
      rw [hx] at hfetch
      exact hfetch
  | ensure a key value =>
    obtain ⟨-, hk, rfl⟩ := ho
    obtain ⟨e, he⟩ := Option.isSome_iff_exists.mp (hp key hk)
    simp only [perform, Handler.ensure]
    rw [he]
    exact ⟨hs, hp⟩
  | store a key value =>
    simp only [perform, Handler.store]
    cases he : s.entry a key with
    | none => exact ⟨hs, hp⟩
    | some e => exact ⟨hs.write he _, hp.write a key _⟩
  | setExpiry a key expiry =>
    simp only [perform, Handler.setExpiry]
    cases he : s.entry a key with
    | none => exact ⟨hs, hp⟩
    | some e => exact ⟨hs.write he _, hp.write a key _⟩
  | clearAll a => exact ⟨hs.update Shard.counted_empty, present_of_nil ho.2 _⟩

end Access

/-! ## Footprints without clock, order and expiry -/

namespace Dbs

/-- The same entries, none of which has an expiry; the counters may differ. -/
structure Agree (s t : Dbs env) : Prop where
  same : ∀ a k, s.entry a k = t.entry a k
  steady : ∀ a k e, s.entry a k = some e → e.expiresAtMs = 0

namespace Agree

variable {s t : Dbs env}

theorem symm (h : s.Agree t) : t.Agree s where
  same a k := (h.same a k).symm
  steady a k e he := h.steady a k e ((h.same a k).trans he)

theorem trans {u : Dbs env} (h : s.Agree t) (h' : t.Agree u) : s.Agree u where
  same a k := (h.same a k).trans (h'.same a k)
  steady := h.steady

theorem refl_left (h : s.Agree t) : s.Agree s := h.trans h.symm

theorem fresh : (fresh : Dbs env).Agree fresh where
  same _ _ := rfl
  steady a k e he := by
    rw [entry_fresh] at he
    cases he

theorem remove (h : s.Agree t) (a : Addr env) (key : Key) :
    (s.update a (·.remove key)).Agree (t.update a (·.remove key)) where
  same b k := by rw [entry_remove, entry_remove, h.same]
  steady b k e he := by
    rw [entry_remove] at he
    split at he
    · cases he
    · exact h.steady b k e he

theorem insert (h : s.Agree t) (a : Addr env) (key : Key) (he : e.expiresAtMs = 0) :
    (s.update a (·.insert key e)).Agree (t.update a (·.insert key e)) where
  same b k := by rw [entry_insert, entry_insert, h.same]
  steady b k x hx := by
    rw [entry_insert] at hx
    split at hx
    · rw [← Option.some.inj hx]
      exact he
    · exact h.steady b k x hx

theorem write (h : s.Agree t) (a : Addr env) (key : Key) (he : e.expiresAtMs = 0) :
    (s.update a (·.write key e)).Agree (t.update a (·.write key e)) where
  same b k := by rw [entry_write, entry_write, h.same]
  steady b k x hx := by
    rw [entry_write] at hx
    split at hx
    · rw [← Option.some.inj hx]
      exact he
    · exact h.steady b k x hx

theorem clear (h : s.Agree t) (a : Addr env) :
    (s.update a fun _ => .empty).Agree (t.update a fun _ => .empty) where
  same b k := by rw [entry_clear, entry_clear, h.same]
  steady b k e he := by
    rw [entry_clear] at he
    split at he
    · cases he
    · exact h.steady b k e he

variable {d d' : Draw}

theorem makeRoom (h : s.Agree t) (hd : d.Evictionless) (hd' : d'.Evictionless) (a : Addr env) :
    (s.makeRoom a d).Agree (t.makeRoom a d') where
  same b k := by rw [entry_makeRoom hd, entry_makeRoom hd', h.same]
  steady b k e he := h.steady b k e ((entry_makeRoom hd s a b k).symm.trans he)

theorem set (h : s.Agree t) (hd : d.Evictionless) (hd' : d'.Evictionless) (a : Addr env)
    (key : Key) (value : DataType) :
    (Handler.set a key value none d s).2.Agree (Handler.set a key value none d' t).2 :=
  (h.makeRoom hd hd' a).insert a key rfl

theorem putEntry (h : s.Agree t) (hd : d.Evictionless) (hd' : d'.Evictionless) (a : Addr env)
    (key : Key) (he : e.expiresAtMs = 0) :
    (putEntry a key e d s).2.Agree (putEntry a key e d' t).2 := by
  refine Agree.insert ?_ a key he
  rw [h.same]
  split
  · exact h.makeRoom hd hd' a
  · exact h

/-- Nothing has expired, so a read leaves the state alone. -/
theorem fetch_eq (h : s.Agree t) (a : Addr env) (key : Key) (d : Draw) :
    Handler.fetch a key d s = (.ok ((s.entry a key).elim .missing .live), s) := by
  unfold Handler.fetch
  cases he : s.entry a key with
  | none => rfl
  | some e =>
    dsimp only
    rw [CacheEntry.isExpired_of_eq_zero (h.steady a key e he)]
    rfl

end Agree

end Dbs

namespace Access

variable {f : Footprint} {db : Fin numDatabases} {d d' : Draw} {s t : Dbs env}

/-- **On agreeing entries, the operations of a steady footprint answer alike.** -/
theorem alike_perform {o : Access env} (ho : f.Allows db o) (hc : f.clock = false)
    (hr : f.order = false) (hx : f.expiry = false) (hd : d.Evictionless) (hd' : d'.Evictionless)
    (h : s.Agree t) :
    (o.perform d s).1 = (o.perform d' t).1 ∧ (o.perform d s).2.Agree (o.perform d' t).2 := by
  cases o with
  | clock => exact absurd (hc ▸ ho) Bool.false_ne_true
  | order items => exact absurd (hr ▸ ho) Bool.false_ne_true
  | look a key => exact ⟨congrArg Except.ok (h.same a key), h⟩
  | fetch a key =>
    simp only [perform]
    rw [h.fetch_eq, h.symm.fetch_eq, h.same]
    exact ⟨rfl, h⟩
  | takeEntry a key =>
    simp only [perform, Handler.takeEntry, h.same]
    cases t.entry a key with
    | none => exact ⟨rfl, h⟩
    | some e => exact ⟨rfl, h.remove a key⟩
  | set a key value ttl =>
    obtain rfl : ttl = none := ho.2.2.resolve_right (by rw [hx]; exact Bool.false_ne_true)
    exact ⟨rfl, h.set hd hd' a key value⟩
  | moveEntry source key a newKey =>
    simp only [perform, moveEntry_apply]
    rw [← h.same]
    cases he : s.entry source key with
    | none => exact ⟨rfl, h⟩
    | some e =>
      exact ⟨rfl, (h.remove source key).putEntry hd hd' a newKey (h.steady source key e he)⟩
  | copyEntry source key a newKey =>
    simp only [perform, copyEntry_apply]
    rw [h.fetch_eq, h.symm.fetch_eq, ← h.same]
    cases he : s.entry source key with
    | none => exact ⟨rfl, h⟩
    | some e => exact ⟨rfl, h.putEntry hd hd' a newKey (h.steady source key e he)⟩
  | setLike source key a newKey value =>
    simp only [perform, setLike_apply]
    rw [h.fetch_eq, h.symm.fetch_eq, ← h.same]
    have hnone : ∀ now, ttlOf now ((s.entry source key).elim .missing .live) = none := by
      intro now
      cases he : s.entry source key with
      | none => rfl
      | some e =>
        show ((e.pttl now).filter _).map Int.toNat = none
        rw [CacheEntry.pttl, if_pos (h.steady source key e he)]
        rfl
    dsimp only
    rw [hnone, hnone]
    exact ⟨rfl, h.set hd hd' a newKey value⟩
  | ensure a key value =>
    simp only [perform, Handler.ensure, h.same]
    cases t.entry a key with
    | none => exact ⟨rfl, h.write a key rfl⟩
    | some e => exact ⟨rfl, h⟩
  | store a key value =>
    simp only [perform, Handler.store, ← h.same]
    cases he : s.entry a key with
    | none => exact ⟨rfl, h⟩
    | some e => exact ⟨rfl, h.write a key (h.steady a key e he)⟩
  | setExpiry a key expiry =>
    obtain rfl : expiry = .never := ho.2.resolve_right (by rw [hx]; exact Bool.false_ne_true)
    simp only [perform, Handler.setExpiry, ← h.same]
    cases he : s.entry a key with
    | none => exact ⟨rfl, h⟩
    | some e => exact ⟨rfl, h.write a key rfl⟩
  | clearAll a => exact ⟨rfl, h.clear a⟩

end Access

/-! ## Handlers -/

namespace Handler

variable {α : Type} {m : Handler env α} {f : Footprint} {db : Fin numDatabases} {draw : Draw}
  {s : Dbs env}

/-- **A key outside the footprint keeps its live entry.** -/
theorem Uses.frame (hm : Uses (f.Allows db) m) (hf : f.flushes = false) (hd : draw.Evictionless)
    {b : Addr env} {k : Key} (hk : k ∉ f.keys) (he : Access.Live draw (s.entry b k)) :
    (m draw s).2.entry b k = s.entry b k :=
  Prog.Uses.preserves hm (J := fun t => t.entry b k = s.entry b k)
    (fun _ _ ho ht => (Access.entry_perform ho hf hd hk (ht ▸ he)).trans ht) rfl

/-- **The counters stay exact if the keys that the handler may create are there.** -/
theorem Uses.counted (hm : Uses (f.Allows db) m) (hp : Access.Present f db s) (hs : s.Counted) :
    (m draw s).2.Counted :=
  (Prog.Uses.preserves hm (J := fun t => t.Counted ∧ Access.Present f db t)
    (fun _ _ ho ht => Access.counted_perform ho ht.1 ht.2) ⟨hs, hp⟩).1

/-- **A steady handler does the same to agreeing entries, whatever the clock and the order say.** -/
theorem Uses.agree {d d' : Draw} {t : Dbs env} (hm : Uses (f.Allows db) m) (hc : f.clock = false)
    (hr : f.order = false) (hx : f.expiry = false) (hd : d.Evictionless) (hd' : d'.Evictionless)
    (h : s.Agree t) : (m d s).1 = (m d' t).1 ∧ (m d s).2.Agree (m d' t).2 :=
  Prog.Uses.alike hm (R := Agree)
    (fun _ _ _ ho hst => Access.alike_perform ho hc hr hx hd hd' hst) h

end Handler

end Calod.Store
