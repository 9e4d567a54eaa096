import Calod.Store.Collections
import Calod.Store.Decimal

/-!
# Removing from lists

`LREM`, `BLPOP` and `BRPOP` of `calod-core/src/store/calod_shard.rs`. The loops of `LREM` walk by
index over the list from which they remove; the blocking pops look only into the shard of their
first key.

* `removeForward_eq`, `removeBackward_eq` — the loops, as recursions over the list
* `lrem_exact` — **`LREM` removes just the occurrences it is asked for**
* `blocking_pop_iff` — **when a blocking pop takes the first element there is, and nothing else**
-/

namespace Calod.Store

open Lib Prog Handler

/-! ## The loops -/

namespace Items

variable (value : Bytes)

/-- The loop of `lrem_positive_count`; `i` stays where an element was removed. -/
def removeForward (count : Nat) : (fuel : Nat) → List Bytes → (i removed : Nat) → List Bytes × Nat
  | 0, items, _, removed => (items, removed)
  | fuel + 1, items, i, removed =>
    if i < items.length ∧ removed < count then
      if items[i]? = some value then removeForward count fuel (items.eraseIdx i) i (removed + 1)
      else removeForward count fuel items (i + 1) removed
    else (items, removed)

/-- The loop of `lrem_negative_count`, with `n = i + 1` positions to go. -/
def removeBackward (count : Nat) : (n : Nat) → List Bytes → (removed : Nat) → List Bytes × Nat
  | 0, items, removed => (items, removed)
  | i + 1, items, removed =>
    if removed < count then
      if items[i]? = some value then removeBackward count i (items.eraseIdx i) (removed + 1)
      else removeBackward count i items removed
    else (items, removed)

/-- `lrem_cmd` on the list: what is left, and how many were removed. `-count` wraps. -/
def lremLoops (count : Int64) (items : List Bytes) : List Bytes × Nat :=
  if 0 < count then removeForward value count.toUInt64.toNat items.length items 0 0
  else if count < 0 then removeBackward value (-count).toUInt64.toNat items.length items 0
  else (items.filter (· ≠ value), items.length - (items.filter (· ≠ value)).length)

variable {value}

@[simp] theorem removeFirst_zero (items : List Bytes) : removeFirst value 0 items = items := by
  cases items <;> rfl

@[simp] theorem removeFirst_nil (count : Nat) : removeFirst value count [] = [] := by
  cases count <;> rfl

/-- The first `k` occurrences of `value` are gone, and all else is in its order. -/
def Trimmed (value : Bytes) (k : Nat) (items left : List Bytes) : Prop :=
  ∃ pre post, items = pre ++ post ∧ pre.count value = k ∧ left = pre.filter (· ≠ value) ++ post

theorem Trimmed.length {k : Nat} {items left : List Bytes} (h : Trimmed value k items left) :
    items.length - left.length = k := by
  obtain ⟨pre, post, rfl, rfl, rfl⟩ := h
  have hsum : (pre.filter (· ≠ value)).length + pre.count value = pre.length := by
    induction pre with
    | nil => rfl
    | cons item rest ih =>
      by_cases he : item = value
      · subst he
        rw [List.filter_cons_of_neg (by simp), List.count_cons_self, List.length_cons, ← ih]
        rfl
      · rw [List.filter_cons_of_pos (by simpa using he), List.count_cons_of_ne he,
          List.length_cons, List.length_cons, ← ih]
        omega
  rw [List.length_append, List.length_append]
  omega

theorem trimmed_removeFirst (value : Bytes) (count : Nat) (items : List Bytes) :
    Trimmed value (min count (items.count value)) items (removeFirst value count items) := by
  induction items generalizing count with
  | nil => exact ⟨[], [], rfl, by simp, by simp⟩
  | cons item rest ih =>
    cases count with
    | zero => exact ⟨[], item :: rest, rfl, by simp, rfl⟩
    | succ count =>
      rw [removeFirst]
      by_cases he : item = value
      · obtain ⟨pre, post, hrest, hpre, hleft⟩ := ih count
        refine ⟨item :: pre, post, by rw [hrest]; rfl, ?_, ?_⟩
        · rw [he, List.count_cons_self, List.count_cons_self, hpre, Nat.add_min_add_right]
        · rw [if_pos he, hleft, List.filter_cons_of_neg (by simpa using he)]
      · obtain ⟨pre, post, hrest, hpre, hleft⟩ := ih (count + 1)
        refine ⟨item :: pre, post, by rw [hrest]; rfl, ?_, ?_⟩
        · rw [List.count_cons_of_ne he, List.count_cons_of_ne he, hpre]
        · rw [if_neg he, hleft, List.filter_cons_of_pos (by simpa using he)]
          rfl

/-- What is before `i` stays, and the rest loses its first occurrences. -/
theorem removeForward_eq (value : Bytes) (count : Nat) {fuel : Nat} (pre items : List Bytes)
    (hfuel : items.length ≤ fuel) {removed : Nat} (hle : removed ≤ count) :
    removeForward value count fuel (pre ++ items) pre.length removed
      = (pre ++ removeFirst value (count - removed) items,
          removed + min (count - removed) (items.count value)) := by
  induction items generalizing fuel pre removed with
  | nil => cases fuel <;> simp [removeForward]
  | cons item rest ih =>
    obtain ⟨fuel, rfl⟩ : ∃ n, fuel = n + 1 := ⟨fuel - 1, by rw [List.length_cons] at hfuel; omega⟩
    rw [List.length_cons, Nat.add_le_add_iff_right] at hfuel
    rw [removeForward]
    by_cases hmore : removed < count
    · obtain ⟨left, hleft⟩ : ∃ n, count - removed = n + 1 := ⟨count - removed - 1, by omega⟩
      rw [if_pos ⟨by simp, hmore⟩, hleft, removeFirst]
      have hget : (pre ++ item :: rest)[pre.length]? = some item := by simp
      by_cases he : item = value
      · subst he
        have herase : (pre ++ item :: rest).eraseIdx pre.length = pre ++ rest := by
          rw [List.eraseIdx_append_of_length_le le_rfl]
          simp
        rw [if_pos hget, if_pos rfl, herase, ih pre hfuel hmore, List.count_cons_self]
        rw [show count - (removed + 1) = left by omega]
        congr 1
        omega
      · have hpre : pre ++ item :: rest = (pre ++ [item]) ++ rest := by simp
        have hnext := ih (pre ++ [item]) hfuel hle
        rw [List.length_append, List.length_singleton, ← hpre, hleft] at hnext
        rw [hget, if_neg (by simpa using he), if_neg he, hnext, List.count_cons_of_ne he]
        simp
    · rw [if_neg fun h => hmore h.2, show count - removed = 0 by omega]
      simp

/-- What is from `n` on stays, and the rest loses its last occurrences. -/
theorem removeBackward_eq (value : Bytes) (count : Nat) (items post : List Bytes) {removed : Nat}
    (hle : removed ≤ count) :
    removeBackward value count items.length (items.reverse ++ post) removed
      = ((removeFirst value (count - removed) items).reverse ++ post,
          removed + min (count - removed) (items.count value)) := by
  induction items generalizing post removed with
  | nil => simp [removeBackward]
  | cons item rest ih =>
    rw [List.length_cons, removeBackward]
    by_cases hmore : removed < count
    · obtain ⟨left, hleft⟩ : ∃ n, count - removed = n + 1 := ⟨count - removed - 1, by omega⟩
      have hsplit : (item :: rest).reverse ++ post = rest.reverse ++ item :: post := by simp
      have hget : (rest.reverse ++ item :: post)[rest.length]? = some item := by simp
      rw [if_pos hmore, hsplit, hget, hleft, removeFirst]
      by_cases he : item = value
      · subst he
        have herase : (rest.reverse ++ item :: post).eraseIdx rest.length
            = rest.reverse ++ post := by
          rw [List.eraseIdx_append_of_length_le (by simp)]
          simp
        rw [if_pos rfl, if_pos rfl, herase, ih post hmore, List.count_cons_self]
        rw [show count - (removed + 1) = left by omega]
        congr 1
        omega
      · rw [if_neg (by simpa using he), if_neg he, ih (item :: post) hle,
          List.count_cons_of_ne he, hleft]
        simp
    · rw [if_neg hmore, show count - removed = 0 by omega]
      simp

theorem toInt_eq (count : Int64) : count.toInt = if 2 * count.toUInt64.toNat < 2 ^ 64 then
    (count.toUInt64.toNat : Int) else count.toUInt64.toNat - (2 ^ 64 : Nat) :=
  BitVec.toInt_eq_toNat_cond _

theorem toNat_count {count : Int64} (h : 0 < count) :
    0 < count.toInt ∧ count.toUInt64.toNat = count.toInt.toNat := by
  have hpos : 0 < count.toInt := Int64.lt_iff_toInt_lt.mp h
  refine ⟨hpos, ?_⟩
  rw [toInt_eq] at hpos ⊢
  have hlt := count.toUInt64.toNat_lt
  split at hpos <;> omega

/-- The negation wraps for the least `i64`, and its magnitude is right all the same. -/
theorem natAbs_count {count : Int64} (h : count < 0) :
    count.toInt < 0 ∧ (-count).toUInt64.toNat = count.toInt.natAbs := by
  have hneg : count.toInt < 0 := Int64.lt_iff_toInt_lt.mp h
  refine ⟨hneg, ?_⟩
  rw [Int64.toUInt64_neg, UInt64.toNat_neg, UInt64.size, toInt_eq]
  rw [toInt_eq] at hneg
  have hlt := count.toUInt64.toNat_lt
  split at hneg <;> omega

theorem lremLoops_eq (count : Int64) (items : List Bytes) :
    lrem count.toInt value items
      = (.ok (.integer (lremLoops value count items).2), (lremLoops value count items).1) := by
  unfold lremLoops lrem
  by_cases hpos : 0 < count
  · obtain ⟨hint, hnat⟩ := toNat_count hpos
    have hloop := removeForward_eq value count.toInt.toNat [] items le_rfl (Nat.zero_le _)
    rw [List.length_nil, List.nil_append, List.nil_append, Nat.sub_zero, Nat.zero_add,
      ← (trimmed_removeFirst ..).length] at hloop
    rw [if_pos hint, if_pos hpos, hnat, hloop]
  · by_cases hneg : count < 0
    · obtain ⟨hint, hnat⟩ := natAbs_count hneg
      have hloop := removeBackward_eq value count.toInt.natAbs items.reverse [] (Nat.zero_le _)
      rw [List.reverse_reverse, List.append_nil, List.append_nil, Nat.sub_zero, Nat.zero_add,
        ← (trimmed_removeFirst ..).length, List.length_reverse] at hloop
      rw [if_neg (Int.not_lt.mpr hint.le), if_pos hint, if_neg hpos, if_pos hneg, hnat, hloop]
      simp only [List.length_reverse]
    · have hint : ¬ 0 < count.toInt := fun h => hpos (Int64.lt_iff_toInt_lt.mpr h)
      have hint' : ¬ count.toInt < 0 := fun h => hneg (Int64.lt_iff_toInt_lt.mpr h)
      rw [if_neg hint, if_neg hint', if_neg hpos, if_neg hneg]

/-- `k` occurrences are gone: from the head, from the tail or all. -/
def Removed (count : Int) (value : Bytes) (items left : List Bytes) (k : Nat) : Prop :=
  if count = 0 then k = items.count value ∧ left = items.filter (· ≠ value)
  else k = min count.natAbs (items.count value) ∧
    if 0 < count then Trimmed value k items left else Trimmed value k items.reverse left.reverse

theorem lrem_removed (count : Int) (value : Bytes) (items : List Bytes) :
    ∃ k left, lrem count value items = (.ok (.integer (k : Nat)), left) ∧
      Removed count value items left k := by
  rcases lt_trichotomy 0 count with hpos | rfl | hneg
  · have htrim := trimmed_removeFirst value count.toNat items
    rw [show count.toNat = count.natAbs by omega] at htrim
    simp only [lrem, Removed, hpos, hpos.ne', if_true, if_false]
    rw [show count.toNat = count.natAbs by omega]
    exact ⟨_, _, by rw [htrim.length], rfl, htrim⟩
  · have htrim : Trimmed value (items.count value) items (items.filter (· ≠ value)) :=
      ⟨items, [], (List.append_nil _).symm, rfl, (List.append_nil _).symm⟩
    exact ⟨_, _, by rw [← htrim.length]; rfl, rfl, rfl⟩
  · have htrim := trimmed_removeFirst value count.natAbs items.reverse
    have hlen := htrim.length
    rw [List.count_reverse] at htrim hlen
    rw [List.length_reverse] at hlen
    simp only [lrem, Removed, Int.not_lt.mpr hneg.le, hneg, hneg.ne, if_true, if_false,
      List.length_reverse]
    exact ⟨_, _, by rw [hlen], rfl, by rwa [List.reverse_reverse]⟩

end Items

/-! ## `LREM` -/

/-- **`LREM` removes just the occurrences asked for** from a key's list, and replies with their
number; its loops do the same. -/
theorem lrem_exact {env : Env} (db : Fin numDatabases) (key : Key) (count : Int64) (value : Bytes)
    (draw : Draw) (s : Dbs env) (items : List Bytes) (expiry : Nat)
    (hs : s.entry (env.addr db key) key = some ⟨.list items, expiry⟩) :
    (∃ k left, (lremCmd db key count.toInt value draw s).1 = .ok (.integer (k : Nat)) ∧
      (lremCmd db key count.toInt value draw s).2.entry (env.addr db key) key
        = some ⟨.list left, expiry⟩ ∧ Items.Removed count.toInt value items left k) ∧
      Items.lrem count.toInt value items = (.ok (.integer (Items.lremLoops value count items).2),
        (Items.lremLoops value count items).1) := by
  refine ⟨?_, Items.lremLoops_eq count items⟩
  obtain ⟨k, left, hrem, hremoved⟩ := Items.lrem_removed count.toInt value items
  rw [lremCmd, Kind.list.update_stored hs rfl, Dbs.entry_write, if_pos ⟨rfl, rfl⟩,
    hrem]
  exact ⟨k, left, rfl, rfl, hremoved⟩

/-- The least count removes both occurrences. -/
theorem lrem_exact_min : ∃ k left,
    (lremCmd 0 "k" Int64.minValue.toInt [0x61] (Sample.draw 0)
      (Sample.single "k" (.list [[0x61], [0x62], [0x61]]))).1 = .ok (.integer (k : Nat)) ∧
    Items.Removed Int64.minValue.toInt [0x61] [[0x61], [0x62], [0x61]] left k := by
  obtain ⟨⟨k, left, hreply, -, hremoved⟩, -⟩ := lrem_exact 0 "k" Int64.minValue [0x61]
    (Sample.draw 0) _ _ 0 (Sample.entry_single "k" (.list [[0x61], [0x62], [0x61]]))
  exact ⟨k, left, hreply, hremoved⟩

/-! ## Blocking pops -/

namespace Items

/-- The element that a pop at the head or at the tail takes, and what it leaves. -/
def ends (head : Bool) (items : List Bytes) : Option (Bytes × List Bytes) :=
  if head then items.head?.map (·, items.tail) else items.getLast?.map (·, items.dropLast)

def pop (head : Bool) : List Bytes → Result Reply × List Bytes := if head then lpop else rpop

theorem pop_eq (head : Bool) (items : List Bytes) :
    pop head items = match ends head items with
      | none => (.ok .nil, items)
      | some p => (.ok (.string p.1), p.2) := by
  cases head with
  | true => cases items <;> rfl
  | false =>
    simp only [pop, ends, rpop, Bool.false_eq_true, if_false]
    cases items.getLast? <;> rfl

end Items

/-- A key with the element that a pop takes from its list, and the entry that is left. -/
structure Taken where
  key : Key
  value : Bytes
  entry : CacheEntry

section

variable {env : Env} {a : Addr env} {head : Bool} {key : Key} {s : Dbs env} {t : Taken}
  {draw : Draw}

def Dbs.takes (s : Dbs env) (head : Bool) (a : Addr env) (key : Key) : Option Taken :=
  match s.entry a key with
  | some ⟨.list items, expiry⟩ => (Items.ends head items).map fun p => ⟨key, p.1, .list p.2, expiry⟩
  | _ => none

/-- What a pop of the first key with an element takes. -/
def Dbs.firstTaken (s : Dbs env) (head : Bool) (db : Fin numDatabases) (keys : List Key) :
    Option Taken :=
  keys.findSome? fun key => s.takes head (env.addr db key) key

theorem Dbs.takes_key (h : s.takes head a key = some t) : t.key = key := by
  unfold takes at h
  split at h
  · obtain ⟨p, -, rfl⟩ := Option.map_eq_some_iff.mp h
    rfl
  · cases h

namespace Handler

def popAt (head : Bool) (a : Addr env) (key : Key) : Handler env Reply :=
  Kind.list.update a key (pure .nil) (Items.pop head)

/-- Without an element to take, no entry changes. -/
theorem quietly_popAt_none (h : s.takes head a key = none) :
    ∃ s', quietly (popAt head a key) draw s = (.ok .nil, s') ∧ s'.entry = s.entry := by
  cases he : s.entry a key with
  | none =>
    refine ⟨s, ?_, rfl⟩
    simp only [quietly, rescue, popAt, Kind.update, bind_apply, look, he]
    rfl
  | some e =>
    obtain ⟨value, expiry⟩ := e
    cases value with
    | list items =>
      simp only [Dbs.takes, he, Option.map_eq_none_iff] at h
      refine ⟨s.update a (·.write key ⟨.list items, expiry⟩), ?_, ?_⟩
      · rw [quietly, rescue, popAt, Kind.list.update_stored he rfl, Items.pop_eq, h]
        rfl
      · funext b k
        rw [Dbs.entry_write]
        split
        · next hk => rw [hk.1, ← hk.2, he]
        · rfl
    | _ =>
      refine ⟨s, ?_, rfl⟩
      simp only [quietly, rescue, popAt, Kind.update, Kind.apply, bind_apply, look, he]
      rfl

theorem quietly_popAt_some (h : s.takes head a key = some t) :
    t.key = key ∧ quietly (popAt head a key) draw s
      = (.ok (.string t.value), s.update a (·.write key t.entry)) := by
  unfold Dbs.takes at h
  split at h
  · next items expiry he =>
    obtain ⟨p, hp, rfl⟩ := Option.map_eq_some_iff.mp h
    refine ⟨rfl, ?_⟩
    rw [quietly, rescue, popAt, Kind.list.update_stored he rfl, Items.pop_eq, hp]
    rfl
  · cases h

/-- A key without an element to take is passed over. -/
theorem popFirst_cons (h : s.takes head a key = none) (rest : List Key) (draw : Draw) :
    ∃ s₁, popFirst (popAt head a) (key :: rest) draw s = popFirst (popAt head a) rest draw s₁ ∧
      s₁.entry = s.entry ∧ s₁.takes head a = s.takes head a := by
  obtain ⟨s₁, hpop, hs₁⟩ := quietly_popAt_none h
  refine ⟨s₁, ?_, hs₁, ?_⟩
  · rw [popFirst, bind_apply, hpop]
  · funext k
    simp only [Dbs.takes, hs₁]

theorem popFirst_none {keys : List Key} (h : keys.findSome? (s.takes head a) = none) :
    (popFirst (popAt head a) keys draw s).1 = .ok .nilArray ∧
      (popFirst (popAt head a) keys draw s).2.entry = s.entry := by
  induction keys generalizing s with
  | nil => exact ⟨rfl, rfl⟩
  | cons key rest ih =>
    rw [List.findSome?_cons] at h
    split at h
    · cases h
    · next hkey =>
      obtain ⟨s₁, hpop, hs₁, htakes⟩ := popFirst_cons hkey rest draw
      rw [hpop, ← hs₁]
      exact ih (htakes ▸ h)

theorem popFirst_some {keys : List Key} (h : keys.findSome? (s.takes head a) = some t)
    (hnil : t.value ≠ Serde.utf8 "nil") :
    (popFirst (popAt head a) keys draw s).1 = .ok (.list [Serde.utf8 t.key, t.value]) ∧
      ∀ b k, (popFirst (popAt head a) keys draw s).2.entry b k
        = if b = a ∧ t.key = k then some t.entry else s.entry b k := by
  induction keys generalizing s with
  | nil => cases h
  | cons key rest ih =>
    rw [List.findSome?_cons] at h
    split at h
    · next hkey =>
      cases h
      obtain ⟨rfl, hpop⟩ := quietly_popAt_some hkey
      rw [popFirst, bind_apply, hpop]
      simp only [ne_eq, hnil, not_false_eq_true, if_true]
      exact ⟨rfl, fun b k => Dbs.entry_write ..⟩
    · next hkey =>
      obtain ⟨s₁, hpop, hs₁, htakes⟩ := popFirst_cons hkey rest draw
      rw [hpop, ← hs₁]
      exact ih (htakes ▸ h)

/-- `BLPOP` or `BRPOP`. -/
def bpopCmd (head : Bool) (db : Fin numDatabases) (keys : List Key) (timeout : F64) :
    Handler env Reply :=
  if head then blpopCmd db keys timeout else brpopCmd db keys timeout

theorem bpopCmd_eq {db : Fin numDatabases} {first : Key} {rest : List Key} {timeout : F64}
    (h : overflowsDuration timeout = false) :
    (bpopCmd head db (first :: rest) timeout : Handler env Reply)
      = popFirst (popAt head (env.addr db first)) (first :: rest) := by
  cases head <;> simp only [bpopCmd, blpopCmd, brpopCmd, blockingPop, h] <;> rfl

/-- The reply names a key of the shard and an element that is not `nil`. -/
theorem popFirst_reply {keys : List Key} {name value : Bytes}
    (h : (popFirst (popAt head a) keys draw s).1 = .ok (.list [name, value])) :
    value ≠ Serde.utf8 "nil" ∧ ∃ key, Serde.utf8 key = name ∧ s.entry a key ≠ none := by
  induction keys generalizing s with
  | nil => cases h
  | cons key rest ih =>
    cases htakes : s.takes head a key with
    | none =>
      obtain ⟨s₁, hpop, hs₁, -⟩ := popFirst_cons htakes rest draw
      rw [hpop] at h
      rw [← hs₁]
      exact ih h
    | some t =>
      have hkey : s.entry a key ≠ none := by
        intro hn
        rw [Dbs.takes, hn] at htakes
        cases htakes
      have hpop : quietly (popAt head a key) draw s
          = (.ok (.string t.value), s.update a (·.write key t.entry)) :=
        (quietly_popAt_some htakes).2
      rw [popFirst, bind_apply, hpop] at h
      by_cases hnil : t.value = Serde.utf8 "nil"
      · simp only [hnil, ne_eq, not_true_eq_false, if_false] at h
        obtain ⟨hvalue, k, hname, hk⟩ := ih h
        refine ⟨hvalue, k, hname, fun hn => ?_⟩
        rw [Dbs.entry_write] at hk
        split at hk
        · next he => exact hkey (he.2 ▸ hn)
        · exact hk hn
      · simp only [ne_eq, hnil, not_false_eq_true, if_true] at h
        cases h
        exact ⟨hnil, key, rfl, hkey⟩

end Handler

/-- The reply names the first key that has an element, this element is gone, and nothing else has
changed; there is no element if the reply is the null array. -/
def Dbs.PopsFirst (s : Dbs env) (head : Bool) (db : Fin numDatabases) (keys : List Key)
    (r : Result Reply × Dbs env) : Prop :=
  match s.firstTaken head db keys with
  | none => r.1 = .ok .nilArray ∧ r.2.entry = s.entry
  | some t => r.1 = .ok (.list [Serde.utf8 t.key, t.value]) ∧
      ∀ b k, r.2.entry b k
        = if b = env.addr db t.key ∧ t.key = k then some t.entry else s.entry b k

/-- The shard of the first key finds what a search in the keys' own shards finds, if that is one of
its own entries. -/
theorem Dbs.findSome?_takes {db : Fin numDatabases} {first : Key} {keys : List Key}
    (hplaced : ∀ key ∈ keys, env.addr db key = env.addr db first ∨
      s.entry (env.addr db first) key = none)
    (hfirst : ∀ t, s.firstTaken head db keys = some t →
      env.addr db t.key = env.addr db first) :
    keys.findSome? (s.takes head (env.addr db first)) = s.firstTaken head db keys := by
  have hnone : ∀ key ∈ keys, s.takes head (env.addr db key) key = none →
      s.takes head (env.addr db first) key = none := by
    intro key hkey hn
    rcases hplaced key hkey with he | he
    · rwa [← he]
    · rw [takes, he]
  cases h : s.firstTaken head db keys with
  | none =>
    rw [firstTaken, List.findSome?_eq_none_iff] at h
    exact List.findSome?_eq_none_iff.mpr fun key hkey => hnone key hkey (h key hkey)
  | some t =>
    have haddr := hfirst t h
    obtain ⟨pre, key, post, rfl, ht, hpre⟩ := List.findSome?_eq_some_iff.mp h
    rw [takes_key ht] at haddr
    refine List.findSome?_eq_some_iff.mpr ⟨pre, key, post, rfl, haddr ▸ ht, fun k hk => ?_⟩
    exact hnone k (List.mem_append_left _ hk) (hpre k hk)

/-- **A blocking pop takes one element, from the first key that has one, just if** this key is in
the shard of the first key listed and the element is not the text `nil`. As `get_shard` has it, a
key of another shard is not in that of the first key. -/
theorem blocking_pop_iff (head : Bool) (db : Fin numDatabases) (first : Key) (rest : List Key)
    (timeout : F64) (draw : Draw) (s : Dbs env)
    (hplaced : ∀ key ∈ first :: rest, env.addr db key = env.addr db first ∨
      s.entry (env.addr db first) key = none) :
    s.PopsFirst head db (first :: rest) (bpopCmd head db (first :: rest) timeout draw s) ↔
      overflowsDuration timeout = false ∧
      ∀ t, s.firstTaken head db (first :: rest) = some t →
        env.addr db t.key = env.addr db first ∧ t.value ≠ Serde.utf8 "nil" := by
  by_cases htimeout : overflowsDuration timeout = true
  · -- `Duration::from_secs_f64` panics
    have hpanic : bpopCmd head db (first :: rest) timeout draw s = (.error .panicked, s) := by
      cases head <;> simp only [bpopCmd, blpopCmd, brpopCmd, blockingPop, htimeout] <;> rfl
    rw [hpanic, Dbs.PopsFirst, htimeout]
    split <;> simp
  rw [Bool.not_eq_true] at htimeout
  rw [bpopCmd_eq htimeout, and_iff_right htimeout, Dbs.PopsFirst]
  constructor
  · intro h t ht
    rw [ht] at h
    obtain ⟨hvalue, key, hname, hkey⟩ := popFirst_reply h.1
    obtain rfl := utf8_injective hname
    obtain ⟨k, hk, htk⟩ := List.exists_of_findSome?_eq_some ht
    obtain rfl := Dbs.takes_key htk
    exact ⟨(hplaced _ hk).resolve_right hkey, hvalue⟩
  · intro h
    have hfind := Dbs.findSome?_takes hplaced fun t ht => (h t ht).1
    cases ht : s.firstTaken head db (first :: rest) with
    | none => exact popFirst_none (hfind.trans ht)
    | some t =>
      obtain ⟨haddr, hnil⟩ := h t ht
      simp only [haddr]
      exact popFirst_some (hfind.trans ht) hnil

end

/-- Two shards, chosen by the length of the key. -/
def Sample.twoShards : Env :=
  { platform with logShards := 1, shardCapacity := 1000, xxHash64 b := .ofNat b.length }

/-- A list in each of two shards. -/
def Sample.twoLists : Dbs Sample.twoShards :=
  (Dbs.fresh.update (Sample.twoShards.addr 0 "k") (·.write "k" ⟨.list [[0x61], [0x62]], 0⟩)).update
    (Sample.twoShards.addr 0 "kk") (·.write "kk" ⟨.list [[0x63]], 0⟩)

/-- The second key has the element, and the third one is in another shard. -/
theorem blocking_pop_iff_second :
    (bpopCmd true 0 ["a", "k", "kk"] .zero (Sample.draw 0) Sample.twoLists).1
      = .ok (.list [Serde.utf8 "k", [0x61]]) := by
  have htakes : Sample.twoLists.firstTaken true 0 ["a", "k", "kk"]
      = some ⟨"k", [0x61], .list [[0x62]], 0⟩ := rfl
  have hpop := (blocking_pop_iff true 0 "a" ["k", "kk"] .zero (Sample.draw 0) Sample.twoLists
    (by
      rintro key (_ | ⟨_, _ | ⟨_, _ | ⟨_, hkey⟩⟩⟩)
      · exact .inl rfl
      · exact .inl rfl
      · exact .inr rfl
      · cases hkey)).mpr
    ⟨by decide, by rw [htakes]; rintro _ ⟨⟩; exact ⟨rfl, by decide⟩⟩
  rw [Dbs.PopsFirst, htakes] at hpop
  exact hpop.1

/-- The element `nil` is gone although the reply has none; and a list in another shard than that of
the first key is overlooked. -/
theorem blocking_pop_loses :
    (bpopCmd true 0 ["k"] .zero (Sample.draw 0)
        (Sample.single "k" (.list [Serde.utf8 "nil"]))).1 = .ok .nilArray ∧
      (bpopCmd true 0 ["k"] .zero (Sample.draw 0)
        (Sample.single "k" (.list [Serde.utf8 "nil"]))).2.entry (Sample.env.addr 0 "k") "k"
        = some ⟨.list [], 0⟩ ∧
      (bpopCmd true 0 ["k", "kk"] .zero (Sample.draw 0)
        (Dbs.fresh.update (Sample.twoShards.addr 0 "kk")
          (·.write "kk" ⟨.list [[0x61]], 0⟩))).1 = .ok .nilArray := by
  refine ⟨rfl, rfl, rfl⟩

end Calod.Store
