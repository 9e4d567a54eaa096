import Mathlib

/-!
# Finite maps

`Map K V` is `Std.ExtTreeMap` at the natural order of `K`: two maps are equal when they
answer every lookup alike. The order in which a map is listed is the order of its keys, so
a listing depends on the map alone and not on how it was built.

* `get_insert`, `get_erase`, `get_filter` read a map back, with equality of keys instead of
  `compare`.
* `byKey` rebuilds a map from a list of values that carry their own key, `groupBy` collects
  values under a key in list order. `byKey_values` and `groupBy_flatten` say that both undo
  the corresponding listing.
-/

namespace Lib

open Std (ExtTreeMap TransOrd LawfulEqOrd)

/-- A finite map with extensional equality. -/
abbrev Map (K V : Type) [Ord K] := ExtTreeMap K V compare

namespace Map

variable {K V W : Type} [Ord K] [TransOrd K]

/-! ## Lookups -/

theorem get_empty (k : K) : (∅ : Map K V)[k]? = none := by
  simp

theorem get_insert_self (m : Map K V) (k : K) (v : V) : (m.insert k v)[k]? = some v :=
  ExtTreeMap.getElem?_insert_self

variable [LawfulEqOrd K]

theorem ext_get {m m' : Map K V} (h : ∀ k : K, m[k]? = m'[k]?) : m = m' :=
  ExtTreeMap.ext_getElem? h

theorem get_insert [DecidableEq K] (m : Map K V) (k a : K) (v : V) :
    (m.insert k v)[a]? = if k = a then some v else m[a]? := by
  simp [ExtTreeMap.getElem?_insert]

theorem get_insert_ne (m : Map K V) {k a : K} (v : V) (h : k ≠ a) :
    (m.insert k v)[a]? = m[a]? := by
  classical
  rw [get_insert, if_neg h]

theorem get_erase [DecidableEq K] (m : Map K V) (k a : K) :
    (m.erase k)[a]? = if k = a then none else m[a]? := by
  simp [ExtTreeMap.getElem?_erase]

theorem get_filter (f : K → V → Bool) (m : Map K V) (k : K) :
    (m.filter f)[k]? = m[k]?.filter (f k) := by
  simp [ExtTreeMap.getElem?_filter]

theorem insert_same {m : Map K V} {k : K} {v : V} (h : m[k]? = some v) : m.insert k v = m := by
  classical
  refine ext_get fun a => ?_
  rw [get_insert]
  split
  · next he => rw [← he, h]
  · rfl

/-- Remove every key of a list. -/
def eraseAll (m : Map K V) (ks : List K) : Map K V := ks.foldl (fun m k => m.erase k) m

theorem get_eraseAll [DecidableEq K] (ks : List K) (a : K) : ∀ m : Map K V,
    (m.eraseAll ks)[a]? = if a ∈ ks then none else m[a]? := by
  induction ks with
  | nil => intro m; simp [eraseAll]
  | cons k ks ih =>
    intro m
    rw [eraseAll, List.foldl_cons]
    refine (ih (m.erase k)).trans ?_
    rw [get_erase]
    by_cases hmem : a ∈ ks
    · simp [hmem]
    · by_cases hk : k = a
      · simp [hk]
      · simp [hmem, hk, Ne.symm hk]

/-! ## Listings -/

/-- The values, in the order of their keys. -/
def values (m : Map K V) : List V := m.toList.map Prod.snd

theorem mem_values {m : Map K V} {v : V} : v ∈ m.values ↔ ∃ k : K, m[k]? = some v := by
  simp [values]

/-- The pairs of a map are the only list of pairs sorted by key with its lookups. -/
theorem toList_unique {m : Map K V} {l : List (K × V)}
    (hl : l.Pairwise fun a b => compare a.1 b.1 = .lt)
    (hm : ∀ k v, (k, v) ∈ l ↔ m[k]? = some v) : m.toList = l := by
  have hirr : ∀ a : K × V, ¬ compare a.1 a.1 = .lt := by simp
  have hasymm : ∀ a b, a ∈ m.toList → b ∈ l → compare a.1 b.1 = .lt →
      compare b.1 a.1 = .lt → a = b :=
    fun a _ _ _ hab hba => absurd (Std.TransCmp.lt_trans hab hba) (hirr a)
  refine List.Perm.eq_of_pairwise hasymm ExtTreeMap.ordered_keys_toList hl ?_
  refine (List.perm_ext_iff_of_nodup ?_ ?_).mpr ?_
  · refine ExtTreeMap.ordered_keys_toList.imp ?_
    rintro a _ h rfl
    exact hirr a h
  · refine hl.imp ?_
    rintro a _ h rfl
    exact hirr a h
  · rintro ⟨k, v⟩
    rw [hm, ExtTreeMap.mem_toList_iff_getElem?_eq_some]

theorem toList_filter (f : K → V → Bool) (m : Map K V) :
    (m.filter f).toList = m.toList.filter fun e => f e.1 e.2 := by
  refine toList_unique (ExtTreeMap.ordered_keys_toList.filter _) fun k v => ?_
  rw [List.mem_filter, ExtTreeMap.mem_toList_iff_getElem?_eq_some, get_filter]
  cases m[k]? with
  | none => simp
  | some w => simp only [Option.some.injEq, Option.filter_eq_some_iff]

theorem values_filter (p : V → Bool) (m : Map K V) :
    values (m.filter fun _ v => p v) = m.values.filter p := by
  rw [values, toList_filter, values, List.filter_map]
  rfl

/-- A value that passes `p` is listed from what passes `q`, if `p` is the stronger one there. -/
theorem filter_values_congr {p q : V → Bool} {m m' : Map K V}
    (hm : ∀ (k : K) v, m[k]? = some v → p v = true → q v = true)
    (hm' : ∀ (k : K) v, m'[k]? = some v → p v = true → q v = true)
    (h : ∀ k : K, m[k]?.filter q = m'[k]?.filter q) : m.values.filter p = m'.values.filter p := by
  have hmap : m.filter (fun _ v => p v) = m'.filter (fun _ v => p v) := by
    refine ext_get fun k => ?_
    rw [get_filter, get_filter]
    ext v
    have hk : ∀ v, (m[k]? = some v ∧ q v = true) ↔ (m'[k]? = some v ∧ q v = true) := by
      intro v
      rw [← Option.filter_eq_some_iff, ← Option.filter_eq_some_iff, h k]
    rw [Option.filter_eq_some_iff, Option.filter_eq_some_iff]
    constructor
    · rintro ⟨hv, hp⟩
      exact ⟨((hk v).mp ⟨hv, hm k v hv hp⟩).1, hp⟩
    · rintro ⟨hv, hp⟩
      exact ⟨((hk v).mpr ⟨hv, hm' k v hv hp⟩).1, hp⟩
  rw [← values_filter, ← values_filter, hmap]

/-! ## Rebuilding a map from its pairs or its values -/

/-- A map is rebuilt by inserting its pairs one after the other. -/
theorem foldl_insert_toList (m : Map K V) :
    m.toList.foldl (fun acc kv => acc.insert kv.1 kv.2) (∅ : Map K V) = m := by
  classical
  rw [← ExtTreeMap.ofList_eq_foldl]
  refine ext_get fun k => ?_
  cases hk : m[k]? with
  | none =>
    refine ExtTreeMap.getElem?_ofList_of_contains_eq_false ?_
    rw [ExtTreeMap.map_fst_toList_eq_keys, ExtTreeMap.contains_keys,
      ExtTreeMap.contains_eq_isSome_getElem?, hk]
    rfl
  | some v =>
    exact ExtTreeMap.getElem?_ofList_of_mem (by simp) ExtTreeMap.distinct_keys_toList
      (ExtTreeMap.mem_toList_iff_getElem?_eq_some.mpr hk)

/-- Insert every value under its own key; a later value replaces an earlier one. -/
def byKey (key : V → K) (m : Map K V) (vs : List V) : Map K V :=
  vs.foldl (fun m v => m.insert (key v) v) m

theorem byKey_get_of_notMem {key : V → K} {vs : List V} {k : K} (h : ∀ v ∈ vs, key v ≠ k) :
    ∀ m, (byKey key m vs)[k]? = m[k]? := by
  induction vs with
  | nil => intro m; rfl
  | cons v vs ih =>
    intro m
    have hrest := ih (fun w hw => h w (List.mem_cons_of_mem _ hw)) (m.insert (key v) v)
    rw [byKey, List.foldl_cons]
    exact hrest.trans (get_insert_ne m v (h v List.mem_cons_self))

theorem byKey_get_of_mem {key : V → K} {vs : List V} {v : V} (hv : v ∈ vs)
    (huniq : ∀ w ∈ vs, key w = key v → w = v) :
    ∀ m, (byKey key m vs)[key v]? = some v := by
  induction vs with
  | nil => cases hv
  | cons w vs ih =>
    intro m
    rw [byKey, List.foldl_cons]
    by_cases hmem : v ∈ vs
    · exact ih hmem (fun x hx => huniq x (List.mem_cons_of_mem _ hx)) _
    · -- `v` is the head, and no later value has its key
      have hwv : w = v := by
        rcases List.mem_cons.mp hv with he | he
        · exact he.symm
        · exact absurd he hmem
      have hlater : ∀ x ∈ vs, key x ≠ key v := by
        intro x hx he
        exact hmem (huniq x (List.mem_cons_of_mem _ hx) he ▸ hx)
      have hrest := byKey_get_of_notMem hlater (m.insert (key w) w)
      rw [hwv] at hrest ⊢
      exact hrest.trans (get_insert_self m (key v) v)

/-- **A map whose values carry their keys is rebuilt from the list of its values.** -/
theorem byKey_values {key : V → K} {m : Map K V} (hm : ∀ k v, m[k]? = some v → key v = k) :
    byKey key ∅ m.values = m := by
  refine ext_get fun k => ?_
  cases hk : m[k]? with
  | none =>
    rw [byKey_get_of_notMem, get_empty]
    intro v hv he
    obtain ⟨a, ha⟩ := mem_values.mp hv
    rw [← hm a v ha, he, hk] at ha
    cases ha
  | some v =>
    obtain rfl := hm k v hk
    refine byKey_get_of_mem (mem_values.mpr ⟨_, hk⟩) ?_ ∅
    intro w hw he
    obtain ⟨a, ha⟩ := mem_values.mp hw
    rw [← hm a w ha, he, hk] at ha
    exact (Option.some.inj ha).symm

/-! ## Grouping -/

/-- Append every value to the list kept under its key. -/
def groupBy (key : V → K) (m : Map K (List V)) (vs : List V) : Map K (List V) :=
  vs.foldl (fun m v => m.insert (key v) (m.getD (key v) [] ++ [v])) m

/-- Appending a list to what is stored; an absent entry stays absent when nothing is added. -/
def extend (old : Option (List V)) : List V → Option (List V)
  | [] => old
  | v :: vs => some (old.getD [] ++ v :: vs)

theorem groupBy_get [DecidableEq K] (key : V → K) (k : K) (vs : List V) : ∀ m : Map K (List V),
    (groupBy key m vs)[k]? = extend m[k]? (vs.filter fun v => key v = k) := by
  induction vs with
  | nil => intro m; rfl
  | cons v vs ih =>
    intro m
    rw [groupBy, List.foldl_cons]
    refine (ih _).trans ?_
    rw [get_insert, ExtTreeMap.getD_eq_getD_getElem?]
    by_cases hk : key v = k
    · subst hk
      rw [if_pos rfl, List.filter_cons_of_pos (by simp)]
      cases vs.filter fun w => key w = key v with
      | nil => rfl
      | cons w ws => simp [extend]
    · rw [if_neg hk, List.filter_cons_of_neg (by simpa using hk)]

omit [TransOrd K] in
/-- In a list of pairs with distinct keys, only the pair of `k` holds values of key `k`. -/
theorem filter_flatMap_pairs [DecidableEq K] (key : V → K) (k : K) :
    ∀ ps : List (K × List V), (ps.Pairwise fun a b => compare a.1 b.1 = .lt) →
      (∀ p ∈ ps, ∀ v ∈ p.2, key v = p.1) →
      (∀ l, (k, l) ∈ ps → (ps.flatMap Prod.snd).filter (fun v => key v = k) = l) ∧
        ((∀ l, (k, l) ∉ ps) → (ps.flatMap Prod.snd).filter (fun v => key v = k) = []) := by
  intro ps
  induction ps with
  | nil => simp
  | cons p ps ih =>
    intro hsorted hkeys
    obtain ⟨hlt, hsorted⟩ := List.pairwise_cons.mp hsorted
    obtain ⟨ihmem, ihnone⟩ := ih hsorted fun q hq => hkeys q (List.mem_cons_of_mem _ hq)
    have hhead := hkeys p List.mem_cons_self
    rw [List.flatMap_cons, List.filter_append]
    by_cases hpk : p.1 = k
    · -- the head is the pair of `k`, so no later pair is
      have hlater : ∀ l, (k, l) ∉ ps := by
        intro l hl
        have := hlt _ hl
        simp [hpk] at this
      have hall : p.2.filter (fun v => key v = k) = p.2 := by
        refine List.filter_eq_self.mpr fun v hv => ?_
        simp [hhead v hv, hpk]
      rw [hall, ihnone hlater, List.append_nil]
      refine ⟨fun l hl => ?_, fun hno => absurd ?_ (hno p.2)⟩
      · rcases List.mem_cons.mp hl with he | he
        · rw [← he]
        · exact absurd he (hlater l)
      · rw [← hpk]; exact List.mem_cons_self
    · have hnone : p.2.filter (fun v => key v = k) = [] := by
        refine List.filter_eq_nil_iff.mpr fun v hv => ?_
        simp [hhead v hv, hpk]
      rw [hnone, List.nil_append]
      refine ⟨fun l hl => ihmem l ?_, fun hno => ihnone fun l hl => hno l ?_⟩
      · rcases List.mem_cons.mp hl with he | he
        · exact absurd (congrArg Prod.fst he).symm hpk
        · exact he
      · exact List.mem_cons_of_mem _ hl

/-- The group of `k` in a flattened map is the list stored under `k`, unless that is empty. -/
theorem groupBy_flatten_get [DecidableEq K] {key : V → K} {m : Map K (List V)}
    (hkey : ∀ k l, m[k]? = some l → ∀ v ∈ l, key v = k) (k : K) :
    (groupBy key ∅ m.values.flatten)[k]? = extend none (m[k]?.getD []) := by
  have hpairs := filter_flatMap_pairs key k m.toList
    ExtTreeMap.ordered_keys_toList fun p hp v hv =>
      hkey p.1 p.2 (ExtTreeMap.mem_toList_iff_getElem?_eq_some.mp hp) v hv
  rw [groupBy_get, get_empty, values, ← List.flatMap_def]
  cases hk : m[k]? with
  | none =>
    rw [hpairs.2 fun l hl => ?_]
    · rfl
    · rw [ExtTreeMap.mem_toList_iff_getElem?_eq_some, hk] at hl
      cases hl
  | some l =>
    rw [hpairs.1 l (ExtTreeMap.mem_toList_iff_getElem?_eq_some.mpr hk)]
    rfl

/--
**Grouping undoes flattening.** A map of nonempty lists whose values carry the key they are
stored under comes back from the concatenation of its lists.
-/
theorem groupBy_flatten {key : V → K} {m : Map K (List V)} (hne : ∀ k : K, m[k]? ≠ some [])
    (hkey : ∀ k l, m[k]? = some l → ∀ v ∈ l, key v = k) :
    groupBy key ∅ m.values.flatten = m := by
  classical
  refine ext_get fun k => ?_
  rw [groupBy_flatten_get hkey k]
  cases hk : m[k]? with
  | none => rfl
  | some l =>
    cases l with
    | nil => exact absurd hk (hne k)
    | cons v vs => rfl

end Map

end Lib
