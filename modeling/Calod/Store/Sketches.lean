import Mathlib.Order.Lattice
import Calod.Store.HyperLogLog
import Calod.Store.Shard

/-!
# Sketches

Adding an element joins what it offers to the registers, so that order and repetition do not matter.
-/

namespace Calod.Store.Hll

variable {platform : Platform} {h k : Hll} {x : Bytes}

/-- The ranks that the registers hold. -/
def ranks (h : Hll) (i : Nat) : Nat := (h.registers[i]?.getD 0).toNat

theorem eq_of_ranks (he : h.ranks = k.ranks) : h = k := by
  obtain ⟨l, hl⟩ := h
  obtain ⟨l', hl'⟩ := k
  congr 1
  refine List.ext_getElem (hl.trans hl'.symm) fun i hi hi' => UInt8.toNat_inj.mp ?_
  simpa [ranks, hi, hi'] using congrFun he i

theorem ranks_new (i : Nat) : new.ranks i = 0 := by
  unfold ranks new
  rw [List.getElem?_replicate]
  split <;> rfl

/-! ## Adding and merging -/

/-- What an element offers each register. -/
def offer (platform : Platform) (x : Bytes) (i : Nat) : Nat :=
  if (indexAndRank (platform.xxHash64 x)).1 = i then (indexAndRank (platform.xxHash64 x)).2.toNat
  else 0

theorem offer_le (i : Nat) : offer platform x i ≤ hllMaxRank.toNat := by
  have hlz : ∀ low, leadingZeros low ≤ 50 := fun low =>
    (List.takeWhile_sublist _).length_le.trans_eq (List.length_range)
  unfold offer indexAndRank
  dsimp only
  split
  · split
    · exact Nat.le_refl _
    · rw [UInt8.toNat_ofNat']
      have := hlz ((platform.xxHash64 x).toNat % 2 ^ 50)
      show _ % 256 ≤ 51
      omega
  · exact Nat.zero_le _

theorem toNat_join (a b : UInt8) : (if a < b then b else a).toNat = a.toNat ⊔ b.toNat := by
  split
  · next h => exact (sup_eq_right.mpr (UInt8.lt_iff_toNat_lt.mp h).le).symm
  · next h => exact (sup_eq_left.mpr (UInt8.le_iff_toNat_le.mp (UInt8.not_lt.mp h))).symm

/-- Only the register of the element can grow. -/
theorem ranks_add : (h.add platform x).2.ranks = h.ranks ⊔ offer platform x := by
  have hlt : (indexAndRank (platform.xxHash64 x)).1 < h.registers.length := by
    rw [h.length]
    exact Nat.div_lt_of_lt_mul (platform.xxHash64 x).toNat_lt
  funext i
  rw [Pi.sup_apply]
  unfold add offer
  dsimp only
  by_cases hi : (indexAndRank (platform.xxHash64 x)).1 = i
  · subst hi
    rw [if_pos rfl, ranks, ranks, ← toNat_join]
    split
    · simp [hlt]
    · rfl
  · rw [if_neg hi, sup_eq_left.mpr (Nat.zero_le _)]
    split
    · simp [ranks, List.getElem?_set_ne hi]
    · rfl

theorem add_true_iff :
    (h.add platform x).1 = true ↔ ∃ i, h.ranks i < (h.add platform x).2.ranks i := by
  constructor
  · intro ht
    refine ⟨(indexAndRank (platform.xxHash64 x)).1, ?_⟩
    rw [ranks_add, Pi.sup_apply, offer, if_pos rfl, lt_sup_iff]
    unfold add at ht
    dsimp only at ht
    split at ht
    · next hgt => exact Or.inr (UInt8.lt_iff_toNat_lt.mp hgt)
    · cases ht
  · rintro ⟨i, hi⟩
    by_contra hf
    unfold add at hi hf
    dsimp only at hi hf
    split at hf
    · exact hf rfl
    · next hle =>
      rw [if_neg hle] at hi
      exact Nat.lt_irrefl _ hi

theorem ranks_merge : (h.merge k).ranks = h.ranks ⊔ k.ranks := by
  funext i
  rw [Pi.sup_apply]
  by_cases hi : i < hllRegisters
  · have hhi : i < h.registers.length := h.length ▸ hi
    have hki : i < k.registers.length := k.length ▸ hi
    simp [ranks, merge, hhi, hki, toNat_join]
  · have hnone : ∀ h : Hll, h.ranks i = 0 := fun h => by
      rw [ranks, List.getElem?_eq_none (h.length ▸ Nat.le_of_not_lt hi)]
      rfl
    rw [hnone, hnone, hnone, sup_idem]

/-! ## Sketches of lists -/

/-- The sketch of the elements, added one by one. -/
def sketch (platform : Platform) (xs : List Bytes) : Hll :=
  xs.foldl (fun h x => (h.add platform x).2) .new

theorem foldl_add_le (xs : List Bytes) (f : Nat → Nat) :
    (xs.foldl (fun h x => (h.add platform x).2) h).ranks ≤ f ↔
      h.ranks ≤ f ∧ ∀ x ∈ xs, offer platform x ≤ f := by
  induction xs generalizing h with
  | nil => simp
  | cons x xs ih =>
    rw [List.foldl_cons, ih, ranks_add, sup_le_iff, List.forall_mem_cons, and_assoc]

/-- The registers of a sketch are the least that all elements offer. -/
theorem sketch_le {xs : List Bytes} {f : Nat → Nat} :
    (sketch platform xs).ranks ≤ f ↔ ∀ x ∈ xs, offer platform x ≤ f := by
  rw [sketch, foldl_add_le]
  exact and_iff_right fun i => (ranks_new i).symm ▸ Nat.zero_le _

theorem eq_sketch {xs : List Bytes}
    (hle : ∀ f, h.ranks ≤ f ↔ ∀ x ∈ xs, offer platform x ≤ f) : h = sketch platform xs :=
  eq_of_ranks (eq_of_forall_ge_iff fun f => (hle f).trans sketch_le.symm)

theorem fromBytes_toBytes (h : Hll) : fromBytes h.toBytes = some h := by
  have hhll : isHll h.toBytes = true := by
    simp [isHll, toBytes, h.length]
  rw [fromBytes, dif_pos hhll]
  simp [toBytes]

/--
**Registers form a join semilattice**, whatever the hash function: order and repetition of elements
do not matter, merging sketches is the sketch of both lists, `merge` is associative, commutative and
idempotent, `add` says whether a register grew, no register passes `HLL_MAX_RANK`, and the byte form
reads back.
-/
theorem registers_form_semilattice (platform : Platform) :
    (∀ xs ys : List Bytes, (∀ x, x ∈ xs ↔ x ∈ ys) → sketch platform xs = sketch platform ys) ∧
    (∀ xs ys, (sketch platform xs).merge (sketch platform ys) = sketch platform (xs ++ ys)) ∧
    (∀ a b c : Hll, (a.merge b).merge c = a.merge (b.merge c) ∧
      a.merge b = b.merge a ∧ a.merge a = a) ∧
    (∀ (h : Hll) (x : Bytes),
      ((h.add platform x).1 = true ↔ ∃ i, h.ranks i < (h.add platform x).2.ranks i)) ∧
    (∀ xs, (sketch platform xs).registers.length = hllRegisters ∧
      ∀ r ∈ (sketch platform xs).registers, r ≤ hllMaxRank) ∧
    ∀ h : Hll, fromBytes h.toBytes = some h := by
  refine ⟨fun xs ys hxy => ?_, fun xs ys => ?_, fun a b c => ⟨?_, ?_, ?_⟩,
    fun h x => add_true_iff, fun xs => ⟨(sketch platform xs).length, fun r hr => ?_⟩,
    fromBytes_toBytes⟩
  · refine eq_sketch fun f => ?_
    simp only [sketch_le, hxy]
  · refine eq_sketch fun f => ?_
    rw [ranks_merge, sup_le_iff, sketch_le, sketch_le, List.forall_mem_append]
  · refine eq_of_ranks ?_
    rw [ranks_merge, ranks_merge, ranks_merge, ranks_merge, sup_assoc]
  · refine eq_of_ranks ?_
    rw [ranks_merge, ranks_merge, sup_comm]
  · refine eq_of_ranks ?_
    rw [ranks_merge, sup_idem]
  · obtain ⟨i, hi⟩ := List.mem_iff_getElem?.mp hr
    have hle : (sketch platform xs).ranks i ≤ hllMaxRank.toNat :=
      sketch_le.mpr (fun x _ => offer_le) i
    rwa [ranks, hi] at hle

/-- One element, twice. -/
theorem registers_form_semilattice_twice :
    sketch Sample.platform [[1], [1]] = sketch Sample.platform [[1]] :=
  (registers_form_semilattice Sample.platform).1 _ _ (by simp)

end Calod.Store.Hll
