import Mathlib

/-!
# Little-endian integers and fixed fields of a byte string

* `fromLeBytes_toLeBytes` — reading back what was written
* `fromLeBytes_injective` — different bytes of the same width read as different numbers
* `field_set_of_mem`, `field_set_of_not_mem` — what changing one byte does to a field
-/

namespace Lib

/-! ## Integers -/

/-- The low `width` bytes of `n`, least significant first. -/
def toLeBytes : Nat → Nat → List UInt8
  | 0, _ => []
  | width + 1, n => UInt8.ofNat n :: toLeBytes width (n / 256)

def fromLeBytes : List UInt8 → Nat
  | [] => 0
  | b :: rest => b.toNat + 256 * fromLeBytes rest

@[simp] theorem length_toLeBytes (width n : Nat) : (toLeBytes width n).length = width := by
  induction width generalizing n with
  | zero => rfl
  | succ width ih => rw [toLeBytes, List.length_cons, ih]

theorem fromLeBytes_toLeBytes (width n : Nat) :
    fromLeBytes (toLeBytes width n) = n % 256 ^ width := by
  induction width generalizing n with
  | zero => simp [toLeBytes, fromLeBytes, Nat.mod_one]
  | succ width ih =>
    rw [toLeBytes, fromLeBytes, ih, Nat.pow_succ, Nat.mul_comm (256 ^ width), Nat.mod_mul]
    simp

theorem fromLeBytes_lt (bytes : List UInt8) : fromLeBytes bytes < 256 ^ bytes.length := by
  induction bytes with
  | nil => simp [fromLeBytes]
  | cons b rest ih =>
    have hb := b.toNat_lt
    rw [fromLeBytes, List.length_cons, Nat.pow_succ]
    omega

theorem fromLeBytes_injective {bytes bytes' : List UInt8} (hlen : bytes.length = bytes'.length)
    (h : fromLeBytes bytes = fromLeBytes bytes') : bytes = bytes' := by
  induction bytes generalizing bytes' with
  | nil => exact (List.length_eq_zero_iff.mp hlen.symm).symm
  | cons b rest ih =>
    cases bytes' with
    | nil => cases hlen
    | cons b' rest' =>
      have hb := b.toNat_lt
      have hb' := b'.toNat_lt
      rw [fromLeBytes, fromLeBytes] at h
      have hhead : b = b' := UInt8.toNat_inj.mp (by omega)
      rw [hhead, ih (Nat.succ.inj hlen) (by omega)]

/-! ## Fields -/

/-- The `width` bytes from `start` on. -/
def field (bytes : List UInt8) (start width : Nat) : List UInt8 := (bytes.drop start).take width

variable {bytes : List UInt8} {start width : Nat}

theorem length_field (h : start + width ≤ bytes.length) :
    (field bytes start width).length = width := by
  simp only [field, List.length_take, List.length_drop]
  omega

theorem field_append {bytes rest : List UInt8} (h : start + width ≤ bytes.length) :
    field (bytes ++ rest) start width = field bytes start width := by
  rw [field, field, List.drop_append_of_le_length (by omega),
    List.take_append_of_le_length (by rw [List.length_drop]; omega)]

/-- Fields of what follows a known start. -/
theorem field_append_right (start bytes : List UInt8) (offset width : Nat) :
    field (start ++ bytes) (start.length + offset) width = field bytes offset width := by
  rw [field, field, List.drop_length_add_append]

/-- A field of a longer one is a field. -/
theorem field_take {start width len : Nat} (h : start + width ≤ len) :
    field (bytes.take len) start width = field bytes start width := by
  rw [field, field, List.drop_take, List.take_take, Nat.min_eq_left (by omega)]

/-- Changing a byte outside a field leaves it alone. -/
theorem field_set_of_not_mem {start width p : Nat} {b : UInt8} (h : p < start ∨ start + width ≤ p) :
    field (bytes.set p b) start width = field bytes start width := by
  rw [field, field, List.drop_set]
  rcases h with h | h
  · rw [if_pos h]
  · by_cases hp : p < start
    · rw [if_pos hp]
    · rw [if_neg hp, List.take_set, List.set_eq_of_length_le]
      rw [List.length_take]
      omega

/-- Changing a byte inside a field changes it. -/
theorem field_set_of_mem {start width p : Nat} {b : UInt8} (hp : start ≤ p ∧ p < start + width)
    (hlt : p < bytes.length) (hb : bytes[p]? ≠ some b) :
    field (bytes.set p b) start width ≠ field bytes start width := by
  intro h
  have hget := congrArg (fun l : List UInt8 => l[p - start]?) h
  simp only [field, List.getElem?_take, List.getElem?_drop] at hget
  rw [if_pos (by omega), if_pos (by omega), show start + (p - start) = p by omega,
    List.getElem?_set_self hlt] at hget
  exact hb hget.symm

end Lib
