import Calod.Store.Text

/-!
# HyperLogLog sketches

`calod-core/src/store/hll.rs`, without the estimate of `PFCOUNT`. A sketch is stored as an ordinary
string: a magic prefix and one byte per register.
-/

namespace Calod.Store

def hllRegisters : Nat := 16384

/-- `HLL_MAX_RANK`. -/
def hllMaxRank : UInt8 := 51

/-- `HLL_MAGIC`, the bytes of `HYLL`. -/
def hllMagic : Bytes := [0x48, 0x59, 0x4C, 0x4C]

structure Hll where
  registers : List UInt8
  length : registers.length = hllRegisters

namespace Hll

/-- `Hll::new`. -/
def new : Hll := ⟨List.replicate hllRegisters 0, List.length_replicate⟩

/-- Number of leading zeros among the low 50 bits. -/
def leadingZeros (low : Nat) : Nat :=
  ((List.range 50).takeWhile fun i => !low.testBit (49 - i)).length

/-- `index_and_rank`. -/
def indexAndRank (hash : UInt64) : Nat × UInt8 :=
  let low := hash.toNat % 2 ^ 50
  (hash.toNat / 2 ^ 50, if low = 0 then hllMaxRank else UInt8.ofNat (leadingZeros low + 1))

theorem length_set (h : Hll) (index : Nat) (rank : UInt8) :
    (h.registers.set index rank).length = hllRegisters :=
  List.length_set.trans h.length

/-- `Hll::add`. -/
def add (platform : Platform) (h : Hll) (element : Bytes) : Bool × Hll :=
  let (index, rank) := indexAndRank (platform.xxHash64 element)
  if (h.registers[index]?.getD 0) < rank then
    (true, ⟨h.registers.set index rank, h.length_set index rank⟩)
  else (false, h)

theorem length_zipWith (h other : Hll) (f : UInt8 → UInt8 → UInt8) :
    (List.zipWith f h.registers other.registers).length = hllRegisters := by
  rw [List.length_zipWith, h.length, other.length, Nat.min_self]

/-- `Hll::merge`. -/
def merge (h other : Hll) : Hll where
  registers :=
    List.zipWith (fun dst src => if dst < src then src else dst) h.registers other.registers
  length := length_zipWith h other _

/-- `Hll::to_bytes`. -/
def toBytes (h : Hll) : Bytes := hllMagic ++ h.registers

/-- `Hll::is_hll`. -/
def isHll (bytes : Bytes) : Bool :=
  bytes.length = hllMagic.length + hllRegisters && bytes.take hllMagic.length = hllMagic

theorem length_drop {bytes : Bytes} (h : isHll bytes = true) :
    (bytes.drop hllMagic.length).length = hllRegisters := by
  rw [isHll, Bool.and_eq_true, decide_eq_true_iff] at h
  rw [List.length_drop, h.1, Nat.add_sub_cancel_left]

/-- `Hll::from_bytes`. -/
def fromBytes (bytes : Bytes) : Option Hll :=
  if h : isHll bytes = true then some ⟨bytes.drop hllMagic.length, length_drop h⟩ else none

end Hll

end Calod.Store
