import Mathlib

/-!
# CRC32C

The Castagnoli checksum, bit by bit, with reflected polynomial `0x82f63b78`. Registers are
natural numbers below `2 ^ 32`, so that the kernel evaluates the function on closed inputs.
-/

namespace Lib.Crc32c

/-- Shift one bit out of the register. -/
def shift (register : Nat) : Nat :=
  if register % 2 = 1 then (register >>> 1) ^^^ 0x82f63b78 else register >>> 1

def shiftByte (register : Nat) (byte : UInt8) : Nat :=
  shift (shift (shift (shift (shift (shift (shift (shift (register ^^^ byte.toNat))))))))

/-- Continue a checksum over more data. -/
def crc32cAppend (crc : UInt32) (data : List UInt8) : UInt32 :=
  UInt32.ofNat (data.foldl shiftByte (crc.toNat ^^^ 0xffffffff) ^^^ 0xffffffff)

def crc32c (data : List UInt8) : UInt32 := crc32cAppend 0 data

-- the check value of the digits 1 to 9
example : crc32c [0x31, 0x32, 0x33, 0x34, 0x35, 0x36, 0x37, 0x38, 0x39] = 0xe3069283 := by
  decide +kernel

end Lib.Crc32c
