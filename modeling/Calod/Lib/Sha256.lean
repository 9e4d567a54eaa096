import Mathlib

/-!
# SHA-256

FIPS 180-4, on lists of bytes. Words are natural numbers below `2 ^ 32`, so that the kernel
evaluates the function on closed inputs.
-/

namespace Lib.Sha256

/-- Round constants. -/
def k : List Nat :=
  [0x428a2f98, 0x71374491, 0xb5c0fbcf, 0xe9b5dba5, 0x3956c25b, 0x59f111f1, 0x923f82a4, 0xab1c5ed5,
    0xd807aa98, 0x12835b01, 0x243185be, 0x550c7dc3, 0x72be5d74, 0x80deb1fe, 0x9bdc06a7, 0xc19bf174,
    0xe49b69c1, 0xefbe4786, 0x0fc19dc6, 0x240ca1cc, 0x2de92c6f, 0x4a7484aa, 0x5cb0a9dc, 0x76f988da,
    0x983e5152, 0xa831c66d, 0xb00327c8, 0xbf597fc7, 0xc6e00bf3, 0xd5a79147, 0x06ca6351, 0x14292967,
    0x27b70a85, 0x2e1b2138, 0x4d2c6dfc, 0x53380d13, 0x650a7354, 0x766a0abb, 0x81c2c92e, 0x92722c85,
    0xa2bfe8a1, 0xa81a664b, 0xc24b8b70, 0xc76c51a3, 0xd192e819, 0xd6990624, 0xf40e3585, 0x106aa070,
    0x19a4c116, 0x1e376c08, 0x2748774c, 0x34b0bcb5, 0x391c0cb3, 0x4ed8aa4a, 0x5b9cca4f, 0x682e6ff3,
    0x748f82ee, 0x78a5636f, 0x84c87814, 0x8cc70208, 0x90befffa, 0xa4506ceb, 0xbef9a3f7, 0xc67178f2]

/-- Initial hash value. -/
def h₀ : List Nat :=
  [0x6a09e667, 0xbb67ae85, 0x3c6ef372, 0xa54ff53a, 0x510e527f, 0x9b05688c, 0x1f83d9ab, 0x5be0cd19]

def rotr (x n : Nat) : Nat := ((x >>> n) ||| (x <<< (32 - n))) % 2 ^ 32

def add (x y : Nat) : Nat := (x + y) % 2 ^ 32

def smallSigma0 (x : Nat) : Nat := rotr x 7 ^^^ rotr x 18 ^^^ (x >>> 3)

def smallSigma1 (x : Nat) : Nat := rotr x 17 ^^^ rotr x 19 ^^^ (x >>> 10)

def bigSigma0 (x : Nat) : Nat := rotr x 2 ^^^ rotr x 13 ^^^ rotr x 22

def bigSigma1 (x : Nat) : Nat := rotr x 6 ^^^ rotr x 11 ^^^ rotr x 25

def ch (x y z : Nat) : Nat := (x &&& y) ^^^ ((0xffffffff ^^^ x) &&& z)

def maj (x y z : Nat) : Nat := (x &&& y) ^^^ (x &&& z) ^^^ (y &&& z)

/-- The rounds of one block, on a window of the next 16 schedule words. -/
def rounds : Nat → List Nat → List Nat → List Nat → List Nat
  | 0, _, _, v => v
  | n + 1, ks, ws, v =>
    match ks, ws, v with
    | k :: ks, w :: ws, [a, b, c, d, e, f, g, h] =>
      let t₁ := add (add (add (add h (bigSigma1 e)) (ch e f g)) k) w
      let t₂ := add (bigSigma0 a) (maj a b c)
      let next := add (add (add (smallSigma1 (ws.getD 13 0)) (ws.getD 8 0))
        (smallSigma0 (ws.getD 0 0))) w
      rounds n ks (ws ++ [next]) [add t₁ t₂, a, b, c, add d t₁, e, f, g]
    | _, _, _ => v

/-- Big-endian words of a byte string. -/
def words : List Nat → List Nat
  | a :: b :: c :: d :: rest => (((a * 256 + b) * 256 + c) * 256 + d) :: words rest
  | _ => []

def blocks : Nat → List Nat → List Nat → List Nat
  | 0, _, h => h
  | n + 1, ws, h => blocks n (ws.drop 16) (List.zipWith add h (rounds 64 k (ws.take 16) h))

/-- The message, a 1 bit, zeros, and the length in bits as eight bytes. -/
def pad (message : List Nat) : List Nat :=
  let len := message.length
  message ++ 0x80 :: List.replicate ((119 - len % 64) % 64) 0
    ++ (List.range 8).map fun i => (len * 8) >>> (8 * (7 - i)) % 256

/-- The 32 bytes of the digest. -/
def sha256 (message : List UInt8) : List UInt8 :=
  let ws := words (pad (message.map UInt8.toNat))
  (blocks (ws.length / 16) ws h₀).flatMap fun w =>
    [UInt8.ofNat (w >>> 24), UInt8.ofNat (w >>> 16), UInt8.ofNat (w >>> 8), UInt8.ofNat w]

theorem length_rounds {n : Nat} {ks ws v : List Nat} (h : v.length = 8) :
    (rounds n ks ws v).length = 8 := by
  induction n generalizing ks ws v with
  | zero => exact h
  | succ n ih =>
    unfold rounds
    split
    · exact ih rfl
    · exact h

theorem length_blocks {n : Nat} {ws h : List Nat} (hh : h.length = 8) :
    (blocks n ws h).length = 8 := by
  induction n generalizing ws h with
  | zero => exact hh
  | succ n ih =>
    rw [blocks]
    refine ih ?_
    rw [List.length_zipWith, hh, length_rounds hh]
    rfl

theorem length_sha256 (message : List UInt8) : (sha256 message).length = 32 := by
  have h : ∀ n ws, (blocks n ws h₀).length = 8 := fun _ _ => length_blocks rfl
  simp only [sha256, List.length_flatMap, List.length_cons, List.length_nil]
  rw [List.map_const', List.sum_replicate, h]
  rfl

-- the test vector "abc" of the standard
example : sha256 [0x61, 0x62, 0x63] =
    [0xba, 0x78, 0x16, 0xbf, 0x8f, 0x01, 0xcf, 0xea, 0x41, 0x41, 0x40, 0xde, 0x5d, 0xae, 0x22, 0x23,
      0xb0, 0x03, 0x61, 0xa3, 0x96, 0x17, 0x7a, 0x9c, 0xb4, 0x10, 0xff, 0x61, 0xf2, 0x00, 0x15,
      0xad] := by
  decide +kernel

end Lib.Sha256
