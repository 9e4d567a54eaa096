import Calod.Serde.Json

/-!
# Texts and numbers of the store

`str`, the integer types and `f64` as the command handlers use them. An `f64` is held by its bits:
the comparisons are those of the bits, while arithmetic and the decimal notation of floats are left
to the `Platform`, together with the hash function and the JSON parser.
-/

namespace Calod.Store

open Std (TransOrd LawfulEqOrd)

abbrev Bytes := List UInt8

/-- Keys are `String` in every command. -/
abbrev Key := String

abbrev Json := Serde.Value

/-! ## Texts -/

/-- `std::str::from_utf8`. -/
def fromUtf8 (bytes : Bytes) : Option String := String.fromUTF8? ⟨bytes.toArray⟩

/-- `char::is_whitespace`. -/
def isWhitespace (c : Char) : Bool :=
  let n := c.toNat
  (9 ≤ n && n ≤ 13) || n = 0x20 || n = 0x85 || n = 0xA0 || n = 0x1680
    || (0x2000 ≤ n && n ≤ 0x200A) || n = 0x2028 || n = 0x2029 || n = 0x202F || n = 0x205F
    || n = 0x3000

/-- `str::trim`. -/
def trim (s : List Char) : List Char :=
  ((s.dropWhile isWhitespace).reverse.dropWhile isWhitespace).reverse

/-- `str::split_once`. -/
def splitOnce (sep : Char) : List Char → Option (List Char × List Char)
  | [] => none
  | c :: rest =>
    if c = sep then some ([], rest) else (splitOnce sep rest).map fun p => (c :: p.1, p.2)

/-! ## Integers -/

def u64Max : Nat := 2 ^ 64 - 1

/-- Unsigned arithmetic in a release build. -/
def wrapU64 (n : Nat) : Nat := n % 2 ^ 64

/-- Signed arithmetic in a release build. -/
def wrapI64 (n : Int) : Int := n.bmod (2 ^ 64)

def digitOf (c : Char) : Option Nat :=
  if 0x30 ≤ c.toNat ∧ c.toNat ≤ 0x39 then some (c.toNat - 0x30) else none

def digitsFrom (acc : Nat) : List Char → Option Nat
  | [] => some acc
  | c :: rest => (digitOf c).bind fun d => digitsFrom (acc * 10 + d) rest

/-- A nonempty sequence of decimal digits. -/
def parseDigits : List Char → Option Nat
  | [] => none
  | c :: rest => digitsFrom 0 (c :: rest)

/-- `str::parse::<u64>` (and `usize`). -/
def parseU64 (s : List Char) : Option Nat :=
  let digits := match s with
    | '+' :: rest => rest
    | s => s
  (parseDigits digits).filter fun n => n ≤ u64Max

/-- `str::parse::<i64>`. -/
def parseI64 : List Char → Option Int
  | '-' :: rest => ((parseDigits rest).filter fun n => n ≤ 2 ^ 63).map fun n => -(n : Int)
  | '+' :: rest => ((parseDigits rest).filter fun n => n < 2 ^ 63).map fun n => (n : Int)
  | s => ((parseDigits s).filter fun n => n < 2 ^ 63).map fun n => (n : Int)

/-- `std::str::from_utf8(b).ok().and_then(|t| t.trim().parse::<i64>().ok())`. -/
def integerText (bytes : Bytes) : Option Int :=
  (fromUtf8 bytes).bind fun s => parseI64 (trim s.toList)

/-! ## Floats -/

structure F64 where
  bits : UInt64
  deriving DecidableEq, Repr

namespace F64

def zero : F64 := ⟨0⟩

def infinity : F64 := ⟨0x7FF0000000000000⟩

def negInfinity : F64 := ⟨0xFFF0000000000000⟩

/-- The bits without the sign. -/
def magnitude (x : F64) : Nat := x.bits.toNat % 2 ^ 63

def isNegative (x : F64) : Bool := 2 ^ 63 ≤ x.bits.toNat

def isNan (x : F64) : Bool := 0x7FF0000000000000 < x.magnitude

/-- Place in the order of `f64::total_cmp`. -/
def rank (x : F64) : Int :=
  if x.bits.toNat < 2 ^ 63 then x.bits.toNat else 2 ^ 63 - 1 - x.bits.toNat

theorem rank_injective {x y : F64} (h : x.rank = y.rank) : x = y := by
  obtain ⟨x⟩ := x
  obtain ⟨y⟩ := y
  simp only [rank] at h
  have hxy : x.toNat = y.toNat := by
    split at h <;> split at h <;> omega
  rw [UInt64.toNat_inj.mp hxy]

/-- `f64::total_cmp`. -/
instance : Ord F64 := ⟨compareOn rank⟩

instance : TransOrd F64 := inferInstanceAs (Std.TransCmp (compareOn rank))

instance : LawfulEqOrd F64 where
  eq_of_compare h := rank_injective (Std.LawfulEqOrd.eq_of_compare (α := Int) h)

/-- Place in the order of `<`, which does not tell the two zeros apart. -/
def value (x : F64) : Int := if x.isNegative then -(x.magnitude : Int) else x.magnitude

/-- `a < b`. -/
def lt (a b : F64) : Bool := !a.isNan && !b.isNan && a.value < b.value

/-- `a <= b`. -/
def le (a b : F64) : Bool := !a.isNan && !b.isNan && a.value ≤ b.value

end F64

/-! ## What the store takes from elsewhere -/

/-- Float arithmetic and notation, `twox_hash` and `serde_json`. -/
structure Platform where
  /-- `f64` addition. -/
  add : F64 → F64 → F64
  /-- `str::parse::<f64>`. -/
  parseF64 : String → Option F64
  /-- `Display` of `f64`. -/
  displayF64 : F64 → String
  /-- `n as f64`. -/
  ofInt : Int → F64
  /-- `x.trunc() as i64`. -/
  truncI64 : F64 → Int
  /-- `(n as f64 * 0.8) as usize`. -/
  eightTenths : UInt64 → UInt64
  /-- `XxHash64::oneshot(0, _)`. -/
  xxHash64 : Bytes → UInt64
  /-- `geo::encode`, a computation on floats. -/
  geoEncode : F64 → F64 → Option Nat
  /-- `serde_json::from_str`. -/
  fromJson : String → Except String Json

/-- `std::str::from_utf8(b).ok().and_then(|t| t.trim().parse::<f64>().ok())`. -/
def Platform.floatText (platform : Platform) (bytes : Bytes) : Option F64 :=
  (fromUtf8 bytes).bind fun s => platform.parseF64 (String.ofList (trim s.toList))

end Calod.Store
