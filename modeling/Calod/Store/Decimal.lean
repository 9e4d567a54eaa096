import Calod.Store.Text

/-!
# Decimal texts

What `to_string` writes for an integer, `str::parse` reads back. The texts are ASCII, so their
bytes are their characters.

* `fromUtf8_utf8` — the bytes of a string are read back as the string
* `parseI64_toString`, `integerText_toString` — an `i64` is read back from its decimal text
-/

namespace Calod.Store

open Serde (utf8)

variable {l : List Char} {c : Char} {i : Int}

/-! ## Bytes of a text -/

theorem fromUtf8_utf8 (s : String) : fromUtf8 (utf8 s) = some s := by
  unfold fromUtf8 utf8 String.fromUTF8?
  have hdata : (⟨s.toUTF8.data.toList.toArray⟩ : ByteArray) = s.toUTF8 := by simp
  have hvalid : s.toUTF8.IsValidUTF8 := s.isValidUTF8
  rw [hdata, dif_pos hvalid]
  rfl

theorem utf8_injective : Function.Injective utf8 := by
  intro s t h
  rw [← Option.some_inj, ← fromUtf8_utf8 s, h, fromUtf8_utf8]

theorem utf8_ofList (l : List Char) : utf8 (String.ofList l) = l.flatMap String.utf8EncodeChar := by
  show (l.flatMap String.utf8EncodeChar).toByteArray.data.toList = _
  simp

/-- An ASCII text has one byte for each character. -/
theorem utf8_ofList_ascii (h : ∀ c ∈ l, c.toNat ≤ 127) :
    utf8 (String.ofList l) = l.map fun c => UInt8.ofNat c.toNat := by
  rw [utf8_ofList]
  induction l with
  | nil => rfl
  | cons c rest ih =>
    have hc : c.toNat ≤ 127 := h c List.mem_cons_self
    rw [List.flatMap_cons, List.map_cons, ih fun x hx => h x (List.mem_cons_of_mem _ hx)]
    simp [String.utf8EncodeChar, hc]

/-! ## Digits -/

theorem toNat_of_isDigit (h : c.isDigit = true) : 48 ≤ c.toNat ∧ c.toNat ≤ 57 := by
  simp only [Char.isDigit, Bool.and_eq_true, decide_eq_true_eq] at h
  exact h

theorem digitOf_of_isDigit (h : c.isDigit = true) : digitOf c = some (c.toNat - '0'.toNat) := by
  rw [digitOf, if_pos (toNat_of_isDigit h)]
  rfl

theorem digitsFrom_of_isDigit (h : ∀ c ∈ l, c.isDigit = true) (acc : Nat) :
    digitsFrom acc l = some (Nat.ofDigitChars 10 l acc) := by
  induction l generalizing acc with
  | nil => rw [digitsFrom, Nat.ofDigitChars_nil]
  | cons c rest ih =>
    rw [digitsFrom, digitOf_of_isDigit (h c List.mem_cons_self), Option.bind_some,
      ih fun x hx => h x (List.mem_cons_of_mem _ hx), Nat.ofDigitChars_cons, Nat.mul_comm]

theorem isDigit_toDigits {n : Nat} : ∀ c ∈ Nat.toDigits 10 n, c.isDigit = true :=
  fun _ hc => Nat.isDigit_of_mem_toDigits (by decide) (by decide) hc

theorem parseDigits_toDigits (n : Nat) : parseDigits (Nat.toDigits 10 n) = some n := by
  cases h : Nat.toDigits 10 n with
  | nil => exact absurd h Nat.toDigits_ne_nil
  | cons c rest =>
    rw [parseDigits, ← h, digitsFrom_of_isDigit isDigit_toDigits, Nat.ofDigitChars_ten_toDigits]

/-! ## Integers -/

/-- The characters of the decimal text of an integer. -/
def decimal : Int → List Char
  | .ofNat n => Nat.toDigits 10 n
  | .negSucc n => '-' :: Nat.toDigits 10 (n + 1)

theorem toString_eq_decimal (i : Int) : toString i = String.ofList (decimal i) := by
  cases i with
  | ofNat n =>
    show n.repr = _
    rw [Nat.repr_eq_ofList_toDigits]
    rfl
  | negSucc n =>
    show "-" ++ (n + 1).repr = _
    rw [Nat.repr_eq_ofList_toDigits, decimal, ← List.singleton_append, String.ofList_append]

theorem mem_decimal (h : c ∈ decimal i) : c = '-' ∨ c.isDigit = true := by
  cases i with
  | ofNat n => exact .inr (isDigit_toDigits c h)
  | negSucc n => exact (List.mem_cons.mp h).imp_right (isDigit_toDigits c)

/-- A decimal text has no byte below the minus sign: no blank, and no end of a line. -/
theorem toNat_of_mem_decimal (h : c ∈ decimal i) : 45 ≤ c.toNat ∧ c.toNat ≤ 57 := by
  rcases mem_decimal h with rfl | hc
  · decide
  · have := toNat_of_isDigit hc
    omega

theorem parseI64_digits (h : ∀ c ∈ l, c.isDigit = true) :
    parseI64 l = ((parseDigits l).filter fun n => n < 2 ^ 63).map fun n => (n : Int) := by
  cases l with
  | nil => rfl
  | cons c rest =>
    have hc := toNat_of_isDigit (h c List.mem_cons_self)
    unfold parseI64
    split
    · next heq => rw [(List.cons.inj heq).1] at hc; exact absurd hc (by decide)
    · next heq => rw [(List.cons.inj heq).1] at hc; exact absurd hc (by decide)
    · rfl

theorem parseI64_decimal (hlo : -2 ^ 63 ≤ i) (hhi : i < 2 ^ 63) :
    parseI64 (decimal i) = some i := by
  cases i with
  | ofNat n =>
    have hn : n < 2 ^ 63 := by
      have : (n : Int) < 2 ^ 63 := hhi
      omega
    rw [decimal, parseI64_digits isDigit_toDigits, parseDigits_toDigits]
    simp only [Option.filter, hn, decide_true, if_true]
    rfl
  | negSucc n =>
    have hn : n + 1 ≤ 2 ^ 63 := by
      rw [Int.negSucc_eq] at hlo
      omega
    rw [decimal, parseI64, parseDigits_toDigits]
    simp only [Option.filter, hn, decide_true, if_true]
    rfl

theorem parseI64_toString (hlo : -2 ^ 63 ≤ i) (hhi : i < 2 ^ 63) :
    parseI64 (toString i).toList = some i := by
  rw [toString_eq_decimal, String.toList_ofList, parseI64_decimal hlo hhi]

theorem isWhitespace_of_mem_decimal (h : c ∈ decimal i) : isWhitespace c = false := by
  have := toNat_of_mem_decimal h
  simp only [isWhitespace, Bool.or_eq_false_iff, Bool.and_eq_false_iff, decide_eq_false_iff_not]
  omega

theorem dropWhile_isWhitespace (h : ∀ c ∈ l, isWhitespace c = false) :
    l.dropWhile isWhitespace = l := by
  cases l with
  | nil => rfl
  | cons c rest => rw [List.dropWhile_cons, h c List.mem_cons_self]; rfl

theorem trim_decimal (i : Int) : trim (decimal i) = decimal i := by
  have h : ∀ c ∈ decimal i, isWhitespace c = false := fun c => isWhitespace_of_mem_decimal
  rw [trim, dropWhile_isWhitespace h, dropWhile_isWhitespace (by simpa using h),
    List.reverse_reverse]

/-- **A decimal text is read back**, as the counters of the store read it. -/
theorem integerText_toString (hlo : -2 ^ 63 ≤ i) (hhi : i < 2 ^ 63) :
    integerText (utf8 (toString i)) = some i := by
  rw [integerText, fromUtf8_utf8, Option.bind_some, toString_eq_decimal, String.toList_ofList,
    trim_decimal, parseI64_decimal hlo hhi]

/-- The bytes of a decimal text. -/
theorem utf8_toString (i : Int) :
    utf8 (toString i) = (decimal i).map fun c => UInt8.ofNat c.toNat := by
  rw [toString_eq_decimal]
  refine utf8_ofList_ascii fun c hc => ?_
  have := toNat_of_mem_decimal hc
  omega

theorem le_of_mem_utf8_toString {b : UInt8} (h : b ∈ utf8 (toString i)) :
    45 ≤ b.toNat ∧ b.toNat ≤ 57 := by
  rw [utf8_toString] at h
  obtain ⟨c, hc, rfl⟩ := List.mem_map.mp h
  have := toNat_of_mem_decimal hc
  rw [UInt8.toNat_ofNat', Nat.mod_eq_of_lt (by omega)]
  exact this

end Calod.Store
