import Calod.Lib.Codes
import Calod.Store.Decimal

/-!
# Canonical JSON is faithful

The canonical bytes determine the value, and the value determines them. What a JSON value is, apart
from the order in which an object's entries are held, is its `meaning`: an object is a map from
keys.

* `encodeString_prefixFree` — a quoted string ends where its closing quote is
* `canonicalJson_inj` — equal bytes, equal meaning; by recursion over the values, with the bytes
  that follow in the statement
* `canonicalJson_congr` — equal meaning, equal bytes
-/

namespace Calod.Serde

open Lib

variable {n : Number} {i : Int} {f g : UInt64 → String} {P Q : Number → Prop} {items : List Value}
  {entries entries' : List (String × Value)}

/-! ## Strings -/

/-- The value of a hex digit. -/
def hexValue (c : Char) : Nat :=
  if c.toNat < 0x61 then c.toNat - 0x30 else c.toNat - 0x61 + 10

theorem hexValue_hexDigit {n : Nat} (h : n < 16) : hexValue (hexDigit n) = n := by
  have hall : ∀ e ∈ List.range 16, hexValue (hexDigit e) = e := by decide
  exact hall n (List.mem_range.mpr h)

/-- Read one character back; the closing quote is none. -/
def unescapeChar : List Char → Option (Char × List Char)
  | [] => none
  | '"' :: _ => none
  | '\\' :: '"' :: rest => some ('"', rest)
  | '\\' :: '\\' :: rest => some ('\\', rest)
  | '\\' :: 'b' :: rest => some ('\x08', rest)
  | '\\' :: 't' :: rest => some ('\t', rest)
  | '\\' :: 'n' :: rest => some ('\n', rest)
  | '\\' :: 'f' :: rest => some ('\x0C', rest)
  | '\\' :: 'r' :: rest => some ('\r', rest)
  | '\\' :: 'u' :: '0' :: '0' :: hi :: lo :: rest =>
    some (Char.ofNat (hexValue hi * 16 + hexValue lo), rest)
  | '\\' :: _ => none
  | c :: rest => some (c, rest)

theorem unescapeChar_escapeChar (c : Char) (rest : List Char) :
    unescapeChar (escapeChar c ++ rest) = some (c, rest) := by
  unfold escapeChar
  split
  · next h =>
    rw [h]
    rfl
  split
  · next h =>
    rw [h]
    rfl
  split
  · next h =>
    have hc : c = '\x08' := Char.toNat_inj.mp h
    rw [hc]
    rfl
  split
  · next h =>
    have hc : c = '\t' := Char.toNat_inj.mp h
    rw [hc]
    rfl
  split
  · next h =>
    have hc : c = '\n' := Char.toNat_inj.mp h
    rw [hc]
    rfl
  split
  · next h =>
    have hc : c = '\x0C' := Char.toNat_inj.mp h
    rw [hc]
    rfl
  split
  · next h =>
    have hc : c = '\r' := Char.toNat_inj.mp h
    rw [hc]
    rfl
  split
  · next h =>
    have hcode : hexValue (hexDigit (c.toNat / 16)) * 16 + hexValue (hexDigit (c.toNat % 16))
        = c.toNat := by
      rw [hexValue_hexDigit (by omega), hexValue_hexDigit (by omega)]
      omega
    show some (Char.ofNat (_ + _), rest) = _
    rw [hcode, Char.ofNat_toNat]
  · next hquote hslash _ _ _ _ _ _ =>
    rw [List.singleton_append]
    unfold unescapeChar
    split
    all_goals simp_all

theorem escapeChar_prefixFree : PrefixFree escapeChar :=
  .of_decode unescapeChar unescapeChar_escapeChar

theorem utf8EncodeChar_prefixFree : PrefixFree String.utf8EncodeChar := by
  refine .of_decode (fun bytes => (bytes.toByteArray.utf8DecodeChar? 0).map fun c =>
    (c, bytes.drop c.utf8Size)) fun c r => ?_
  rw [List.toByteArray_append, ByteArray.utf8DecodeChar?_utf8EncodeChar_append, Option.map_some,
    ← String.length_utf8EncodeChar, List.drop_left]

/-- The bytes of one character within the quotes. -/
def escapedBytes (c : Char) : List UInt8 := (escapeChar c).flatMap String.utf8EncodeChar

theorem encodeString_eq (s : String) :
    encodeString s = 0x22 :: (s.toList.flatMap escapedBytes ++ [0x22]) := by
  rw [encodeString, Store.utf8_ofList, List.cons_append, List.flatMap_cons, List.flatMap_append,
    List.flatMap_assoc]
  rfl

/-- No character starts like the closing quote. -/
theorem escapedBytes_ne_quote (c : Char) (r s : List UInt8) : escapedBytes c ++ r ≠ 0x22 :: s := by
  intro h
  have hquote : (escapeChar c).flatMap String.utf8EncodeChar ++ r
      = ['"'].flatMap String.utf8EncodeChar ++ s := h
  have hread := unescapeChar_escapeChar c []
  rw [List.append_nil] at hread
  rcases utf8EncodeChar_prefixFree.prefix_or hquote with ⟨t, ht, -⟩ | ⟨t, ht, -⟩
  · cases hc : escapeChar c with
    | nil =>
      rw [hc] at hread
      cases hread
    | cons x xs =>
      rw [hc] at ht hread
      obtain ⟨rfl, -⟩ := List.cons.inj ht
      cases hread
  · rw [ht] at hread
    cases hread

/-- **A quoted string can be told from what follows.** -/
theorem encodeString_prefixFree : PrefixFree encodeString := by
  intro a b r s h
  rw [encodeString_eq, encodeString_eq, List.cons_append, List.cons_append, List.append_assoc,
    List.append_assoc] at h
  obtain ⟨hchars, hrs⟩ := (escapeChar_prefixFree.comp utf8EncodeChar_prefixFree).sequence
    escapedBytes_ne_quote (List.cons.inj h).2
  exact ⟨String.toList_inj.mp hchars, hrs⟩

/-! ## Numbers -/

/-- What `serde_json::Number` holds: negative integers in `NegInt` only, and finite floats. -/
def Number.Valid : Number → Prop
  | .posInt _ => True
  | .negInt n => n < 0
  | .float bits => bits.toNat / 2 ^ 52 % 2 ^ 11 ≠ 2047

/-- The bytes of `0123456789+-.eE`. -/
def numberLetters : List UInt8 :=
  [0x30, 0x31, 0x32, 0x33, 0x34, 0x35, 0x36, 0x37, 0x38, 0x39, 0x2B, 0x2D, 0x2E, 0x65, 0x45]

/-- Numbers are printed as tokens of their own, a different one for each number. -/
structure NumberTokens (formatF64 : UInt64 → String) : Prop where
  nonempty : ∀ n : Number, n.Valid → n.render formatF64 ≠ ""
  letters : ∀ n : Number, n.Valid → ∀ b ∈ utf8 (n.render formatF64), b ∈ numberLetters
  injective : ∀ m n : Number, m.Valid → n.Valid →
    m.render formatF64 = n.render formatF64 → m = n

theorem decimal_inj {i j : Int} (h : Store.decimal i = Store.decimal j) : i = j := by
  have hdigits : ∀ {m n}, Nat.toDigits 10 m = Nat.toDigits 10 n → m = n := by
    intro m n h
    have := Store.parseDigits_toDigits m
    rw [h, Store.parseDigits_toDigits] at this
    exact (Option.some.inj this).symm
  have hsign : ∀ {m} {l}, Nat.toDigits 10 m ≠ '-' :: l := by
    intro m l h
    have : ('-').isDigit = true := Store.isDigit_toDigits (n := m) '-' (by rw [h]; simp)
    cases this
  cases i with
  | ofNat m =>
    cases j with
    | ofNat n => rw [hdigits h]
    | negSucc n => exact absurd h hsign
  | negSucc m =>
    cases j with
    | ofNat n => exact absurd h.symm hsign
    | negSucc n =>
      have := hdigits (List.cons.inj h).2
      rw [Nat.succ.inj this]

/-- The integer that a number is. -/
def Number.toInt? : Number → Option Int
  | .posInt n => some n
  | .negInt n => some n
  | .float _ => none

theorem Number.render_of_toInt (h : n.toInt? = some i) (formatF64 : UInt64 → String) :
    n.render formatF64 = String.ofList (Store.decimal i) := by
  cases n with
  | posInt m | negInt m =>
    rw [← Option.some.inj h]
    exact Store.toString_eq_decimal m
  | float bits => cases h

theorem Number.eq_of_toInt {m n : Number} (hm : ∀ a, m = .negInt a → a < 0)
    (hn : ∀ a, n = .negInt a → a < 0) (hi : m.toInt? = some i) (hj : n.toInt? = some i) :
    m = n := by
  cases m with
  | posInt a =>
    have ha : (a : Int) = i := Option.some.inj hi
    cases n with
    | posInt b =>
      have hb : (b : Int) = i := Option.some.inj hj
      rw [show a = b by omega]
    | negInt b =>
      have hb : b = i := Option.some.inj hj
      have hneg : b < 0 := hn b rfl
      omega
    | float y => cases hj
  | negInt a =>
    have ha : a = i := Option.some.inj hi
    have hneg : a < 0 := hm a rfl
    cases n with
    | posInt b =>
      have hb : (b : Int) = i := Option.some.inj hj
      omega
    | negInt b => rw [ha, ← Option.some.inj hj]
    | float y => cases hj
  | float x => cases hi

theorem Number.Valid.negInt (h : n.Valid) : ∀ a, n = .negInt a → a < 0 := by
  rintro a rfl
  exact h

theorem Number.int_or_float (n : Number) : (∃ i, n.toInt? = some i) ∨ ∃ bits, n = .float bits := by
  cases n with
  | posInt m => exact .inl ⟨_, rfl⟩
  | negInt m => exact .inl ⟨_, rfl⟩
  | float bits => exact .inr ⟨bits, rfl⟩

theorem decimal_letter {c : Char} (h : c ∈ Store.decimal i) :
    UInt8.ofNat c.toNat ∈ numberLetters := by
  rcases Store.mem_decimal h with rfl | hdigit
  · decide
  · obtain ⟨hlo, hhi⟩ := Store.toNat_of_isDigit hdigit
    have hall : ∀ n ∈ List.range' 48 10, UInt8.ofNat n ∈ numberLetters := by decide +kernel
    exact hall _ (List.mem_range'_1.mpr ⟨hlo, by omega⟩)

theorem Number.render_int_ne (hi : n.toInt? = some i) (formatF64 : UInt64 → String) :
    n.render formatF64 ≠ "" := by
  rw [Number.render_of_toInt hi]
  intro hempty
  have := congrArg String.toList hempty
  rw [String.toList_ofList] at this
  cases i with
  | ofNat m => exact absurd this Nat.toDigits_ne_nil
  | negSucc m => cases this

theorem Number.render_int_letters (hi : n.toInt? = some i) (formatF64 : UInt64 → String) :
    ∀ b ∈ utf8 (n.render formatF64), b ∈ numberLetters := by
  rw [Number.render_of_toInt hi, Store.utf8_ofList_ascii]
  · intro b hb
    obtain ⟨c, hc, rfl⟩ := List.mem_map.mp hb
    exact decimal_letter hc
  · intro c hc
    have := Store.toNat_of_mem_decimal hc
    omega

/-- A text with a character that integers do not have is no integer's. -/
theorem Number.render_int_ne_float (hi : n.toInt? = some i) (formatF64 : UInt64 → String)
    {text : String} (hfloat : ∃ c ∈ text.toList, c ≠ '-' ∧ c.isDigit = false) :
    n.render formatF64 ≠ text := by
  rintro rfl
  obtain ⟨c, hc, hminus, hdigit⟩ := hfloat
  rw [Number.render_of_toInt hi, String.toList_ofList] at hc
  rcases Store.mem_decimal hc with he | he
  · exact hminus he
  · rw [he] at hdigit
    cases hdigit

/-- Two printers that print two numbers alike: a float shows a character that integers do not
have, so it is a matter of the floats. -/
theorem Number.render_inj {m n : Number} (hm : ∀ a, m = .negInt a → a < 0)
    (hn : ∀ a, n = .negInt a → a < 0)
    (hf : ∀ bits, m = .float bits → ∃ c ∈ (f bits).toList, c ≠ '-' ∧ c.isDigit = false)
    (hg : ∀ bits, n = .float bits → ∃ c ∈ (g bits).toList, c ≠ '-' ∧ c.isDigit = false)
    (hinj : ∀ x y, m = .float x → n = .float y → f x = g y → x = y) (h : m.render f = n.render g) :
    m = n := by
  rcases m.int_or_float with ⟨i, hi⟩ | ⟨x, rfl⟩
  · rcases n.int_or_float with ⟨j, hj⟩ | ⟨y, rfl⟩
    · rw [Number.render_of_toInt hi, Number.render_of_toInt hj] at h
      have := decimal_inj (String.ofList_inj.mp h)
      exact Number.eq_of_toInt hm hn hi (this ▸ hj)
    · exact absurd h (Number.render_int_ne_float hi f (hg y rfl))
  · rcases n.int_or_float with ⟨j, hj⟩ | ⟨y, rfl⟩
    · exact absurd h.symm (Number.render_int_ne_float hj g (hf x rfl))
    · rw [hinj x y rfl rfl h]

/-- Integers are tokens of their own; a float has to show a letter that integers do not have. -/
theorem numberTokens_of_floats {formatF64 : UInt64 → String}
    (hletters : ∀ bits, (Number.float bits).Valid → ∀ b ∈ utf8 (formatF64 bits), b ∈ numberLetters)
    (hfloat : ∀ bits, (Number.float bits).Valid →
      ∃ c ∈ (formatF64 bits).toList, c = '.' ∨ c = 'e')
    (hinj : ∀ x y, (Number.float x).Valid → (Number.float y).Valid →
      formatF64 x = formatF64 y → x = y) : NumberTokens formatF64 := by
  have hmark : ∀ bits, (Number.float bits).Valid →
      ∃ c ∈ (formatF64 bits).toList, c ≠ '-' ∧ c.isDigit = false := by
    intro bits hbits
    obtain ⟨c, hc, rfl | rfl⟩ := hfloat bits hbits
    · exact ⟨_, hc, by decide⟩
    · exact ⟨_, hc, by decide⟩
  refine ⟨fun n hn => ?_, fun n hn => ?_, fun m n hm hn h => ?_⟩
  · rcases n.int_or_float with ⟨i, hi⟩ | ⟨bits, rfl⟩
    · exact Number.render_int_ne hi formatF64
    · intro hempty
      obtain ⟨c, hc, -⟩ := hfloat bits hn
      rw [show formatF64 bits = "" from hempty] at hc
      cases hc
  · rcases n.int_or_float with ⟨i, hi⟩ | ⟨bits, rfl⟩
    · exact Number.render_int_letters hi formatF64
    · exact hletters bits hn
  · exact Number.render_inj hm.negInt hn.negInt (fun bits he => hmark bits (he ▸ hm))
      (fun bits he => hmark bits (he ▸ hn)) (fun x y hx hy => hinj x y (hx ▸ hm) (hy ▸ hn)) h

/-! ## What a JSON value is -/

/-- A JSON value without the order in which the entries of its objects are held. -/
inductive Meaning where
  | null
  | bool (b : Bool)
  | number (n : Number)
  | string (s : String)
  | array (items : List Meaning)
  | object (entries : String → Option Meaning)

namespace Value

mutual

def meaning : Value → Meaning
  | .null => .null
  | .bool b => .bool b
  | .number n => .number n
  | .string s => .string s
  | .array items => .array (meaningItems items)
  | .object entries => .object (meaningEntries entries)

def meaningItems : List Value → List Meaning
  | [] => []
  | v :: rest => meaning v :: meaningItems rest

/-- The value of a key. -/
def meaningEntries : List (String × Value) → String → Option Meaning
  | [], _ => none
  | (key, v) :: rest, k => if key = k then some (meaning v) else meaningEntries rest k

end

mutual

/-- Every number has a property, and the keys of an object are different. -/
def Holds (P : Number → Prop) : Value → Prop
  | .number n => P n
  | .array items => HoldsItems P items
  | .object entries => (entries.map Prod.fst).Nodup ∧ HoldsEntries P entries
  | _ => True

def HoldsItems (P : Number → Prop) : List Value → Prop
  | [] => True
  | v :: rest => Holds P v ∧ HoldsItems P rest

def HoldsEntries (P : Number → Prop) : List (String × Value) → Prop
  | [] => True
  | (_, v) :: rest => Holds P v ∧ HoldsEntries P rest

end

theorem holdsItems_iff : HoldsItems P items ↔ ∀ v ∈ items, v.Holds P := by
  induction items with
  | nil => simp [HoldsItems]
  | cons v rest ih => rw [HoldsItems, ih, List.forall_mem_cons]

theorem holdsEntries_iff : HoldsEntries P entries ↔ ∀ e ∈ entries, e.2.Holds P := by
  induction entries with
  | nil => simp [HoldsEntries]
  | cons e rest ih =>
    obtain ⟨key, v⟩ := e
    rw [HoldsEntries, ih, List.forall_mem_cons]

/-- What `serde_json` values are: numbers are valid, and the keys of an object are different. -/
def WellFormed (v : Value) : Prop := v.Holds Number.Valid

theorem meaningItems_eq (items : List Value) : meaningItems items = items.map meaning := by
  induction items with
  | nil => rfl
  | cons v rest ih => rw [meaningItems, ih, List.map_cons]

/-! ## Objects -/

/-- The entries in the order of their keys. -/
def sortEntries (entries : List (String × Value)) : List (String × Value) :=
  entries.insertionSort fun a b => a.1 ≤ b.1

theorem sortEntries_perm (entries : List (String × Value)) :
    (sortEntries entries).Perm entries := List.perm_insertionSort _ _

theorem mem_sortEntries {e : String × Value} :
    e ∈ sortEntries entries ↔ e ∈ entries := (sortEntries_perm entries).mem_iff

theorem nodup_sortEntries (h : (entries.map Prod.fst).Nodup) :
    ((sortEntries entries).map Prod.fst).Nodup :=
  ((sortEntries_perm entries).map Prod.fst).nodup_iff.mpr h

theorem pairwise_sortEntries (entries : List (String × Value)) :
    ((sortEntries entries).map Prod.fst).Pairwise (· ≤ ·) := by
  have : Std.Total fun a b : String × Value => a.1 ≤ b.1 := ⟨fun a b => le_total a.1 b.1⟩
  have : IsTrans (String × Value) fun a b => a.1 ≤ b.1 := ⟨fun _ _ _ => le_trans⟩
  exact List.pairwise_map.mpr (List.pairwise_insertionSort _ entries)

theorem meaningEntries_isSome {key : String} :
    (meaningEntries entries key).isSome ↔ key ∈ entries.map Prod.fst := by
  induction entries with
  | nil => simp [meaningEntries]
  | cons e rest ih =>
    obtain ⟨k, v⟩ := e
    rw [meaningEntries, List.map_cons, List.mem_cons]
    by_cases hk : k = key
    · simp [hk]
    · rw [if_neg hk, ih]
      simp [Ne.symm hk]

/-- With different keys, the value of a key is the one it is held with. -/
theorem meaningEntries_of_mem (hnodup : (entries.map Prod.fst).Nodup) {key : String} {v : Value}
    (h : (key, v) ∈ entries) : meaningEntries entries key = some v.meaning := by
  induction entries with
  | nil => cases h
  | cons e rest ih =>
    obtain ⟨k, w⟩ := e
    rw [List.map_cons, List.nodup_cons] at hnodup
    rw [meaningEntries]
    rcases List.mem_cons.mp h with he | hrest
    · obtain ⟨rfl, rfl⟩ := Prod.mk.inj he
      rw [if_pos rfl]
    · have hne : k ≠ key := fun hk => hnodup.1 (List.mem_map.mpr ⟨_, hrest, hk.symm⟩)
      rw [if_neg hne, ih hnodup.2 hrest]

/-- The order of the entries does not matter. -/
theorem meaningEntries_perm (h : entries.Perm entries') (hnodup : (entries.map Prod.fst).Nodup) :
    meaningEntries entries = meaningEntries entries' := by
  have hnodup' := (h.map Prod.fst).nodup_iff.mp hnodup
  funext key
  by_cases hkey : key ∈ entries.map Prod.fst
  · obtain ⟨⟨k, v⟩, hmem, rfl⟩ := List.mem_map.mp hkey
    rw [meaningEntries_of_mem hnodup hmem, meaningEntries_of_mem hnodup' (h.mem_iff.mp hmem)]
  · have hnone : ∀ l : List (String × Value), key ∉ l.map Prod.fst → meaningEntries l key = none :=
      fun l hl => Option.not_isSome_iff_eq_none.mp fun h => hl (meaningEntries_isSome.mp h)
    rw [hnone entries hkey, hnone entries' fun h' => hkey ((h.map Prod.fst).mem_iff.mpr h')]

/-- The same key with the same value. -/
def SameEntry (e e' : String × Value) : Prop := e.1 = e'.1 ∧ e.2.meaning = e'.2.meaning

theorem meaningEntries_of_forall₂ (h : List.Forall₂ SameEntry entries entries') :
    meaningEntries entries = meaningEntries entries' := by
  induction h with
  | nil => rfl
  | @cons e e' _ _ he _ ih =>
    obtain ⟨k, v⟩ := e
    obtain ⟨k', v'⟩ := e'
    obtain ⟨rfl, hv⟩ : k = k' ∧ v.meaning = v'.meaning := he
    funext key
    rw [meaningEntries, meaningEntries, hv, ih]

/-- Entries with the same keys in the same order, if each key has the same value. -/
theorem forall₂_of_meaningEntries (hkeys : entries.map Prod.fst = entries'.map Prod.fst)
    (hnodup : (entries.map Prod.fst).Nodup)
    (h : ∀ key ∈ entries.map Prod.fst, meaningEntries entries key = meaningEntries entries' key) :
    List.Forall₂ SameEntry entries entries' := by
  have hnodup' := hkeys ▸ hnodup
  have hlen : entries.length = entries'.length := by
    simpa using congrArg List.length hkeys
  refine List.forall₂_iff_get.mpr ⟨hlen, fun i hi hi' => ?_⟩
  have hkey : (entries.get ⟨i, hi⟩).1 = (entries'.get ⟨i, hi'⟩).1 := by
    have := congrArg (fun l => l[i]?) hkeys
    simpa [hi, hi'] using this
  refine ⟨hkey, ?_⟩
  have hv := h _ (List.mem_map_of_mem (entries.get_mem ⟨i, hi⟩))
  rw [meaningEntries_of_mem hnodup (entries.get_mem ⟨i, hi⟩), hkey,
    meaningEntries_of_mem hnodup' (entries'.get_mem ⟨i, hi'⟩)] at hv
  exact Option.some.inj hv

/-- **Objects are the same map if and only if, sorted by key, they have the same entries.** -/
theorem meaningEntries_eq_iff (hnodup : (entries.map Prod.fst).Nodup)
    (hnodup' : (entries'.map Prod.fst).Nodup) :
    meaningEntries entries = meaningEntries entries' ↔
      List.Forall₂ SameEntry (sortEntries entries) (sortEntries entries') := by
  have hsort := meaningEntries_perm (sortEntries_perm entries) (nodup_sortEntries hnodup)
  have hsort' := meaningEntries_perm (sortEntries_perm entries') (nodup_sortEntries hnodup')
  constructor
  · intro h
    have hperm : ((sortEntries entries).map Prod.fst).Perm
        ((sortEntries entries').map Prod.fst) := by
      refine (List.perm_ext_iff_of_nodup (nodup_sortEntries hnodup)
        (nodup_sortEntries hnodup')).mpr fun key => ?_
      rw [← meaningEntries_isSome, ← meaningEntries_isSome, hsort, hsort', h]
    have hkeys := hperm.eq_of_pairwise (fun _ _ _ _ => le_antisymm) (pairwise_sortEntries entries)
      (pairwise_sortEntries entries')
    refine forall₂_of_meaningEntries hkeys (nodup_sortEntries hnodup) fun key _ => ?_
    rw [hsort, hsort', h]
  · intro h
    rw [← hsort, ← hsort', meaningEntries_of_forall₂ h]

end Value

/-! ## The bytes of arrays and objects -/

variable {formatF64 : UInt64 → String}

theorem canonicalItems_eq (items : List Value) :
    canonicalItems formatF64 items = items.map (canonicalJson formatF64) := by
  induction items with
  | nil => rfl
  | cons v rest ih => rw [canonicalItems, ih, List.map_cons]

theorem canonicalEntries_eq (entries : List (String × Value)) :
    canonicalEntries formatF64 entries
      = entries.map fun e => (e.1, canonicalJson formatF64 e.2) := by
  induction entries with
  | nil => rfl
  | cons e rest ih =>
    obtain ⟨key, v⟩ := e
    rw [canonicalEntries, ih, List.map_cons]

/-- A key and its value. -/
def entryBytes (formatF64 : UInt64 → String) (e : String × Value) : List UInt8 :=
  encodeString e.1 ++ 0x3A :: canonicalJson formatF64 e.2

theorem canonicalJson_array (items : List Value) :
    canonicalJson formatF64 (.array items)
      = 0x5B :: (commaSeparated (items.map (canonicalJson formatF64)) ++ [0x5D]) := by
  rw [canonicalJson, canonicalItems_eq]
  rfl

theorem canonicalJson_object (entries : List (String × Value)) :
    canonicalJson formatF64 (.object entries)
      = 0x7B :: (commaSeparated ((Value.sortEntries entries).map (entryBytes formatF64))
        ++ [0x7D]) := by
  have hsort : (entries.map fun e => (e.1, canonicalJson formatF64 e.2)).insertionSort
      (fun a b => a.1 ≤ b.1)
      = (Value.sortEntries entries).map fun e => (e.1, canonicalJson formatF64 e.2) := by
    refine (List.map_insertionSort (fun a b => a.1 ≤ b.1) (fun a b => a.1 ≤ b.1)
      (fun e : String × Value => (e.1, canonicalJson formatF64 e.2)) entries ?_).symm
    exact fun _ _ _ _ => Iff.rfl
  rw [canonicalJson, renderObject, canonicalEntries_eq, hsort, List.map_map]
  rfl

/-- The entries of an object may be held in any order. -/
theorem canonicalJson_perm (hp : entries.Perm entries') (hnodup : (entries.map Prod.fst).Nodup) :
    canonicalJson formatF64 (.object entries) = canonicalJson formatF64 (.object entries') := by
  have hsort : Value.sortEntries entries = Value.sortEntries entries' := by
    refine List.Perm.eq_of_pairwise ?_ (List.pairwise_map.mp (Value.pairwise_sortEntries _))
      (List.pairwise_map.mp (Value.pairwise_sortEntries _)) ?_
    · intro e e' he he' hle hle'
      rw [Value.mem_sortEntries] at he he'
      exact List.inj_on_of_nodup_map hnodup he (hp.mem_iff.mpr he') (le_antisymm hle hle')
    · exact (Value.sortEntries_perm _).trans (hp.trans (Value.sortEntries_perm _).symm)
  rw [canonicalJson_object, canonicalJson_object, hsort]

theorem commaSeparated_cons (x : List UInt8) (xs : List (List UInt8)) :
    commaSeparated (x :: xs) = x ++ xs.flatMap (0x2C :: ·) := by
  induction xs generalizing x with
  | nil => exact (List.append_nil x).symm
  | cons y xs ih =>
    show x ++ 0x2C :: commaSeparated (y :: xs) = _
    rw [ih, List.flatMap_cons, List.cons_append]

/-- Items between commas, up to the closing bracket. -/
theorem forall₂_of_commaSeparated {α : Type} {w w' : α → List UInt8} {E : α → α → Prop}
    {stop : UInt8} (hne : 0x2C ≠ stop) {xs ys : List α} {r s : List UInt8}
    (hstop : ∀ x ∈ xs, ∀ r s, w x ++ r ≠ stop :: s)
    (hstop' : ∀ y ∈ ys, ∀ r s, w' y ++ r ≠ stop :: s)
    (h : ∀ x ∈ xs, ∀ y ∈ ys, ∀ r s, (r.head? = some 0x2C ∨ r.head? = some stop) →
      (s.head? = some 0x2C ∨ s.head? = some stop) → w x ++ r = w' y ++ s → E x y ∧ r = s)
    (heq : commaSeparated (xs.map w) ++ stop :: r = commaSeparated (ys.map w') ++ stop :: s) :
    List.Forall₂ E xs ys ∧ r = s := by
  have hsep : ∀ (v : α → List UInt8) z zs t,
      commaSeparated ((z :: zs).map v) ++ t
        = v z ++ (zs.flatMap (fun z => 0x2C :: v z) ++ t) := by
    intro v z zs t
    rw [List.map_cons, commaSeparated_cons, List.flatMap_map, List.append_assoc]
  cases xs with
  | nil =>
    cases ys with
    | nil => exact ⟨.nil, (List.cons.inj heq).2⟩
    | cons y ys =>
      rw [hsep] at heq
      exact absurd heq.symm (hstop' y List.mem_cons_self _ _)
  | cons x xs =>
    rw [hsep] at heq
    cases ys with
    | nil => exact absurd heq (hstop x List.mem_cons_self _ _)
    | cons y ys =>
      rw [hsep] at heq
      refine forall₂_of_separated hne h ?_
      rw [List.flatMap_cons, List.flatMap_cons, List.append_assoc, List.append_assoc,
        List.cons_append, List.cons_append, heq]

/-! ## Equal bytes, equal values -/

/-- What can be told from the first byte. -/
inductive Kind where
  | null | bool | number | string | array | object
  deriving DecidableEq

def Value.kind : Value → Kind
  | .null => .null
  | .bool _ => .bool
  | .number _ => .number
  | .string _ => .string
  | .array _ => .array
  | .object _ => .object

def kindOf (b : UInt8) : Kind :=
  if b = 0x6E then .null
  else if b = 0x74 ∨ b = 0x66 then .bool
  else if b = 0x22 then .string
  else if b = 0x5B then .array
  else if b = 0x7B then .object
  else .number

/-- What can follow a value. -/
def IsDelimiter (b : UInt8) : Prop := b = 0x2C ∨ b = 0x5D ∨ b = 0x7D

/-- A number's text starts as no other value does, and ends where a delimiter is. -/
def IsToken (bytes : List UInt8) : Prop :=
  (∃ b rest, bytes = b :: rest ∧ kindOf b = .number) ∧ ∀ b ∈ bytes, ¬ IsDelimiter b

/-- Two ways to print numbers of two kinds: as tokens, and no text stands for two numbers. -/
structure Tokens (f g : UInt64 → String) (P Q : Number → Prop) : Prop where
  left : ∀ n, P n → IsToken (utf8 (n.render f))
  right : ∀ n, Q n → IsToken (utf8 (n.render g))
  injective : ∀ m n, P m → Q n → m.render f = n.render g → m = n

theorem number_of_letter {b : UInt8} (h : b ∈ numberLetters) :
    kindOf b = .number ∧ ¬ IsDelimiter b := by
  have hall : ∀ b ∈ numberLetters, kindOf b = .number ∧ ¬ (b = 0x2C ∨ b = 0x5D ∨ b = 0x7D) := by
    decide +kernel
  exact hall b h

theorem isToken_of_letters {text : String} (hne : text ≠ "")
    (h : ∀ b ∈ utf8 text, b ∈ numberLetters) : IsToken (utf8 text) := by
  refine ⟨?_, fun b hb => (number_of_letter (h b hb)).2⟩
  cases hbytes : utf8 text with
  | nil =>
    have hread := Store.fromUtf8_utf8 text
    rw [hbytes] at hread
    exact absurd (Option.some.inj hread).symm hne
  | cons b rest =>
    exact ⟨b, rest, rfl, (number_of_letter (h b (by rw [hbytes]; exact List.mem_cons_self))).1⟩

theorem NumberTokens.tokens (hf : NumberTokens formatF64) :
    Tokens formatF64 formatF64 Number.Valid Number.Valid where
  left n hn := isToken_of_letters (hf.nonempty n hn) (hf.letters n hn)
  right n hn := isToken_of_letters (hf.nonempty n hn) (hf.letters n hn)
  injective := hf.injective

/-- The same for two printers: integers are printed alike, so it is a matter of the floats. -/
theorem tokens_of_floats {f g : UInt64 → String} {P Q : Number → Prop}
    (hP : ∀ a, P (.negInt a) → a < 0) (hQ : ∀ a, Q (.negInt a) → a < 0)
    (hf : ∀ bits, P (.float bits) →
      IsToken (utf8 (f bits)) ∧ ∃ c ∈ (f bits).toList, c ≠ '-' ∧ c.isDigit = false)
    (hg : ∀ bits, Q (.float bits) →
      IsToken (utf8 (g bits)) ∧ ∃ c ∈ (g bits).toList, c ≠ '-' ∧ c.isDigit = false)
    (hinj : ∀ x y, P (.float x) → Q (.float y) → f x = g y → x = y) : Tokens f g P Q := by
  refine ⟨fun n hn => ?_, fun n hn => ?_, fun m n hm hn h => ?_⟩
  · rcases n.int_or_float with ⟨i, hi⟩ | ⟨bits, rfl⟩
    · exact isToken_of_letters (Number.render_int_ne hi f) (Number.render_int_letters hi f)
    · exact (hf bits hn).1
  · rcases n.int_or_float with ⟨i, hi⟩ | ⟨bits, rfl⟩
    · exact isToken_of_letters (Number.render_int_ne hi g) (Number.render_int_letters hi g)
    · exact (hg bits hn).1
  · exact Number.render_inj (fun a he => hP a (he ▸ hm)) (fun a he => hQ a (he ▸ hn))
      (fun bits he => (hf bits (he ▸ hm)).2) (fun bits he => (hg bits (he ▸ hn)).2)
      (fun x y hx hy => hinj x y (hx ▸ hm) (hy ▸ hn)) h

/-- The first byte of a value. -/
theorem exists_first (hf : ∀ n, P n → IsToken (utf8 (n.render f))) {v : Value} (hv : v.Holds P) :
    ∃ b rest, canonicalJson f v = b :: rest ∧ kindOf b = v.kind ∧ b ≠ 0x5D := by
  cases v with
  | null => exact ⟨0x6E, _, rfl, by decide, by decide⟩
  | bool x =>
    cases x with
    | true => exact ⟨0x74, _, rfl, by decide, by decide⟩
    | false => exact ⟨0x66, _, rfl, by decide, by decide⟩
  | number n =>
    obtain ⟨⟨b, rest, hbytes, hkind⟩, hdelim⟩ := hf n hv
    refine ⟨b, rest, by rw [canonicalJson, hbytes], hkind, fun hb => ?_⟩
    exact hdelim b (by rw [hbytes]; exact List.mem_cons_self) (.inr (.inl hb))
  | string s => exact ⟨0x22, _, by rw [canonicalJson, encodeString_eq], rfl, by decide⟩
  | array items => exact ⟨0x5B, _, canonicalJson_array items, rfl, by decide⟩
  | object entries => exact ⟨0x7B, _, canonicalJson_object entries, rfl, by decide⟩

/-- No value starts like the closing bracket. -/
theorem ne_bracket (hf : ∀ n, P n → IsToken (utf8 (n.render f))) {v : Value} (hv : v.Holds P)
    (r s : List UInt8) : canonicalJson f v ++ r ≠ 0x5D :: s := by
  obtain ⟨x, xs, hx, -, hne⟩ := exists_first hf hv
  rw [hx, List.cons_append]
  exact fun he => hne (List.cons.inj he).1

/-- Nothing, or what can follow a value. -/
def Delimited (r : List UInt8) : Prop := ∀ b ∈ r.head?, IsDelimiter b

theorem delimited_of_head {r : List UInt8} {stop : UInt8} (hstop : stop = 0x5D ∨ stop = 0x7D)
    (h : r.head? = some 0x2C ∨ r.head? = some stop) : Delimited r := by
  intro b hb
  rcases h with h | h
  · rw [h] at hb
    exact .inl (Option.some.inj hb).symm
  · rw [h] at hb
    exact .inr (Option.some.inj hb ▸ hstop)

section

variable {f g : UInt64 → String} {P Q : Number → Prop}

/-- Whatever value starts the same text is the same one, and ends at the same place. -/
def ToldApart (f g : UInt64 → String) (P Q : Number → Prop) (a : Value) : Prop :=
  ∀ b r s, a.Holds P → b.Holds Q → Delimited r → Delimited s →
    canonicalJson f a ++ r = canonicalJson g b ++ s → a.meaning = b.meaning ∧ r = s

theorem kind_eq (hf : Tokens f g P Q) {a b : Value} {r s : List UInt8} (ha : a.Holds P)
    (hb : b.Holds Q) (h : canonicalJson f a ++ r = canonicalJson g b ++ s) :
    a.kind = b.kind := by
  obtain ⟨x, xs, hx, hkx, -⟩ := exists_first hf.left ha
  obtain ⟨y, ys, hy, hky, -⟩ := exists_first hf.right hb
  rw [hx, hy, List.cons_append, List.cons_append] at h
  rw [← hkx, ← hky, (List.cons.inj h).1]

variable (hf : Tokens f g P Q)
include hf

theorem toldApart_null : ToldApart f g P Q .null := by
  intro b r s ha hb _ _ h
  have hkind := kind_eq hf ha hb h
  cases b with
  | null => exact ⟨rfl, List.append_cancel_left h⟩
  | _ => cases hkind

theorem toldApart_bool (x : Bool) : ToldApart f g P Q (.bool x) := by
  intro b r s ha hb _ _ h
  have hkind := kind_eq hf ha hb h
  cases b with
  | bool y =>
    have hxy : x = y := by
      cases x with
      | true =>
        cases y with
        | true => rfl
        | false => exact absurd (List.cons.inj h).1 (by decide)
      | false =>
        cases y with
        | true => exact absurd (List.cons.inj h).1 (by decide)
        | false => rfl
    subst hxy
    exact ⟨rfl, List.append_cancel_left h⟩
  | _ => cases hkind

theorem toldApart_number (m : Number) : ToldApart f g P Q (.number m) := by
  intro b r s ha hb hr hs h
  have hkind := kind_eq hf ha hb h
  cases b with
  | number n =>
    obtain ⟨hbytes, hrs⟩ := append_inj_of_letters (p := fun b => ¬ IsDelimiter b)
      (hf.left m ha).2 (hf.right n hb).2 (fun b hb hnot => hnot (hr b hb))
      (fun b hb hnot => hnot (hs b hb)) h
    have htext : m.render f = n.render g := by
      have hread := Store.fromUtf8_utf8 (m.render f)
      rw [hbytes, Store.fromUtf8_utf8] at hread
      exact (Option.some.inj hread).symm
    rw [hf.injective m n ha hb htext]
    exact ⟨rfl, hrs⟩
  | _ => cases hkind

theorem toldApart_string (x : String) : ToldApart f g P Q (.string x) := by
  intro b r s ha hb _ _ h
  have hkind := kind_eq hf ha hb h
  cases b with
  | string y =>
    obtain ⟨rfl, hrs⟩ := encodeString_prefixFree x y r s h
    exact ⟨rfl, hrs⟩
  | _ => cases hkind

theorem toldApart_array (hitems : ∀ v ∈ items, ToldApart f g P Q v) :
    ToldApart f g P Q (.array items) := by
  intro b r s ha hb _ _ h
  have hkind := kind_eq hf ha hb h
  cases b with
  | array items' =>
    have hwf := Value.holdsItems_iff.mp ha
    have hwf' := Value.holdsItems_iff.mp hb
    rw [canonicalJson_array, canonicalJson_array, List.cons_append, List.cons_append,
      List.append_assoc, List.append_assoc] at h
    obtain ⟨hall, hrs⟩ := forall₂_of_commaSeparated (E := fun v w => v.meaning = w.meaning)
      (by decide) (fun v hv => ne_bracket hf.left (hwf v hv))
      (fun v hv => ne_bracket hf.right (hwf' v hv))
      (fun v hv w hw r s hr hs => hitems v hv w r s (hwf v hv) (hwf' w hw)
        (delimited_of_head (.inl rfl) hr) (delimited_of_head (.inl rfl) hs))
      (List.cons.inj h).2
    refine ⟨?_, hrs⟩
    rw [Value.meaning, Value.meaning, Value.meaningItems_eq, Value.meaningItems_eq]
    exact congrArg Meaning.array (List.forall₂_eq_eq_eq ▸ List.forall₂_map_left_iff.mpr
      (List.forall₂_map_right_iff.mpr hall))
  | _ => cases hkind

theorem toldApart_object (hentries : ∀ e ∈ entries, ToldApart f g P Q e.2) :
    ToldApart f g P Q (.object entries) := by
  intro b r s ha hb _ _ h
  have hkind := kind_eq hf ha hb h
  cases b with
  | object entries' =>
    obtain ⟨hnodup, hwf⟩ := ha
    obtain ⟨hnodup', hwf'⟩ := hb
    rw [Value.holdsEntries_iff] at hwf hwf'
    rw [canonicalJson_object, canonicalJson_object, List.cons_append, List.cons_append,
      List.append_assoc, List.append_assoc] at h
    have hstop : ∀ (p : UInt64 → String) e r s,
        entryBytes p e ++ r ≠ 0x7D :: s := by
      intro p e r s he
      rw [entryBytes, encodeString_eq, List.cons_append, List.cons_append] at he
      exact absurd (List.cons.inj he).1 (by decide)
    have hentry : ∀ e ∈ Value.sortEntries entries, ∀ e' ∈ Value.sortEntries entries',
        ∀ r s, (r.head? = some 0x2C ∨ r.head? = some 0x7D) →
        (s.head? = some 0x2C ∨ s.head? = some 0x7D) →
        entryBytes f e ++ r = entryBytes g e' ++ s → Value.SameEntry e e' ∧ r = s := by
      intro e he e' he' r s hr hs hee
      rw [Value.mem_sortEntries] at he he'
      rw [entryBytes, entryBytes, List.append_assoc, List.append_assoc] at hee
      obtain ⟨hkey, hvalue⟩ := encodeString_prefixFree _ _ _ _ hee
      obtain ⟨hmeaning, hrs⟩ := hentries e he e'.2 r s (hwf e he) (hwf' e' he')
        (delimited_of_head (.inr rfl) hr) (delimited_of_head (.inr rfl) hs)
        (List.cons.inj hvalue).2
      exact ⟨⟨hkey, hmeaning⟩, hrs⟩
    obtain ⟨hall, hrs⟩ := forall₂_of_commaSeparated (by decide) (fun e _ => hstop f e)
      (fun e _ => hstop g e) hentry (List.cons.inj h).2
    refine ⟨?_, hrs⟩
    exact congrArg Meaning.object ((Value.meaningEntries_eq_iff hnodup hnodup').mpr hall)
  | _ => cases hkind

end

theorem toldApart (hf : Tokens f g P Q) (a : Value) : ToldApart f g P Q a := by
  induction a with
  | null => exact toldApart_null hf
  | bool x => exact toldApart_bool hf x
  | number n => exact toldApart_number hf n
  | string x => exact toldApart_string hf x
  | array items ih => exact toldApart_array hf ih
  | object entries ih => exact toldApart_object hf ih

/-- **Equal bytes, equal values**, also if the two were written with different printers. -/
theorem canonicalJson_inj₂ (hf : Tokens f g P Q) {a b : Value} (ha : a.Holds P) (hb : b.Holds Q)
    (h : canonicalJson f a = canonicalJson g b) : a.meaning = b.meaning := by
  have hend : Delimited [] := fun b hb => by cases hb
  refine (toldApart hf a b [] [] ha hb hend hend ?_).1
  rw [h]

theorem canonicalJson_inj (hf : NumberTokens formatF64) {a b : Value} (ha : a.WellFormed)
    (hb : b.WellFormed) (h : canonicalJson formatF64 a = canonicalJson formatF64 b) :
    a.meaning = b.meaning :=
  canonicalJson_inj₂ hf.tokens ha hb h

/-! ## Equal values, equal bytes -/

/-- The bytes depend on the meaning only. -/
def Determined (formatF64 : UInt64 → String) (a : Value) : Prop :=
  ∀ b, a.WellFormed → b.WellFormed → a.meaning = b.meaning →
    canonicalJson formatF64 a = canonicalJson formatF64 b

theorem map_eq_map_of_forall₂ {α β : Type} {R : α → α → Prop} {f : α → β} {xs ys : List α}
    (h : List.Forall₂ R xs ys) (hf : ∀ x ∈ xs, ∀ y ∈ ys, R x y → f x = f y) :
    xs.map f = ys.map f := by
  induction h with
  | nil => rfl
  | @cons x y xs ys hxy _ ih =>
    rw [List.map_cons, List.map_cons, hf x List.mem_cons_self y List.mem_cons_self hxy,
      ih fun a ha b hb => hf a (List.mem_cons_of_mem _ ha) b (List.mem_cons_of_mem _ hb)]

theorem determined_array (hitems : ∀ v ∈ items, Determined formatF64 v) :
    Determined formatF64 (.array items) := by
  intro b ha hb h
  cases b with
  | array items' =>
    have hwf := Value.holdsItems_iff.mp ha
    have hwf' := Value.holdsItems_iff.mp hb
    rw [Value.meaning, Value.meaning, Value.meaningItems_eq, Value.meaningItems_eq] at h
    have hall : List.Forall₂ (fun v w => v.meaning = w.meaning) items items' := by
      rw [← List.forall₂_map_right_iff, ← List.forall₂_map_left_iff (f := Value.meaning),
        List.forall₂_eq_eq_eq]
      exact Meaning.array.inj h
    rw [canonicalJson_array, canonicalJson_array, map_eq_map_of_forall₂ hall]
    exact fun v hv w hw hvw => hitems v hv w (hwf v hv) (hwf' w hw) hvw
  | _ => cases h

theorem determined_object (hentries : ∀ e ∈ entries, Determined formatF64 e.2) :
    Determined formatF64 (.object entries) := by
  intro b ha hb h
  cases b with
  | object entries' =>
    obtain ⟨hnodup, hwf⟩ := ha
    obtain ⟨hnodup', hwf'⟩ := hb
    rw [Value.holdsEntries_iff] at hwf hwf'
    have hall := (Value.meaningEntries_eq_iff hnodup hnodup').mp (Meaning.object.inj h)
    rw [canonicalJson_object, canonicalJson_object, map_eq_map_of_forall₂ hall]
    rintro e he e' he' ⟨hkey, hmeaning⟩
    rw [Value.mem_sortEntries] at he he'
    rw [entryBytes, entryBytes, hkey,
      hentries e he e'.2 (hwf e he) (hwf' e' he') hmeaning]
  | _ => cases h

theorem determined (a : Value) : Determined formatF64 a := by
  induction a with
  | array items ih => exact determined_array ih
  | object entries ih => exact determined_object ih
  | null =>
    intro b _ _ h
    cases b with
    | null => rfl
    | _ => cases h
  | bool x =>
    intro b _ _ h
    cases b with
    | bool y => rw [Meaning.bool.inj h]
    | _ => cases h
  | number n =>
    intro b _ _ h
    cases b with
    | number m => rw [Meaning.number.inj h]
    | _ => cases h
  | string x =>
    intro b _ _ h
    cases b with
    | string y => rw [Meaning.string.inj h]
    | _ => cases h

/-- **Equal values, equal bytes.** -/
theorem canonicalJson_congr {a b : Value} (ha : a.WellFormed) (hb : b.WellFormed)
    (h : a.meaning = b.meaning) : canonicalJson formatF64 a = canonicalJson formatF64 b :=
  determined a b ha hb h

end Calod.Serde
