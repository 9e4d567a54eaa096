import Calod.Ledger.Config
import Calod.Serde.Canonical

/-!
# Digests stand for values

A digest is the hex text of a SHA-256 over canonical bytes, and these determine the value. So two
inputs with the same digest are the same input, or two texts on which SHA-256 collides.

* `sha256Digest_inj` — equal texts, equal hashes
* `canonicalJson_faithful` — equal bytes if and only if equal values, and what equal digests mean
-/

namespace Calod.Ledger

open Calod.Serde Lib

theorem hexByte_prefixFree :
    PrefixFree fun b : UInt8 => [hexDigit (b.toNat / 16), hexDigit (b.toNat % 16)] := by
  refine .of_decode (fun text => text.head?.bind fun hi => text.tail.head?.map fun lo =>
    (UInt8.ofNat (hexValue hi * 16 + hexValue lo), text.tail.tail)) fun b r => ?_
  have hb : b.toNat < 256 := b.toNat_lt
  have hcode : hexValue (hexDigit (b.toNat / 16)) * 16 + hexValue (hexDigit (b.toNat % 16))
      = b.toNat := by
    rw [hexValue_hexDigit (by omega), hexValue_hexDigit (by omega)]
    omega
  show some (UInt8.ofNat (_ + _), r) = _
  rw [hcode, UInt8.ofNat_toNat]

theorem hexEncode_inj {a b : List UInt8} (h : hexEncode a = hexEncode b) : a = b :=
  hexByte_prefixFree.flatMap_inj (fun _ h => nomatch h) (String.ofList_inj.mp h)

/-- **Equal digests, equal hashes.** -/
theorem sha256Digest_inj {crates : Crates} {a b : List UInt8}
    (h : sha256Digest crates a = sha256Digest crates b) : crates.sha256 a = crates.sha256 b := by
  refine hexEncode_inj (String.toList_inj.mp ?_)
  have := congrArg String.toList h
  rw [sha256Digest, sha256Digest, String.toList_append, String.toList_append] at this
  exact List.append_cancel_left this

/--
**Canonical JSON is faithful.** The canonical bytes of two JSON values are the same if and only if
the values are: arrays in order, objects as maps from keys. So inputs with the same digest are the
same, or SHA-256 collides on their canonical bytes.
-/
theorem canonicalJson_faithful (crates : Crates) (hf : NumberTokens crates.formatF64) {a b : Value}
    (ha : a.WellFormed) (hb : b.WellFormed) :
    (canonicalJson crates.formatF64 a = canonicalJson crates.formatF64 b ↔
      a.meaning = b.meaning) ∧
    (inputDigest crates a = inputDigest crates b → a.meaning = b.meaning ∨
      canonicalJson crates.formatF64 a ≠ canonicalJson crates.formatF64 b ∧
      crates.sha256 (canonicalJson crates.formatF64 a)
        = crates.sha256 (canonicalJson crates.formatF64 b)) := by
  refine ⟨⟨canonicalJson_inj hf ha hb, canonicalJson_congr ha hb⟩, fun h => ?_⟩
  by_cases heq : canonicalJson crates.formatF64 a = canonicalJson crates.formatF64 b
  · exact .inl (canonicalJson_inj hf ha hb heq)
  · exact .inr ⟨heq, sha256Digest_inj h⟩

namespace Sample

/-- Floats by their bits, as tokens that no integer is. -/
def floats : Crates where
  sha256 := Lib.Sha256.sha256
  formatF64 bits := String.ofList (Store.decimal bits.toNat ++ ['e', '0'])
  parseUuid _ := none

theorem letters_formatF64 (bits : UInt64) :
    ∀ b ∈ utf8 (floats.formatF64 bits), b ∈ numberLetters := by
  intro b hb
  have hchars : ∀ c ∈ Store.decimal bits.toNat ++ ['e', '0'], c.toNat ≤ 127 ∧
      UInt8.ofNat c.toNat ∈ numberLetters := by
    intro c hc
    rcases List.mem_append.mp hc with hc | hc
    · have := Store.toNat_of_mem_decimal hc
      exact ⟨by omega, decimal_letter hc⟩
    · rcases List.mem_cons.mp hc with rfl | hc
      · exact ⟨by decide, by decide⟩
      · rw [List.mem_singleton.mp hc]
        exact ⟨by decide, by decide⟩
  have hbytes : b ∈ utf8 (String.ofList (Store.decimal bits.toNat ++ ['e', '0'])) := hb
  rw [Store.utf8_ofList_ascii fun c hc => (hchars c hc).1] at hbytes
  obtain ⟨c, hc, rfl⟩ := List.mem_map.mp hbytes
  exact (hchars c hc).2

theorem mem_formatF64 (bits : UInt64) : 'e' ∈ (floats.formatF64 bits).toList := by
  simp [floats]

theorem formatF64_inj {x y : UInt64} (h : floats.formatF64 x = floats.formatF64 y) : x = y := by
  have := decimal_inj (List.append_cancel_right (String.ofList_inj.mp h))
  exact UInt64.toNat_inj.mp (by omega)

theorem numberTokens : NumberTokens floats.formatF64 :=
  numberTokens_of_floats (fun bits _ => letters_formatF64 bits)
    (fun bits _ => ⟨'e', mem_formatF64 bits, .inr rfl⟩) fun _ _ _ _ h => formatF64_inj h

/-- An object, and the same one with its entries held in another order. -/
def order : Value := .object [("item", .string "tea"), ("count", .number (.posInt 2))]

def reordered : Value := .object [("count", .number (.posInt 2)), ("item", .string "tea")]

end Sample

theorem canonicalJson_faithful_reordered :
    canonicalJson Sample.floats.formatF64 Sample.order
      = canonicalJson Sample.floats.formatF64 Sample.reordered := by
  refine (canonicalJson_faithful Sample.floats Sample.numberTokens ?_ ?_).1.mpr ?_
  · exact ⟨by decide, trivial, trivial, trivial⟩
  · exact ⟨by decide, trivial, trivial, trivial⟩
  · refine congrArg Meaning.object (Value.meaningEntries_perm (List.Perm.swap _ _ _) (by decide))

end Calod.Ledger
