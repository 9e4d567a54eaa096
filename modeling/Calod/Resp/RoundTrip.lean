import Calod.Lib.Codes
import Calod.Resp.Frames
import Calod.Store.Shard

/-!
# Encoded values are read back

What `encode` writes for the third version of the protocol, the parser reads back: the same value,
with just the bytes of the encoding consumed.

* `findCrlf_eq_none_iff` — the search for the end of a line fails on texts without CRLF only
* `reads_encode` — the value is read back at any depth, whatever follows
* `parseValueStrict_encode` — the round trip
-/

namespace Calod.Resp

open Store Serde

/-! ## Texts of one line -/

theorem findCrlf_eq_none_iff (text : Bytes) : findCrlf text = none ↔ ¬ crlf <:+: text := by
  induction text with
  | nil => simp [findCrlf, crlf]
  | cons a text ih =>
    rw [List.infix_cons_iff, not_or, ← ih]
    cases text with
    | nil => simp [findCrlf, crlf]
    | cons b text =>
      have hprefix : crlf <+: a :: b :: text ↔ a = 0x0D ∧ b = 0x0A := by
        simp only [crlf, List.cons_prefix_cons, List.nil_prefix, and_true]
        exact and_congr eq_comm eq_comm
      rw [findCrlf, hprefix]
      by_cases h : a = 0x0D ∧ b = 0x0A
      · simp [h]
      · simp [h]

/-- The text of a big number has no line end. -/
theorem findCrlf_of_isBigNumber {s : String} (h : isBigNumber s.toList = true) :
    findCrlf (utf8 s) = none := by
  have hchars : ∀ c ∈ s.toList, c = '+' ∨ c = '-' ∨ c.isDigit = true := by
    intro c hc
    generalize s.toList = l at h hc
    unfold isBigNumber at h
    rw [Bool.and_eq_true, List.all_eq_true] at h
    split at h
    · exact (List.mem_cons.mp hc).imp_right fun hc => .inr (h.2 c hc)
    · exact .inr ((List.mem_cons.mp hc).imp_right (h.2 c))
    · exact .inr (.inr (h.2 c hc))
  have hcode : ∀ c ∈ s.toList, 43 ≤ c.toNat ∧ c.toNat ≤ 127 := by
    intro c hc
    rcases hchars c hc with rfl | rfl | hd
    · decide
    · decide
    · have := toNat_of_isDigit hd
      omega
  rw [← String.ofList_toList (s := s), utf8_ofList_ascii fun c hc => (hcode c hc).2]
  refine findCrlf_of_not_mem fun hmem => ?_
  obtain ⟨c, hc, he⟩ := List.mem_map.mp hmem
  obtain ⟨hlo, hhi⟩ := hcode c hc
  have hnat := congrArg UInt8.toNat he
  rw [UInt8.toNat_ofNat', Nat.mod_eq_of_lt (by omega)] at hnat
  change c.toNat = 13 at hnat
  omega

/-! ## What can be sent -/

namespace Value

mutual

/-- How many aggregates there are around the innermost value. -/
def nesting : Value → Nat
  | .array items | .set items | .push items => nestingItems items
  | .map pairs => nestingPairs pairs
  | _ => 0

def nestingItems : List Value → Nat
  | [] => 0
  | v :: rest => max (nesting v + 1) (nestingItems rest)

def nestingPairs : List (Value × Value) → Nat
  | [] => 0
  | (k, v) :: rest => max (max (nesting k + 1) (nesting v + 1)) (nestingPairs rest)

end

mutual

/-- Simple strings and errors are one line, big numbers are numbers, payloads and aggregates are
within the limits, and there is neither a float nor an absent array. The payload of a verbatim
string starts with its format. -/
def Sendable (lim : Limits) : Value → Prop
  | .simpleString s | .error s => ¬ crlf <:+: utf8 s
  | .bulkString b => b.length ≤ lim.bulkLen
  | .verbatimString _ data => 4 + data.length ≤ lim.bulkLen
  | .bigNumber s => isBigNumber s.toList = true
  | .array items | .set items | .push items =>
    items.length ≤ lim.multibulkLen ∧ SendableItems lim items
  | .map pairs => pairs.length ≤ lim.multibulkLen ∧ SendablePairs lim pairs
  | .double _ | .nilArray => False
  | .integer _ | .nil | .boolean _ => True

def SendableItems (lim : Limits) : List Value → Prop
  | [] => True
  | v :: rest => Sendable lim v ∧ SendableItems lim rest

def SendablePairs (lim : Limits) : List (Value × Value) → Prop
  | [] => True
  | (k, v) :: rest => (Sendable lim k ∧ Sendable lim v) ∧ SendablePairs lim rest

end

/-! ## Reading back -/

variable {platform : Platform} {proto : ProtocolVersion}

theorem encodeItems_eq (items : List Value) :
    encodeItems platform proto items = (items.map (encode platform proto)).flatten := by
  induction items with
  | nil => rfl
  | cons v rest ih => rw [encodeItems, ih, List.map_cons, List.flatten_cons]

/-- The bytes of a key and of its value. -/
def encodePair (platform : Platform) (proto : ProtocolVersion) (p : Value × Value) :
    Bytes × Bytes :=
  (encode platform proto p.1, encode platform proto p.2)

theorem encodePairs_eq (pairs : List (Value × Value)) :
    encodePairs platform proto pairs
      = (pairs.map (encodePair platform proto)).flatMap fun b => b.1 ++ b.2 := by
  induction pairs with
  | nil => rfl
  | cons p rest ih =>
    obtain ⟨k, v⟩ := p
    rw [encodePairs, ih, List.map_cons, List.flatMap_cons, List.append_assoc]
    rfl

end Value

variable {lim : Limits} {platform : Platform} {parseF64 : String → Option F64}

mutual

/-- **The encoding of a value is read back at every depth that leaves room for it.** -/
theorem reads_encode : ∀ v depth, depth + v.nesting ≤ lim.depth →
    v.Sendable lim → Reads lim parseF64 depth (v.encode platform .resp3) v
  | .simpleString s, depth, hd, h => .simpleString hd ((findCrlf_eq_none_iff _).mpr h)
  | .error s, depth, hd, h => .error hd ((findCrlf_eq_none_iff _).mpr h)
  | .integer i, depth, hd, _ => .integer hd i
  | .bulkString b, depth, hd, h => .bulkString hd h
  | .nil, depth, hd, _ => .null hd
  | .boolean b, depth, hd, _ => .boolean hd b
  | .bigNumber s, depth, hd, h => .bigNumber hd (findCrlf_of_isBigNumber h) h
  | .verbatimString (a, b, c) data, depth, hd, h => .verbatimString hd a b c h
  | .array items, depth, hd, h => by
    rw [Value.encode, Value.encodeItems_eq]
    exact .array (Nat.le_of_add_right_le hd) (reads_encodeItems items depth hd h.2) h.1
  | .set items, depth, hd, h => by
    rw [Value.encode, Value.encodeItems_eq]
    exact .set (Nat.le_of_add_right_le hd) (reads_encodeItems items depth hd h.2) h.1
  | .push items, depth, hd, h => by
    rw [Value.encode, Value.encodeItems_eq]
    exact .push (Nat.le_of_add_right_le hd) (reads_encodeItems items depth hd h.2) h.1
  | .map pairs, depth, hd, h => by
    rw [Value.encode, Value.encodePairs_eq]
    exact .map (Nat.le_of_add_right_le hd) (reads_encodePairs pairs depth hd h.2) h.1
  | .double _, _, _, h => h.elim
  | .nilArray, _, _, h => h.elim

theorem reads_encodeItems : ∀ items depth,
    depth + Value.nestingItems items ≤ lim.depth → Value.SendableItems lim items →
      List.Forall₂ (Reads lim parseF64 (depth + 1)) (items.map (Value.encode platform .resp3)) items
  | [], _, _, _ => .nil
  | v :: rest, depth, hd, h => by
    rw [Value.nestingItems] at hd
    refine .cons (reads_encode v (depth + 1) ?_ h.1) (reads_encodeItems rest depth ?_ h.2)
    · omega
    · omega

theorem reads_encodePairs : ∀ pairs depth,
    depth + Value.nestingPairs pairs ≤ lim.depth → Value.SendablePairs lim pairs →
      List.Forall₂ (fun b e => Reads lim parseF64 (depth + 1) b.1 e.1 ∧
        Reads lim parseF64 (depth + 1) b.2 e.2) (pairs.map (Value.encodePair platform .resp3)) pairs
  | [], _, _, _ => .nil
  | (k, v) :: rest, depth, hd, h => by
    rw [Value.nestingPairs] at hd
    refine .cons ⟨reads_encode k (depth + 1) ?_ h.1.1, reads_encode v (depth + 1) ?_ h.1.2⟩
      (reads_encodePairs rest depth ?_ h.2)
    · omega
    · omega
    · omega

end

/-- **The round trip.** A value that is not nested too deep and within the limits of the protocol
is read back from its encoding, whatever follows it. -/
theorem parseValueStrict_encode (v : Value) (hdepth : v.nesting ≤ lim.depth)
    (hv : v.Sendable lim) (rest : Bytes) :
    parseValueStrict lim platform.parseF64 (v.encode platform .resp3 ++ rest)
      = .ok (v, (v.encode platform .resp3).length) := by
  have hread : Reads lim platform.parseF64 0 (v.encode platform .resp3) v :=
    reads_encode v 0 (by omega) hv
  refine hread _ false rest ?_
  rw [List.length_append]
  omega

/-- A map in an array, followed by the start of another frame. -/
theorem parseValueStrict_encode_nested :
    let v : Value := .array [.map [(.simpleString "k", .boolean true)], .bigNumber "-12"]
    parseValueStrict .standard Store.Sample.platform.parseF64
        (v.encode Store.Sample.platform .resp3 ++ [0x24])
      = .ok (v, (v.encode Store.Sample.platform .resp3).length) := by
  refine parseValueStrict_encode _ (by decide) ?_ _
  refine ⟨by decide, ⟨by decide, ⟨?_, trivial⟩, trivial⟩, ?_, trivial⟩
  · exact (findCrlf_eq_none_iff _).mp (by decide +kernel)
  · show isBigNumber "-12".toList = true
    decide +kernel

/-- **Replies in a row are read in one way**: the bytes are those of no other values. -/
theorem encodings_injective :
    Function.Injective fun vs : List {v : Value // v.nesting ≤ lim.depth ∧ v.Sendable lim} =>
      vs.flatMap fun v => v.1.encode platform .resp3 := by
  have hread := fun v : {v : Value // v.nesting ≤ lim.depth ∧ v.Sendable lim} =>
    @reads_encode lim platform platform.parseF64 v.1 0 (by have := v.2.1; omega) v.2.2
  refine fun vs ws h => Lib.PrefixFree.flatMap_inj ?_ (fun v => (hread v).ne_nil) h
  intro v w r s heq
  -- the parser reads both values off the same bytes
  have hv := hread v _ false r (Nat.le_add_right _ (w.1.encode platform .resp3).length)
  rw [heq, hread w _ false s (Nat.le_add_left _ _)] at hv
  obtain rfl := Subtype.ext (Prod.mk.inj (Except.ok.inj hv)).1
  exact ⟨rfl, List.append_cancel_left heq⟩

end Calod.Resp
