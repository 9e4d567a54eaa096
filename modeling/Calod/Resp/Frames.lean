import Calod.Resp.Parser

/-!
# Frames

`Reads lim depth bytes v` says that the parser reads `v` off every buffer that starts with `bytes`
and consumes just these bytes, whatever follows. There is one lemma for each kind of frame; those
for the aggregates take the same fact for the elements.

* `findCrlf_append` — a line ends where its text ends if there is no line end in the text
* `Reads.array`, `Reads.map` — the loops over the elements
-/

namespace Calod.Resp

open Store Serde

variable {marker : UInt8} {s : String} {parse : Bytes → Except RespError (Value × Nat)}
  {frames : List Bytes} {vs : List Value} {entries : List (Value × Value)} {fuel : Nat}

variable {lim : Limits} {parseF64 : String → Option F64} {depth : Nat}

/-- The parser reads `v` off the front of any buffer that starts with `bytes`. -/
def Reads (lim : Limits) (parseF64 : String → Option F64) (depth : Nat) (bytes : Bytes)
    (v : Value) : Prop :=
  ∀ fuel allowInline rest, bytes.length ≤ fuel →
    parseValueDepth lim parseF64 fuel (bytes ++ rest) depth allowInline = .ok (v, bytes.length)

/-- What `parse_value_depth` does with a marker when the nesting is not too deep. -/
def dispatch (lim : Limits) (parseF64 : String → Option F64) (fuel depth : Nat)
    (allowInline : Bool) (marker : UInt8) (buffer : Bytes) : Except RespError (Value × Nat) :=
  let nested := fun buffer => parseValueDepth lim parseF64 fuel buffer (depth + 1) false
  if marker = 0x2B then parseText .simpleString buffer
  else if marker = 0x2D then parseText .error buffer
  else if marker = 0x3A then parseInteger buffer
  else if marker = 0x24 then parseBulkString lim buffer
  else if marker = 0x2A then parseArray lim nested buffer
  else if marker = 0x23 then parseBoolean buffer
  else if marker = 0x2C then parseDouble parseF64 buffer
  else if marker = 0x25 then parseMap lim nested buffer
  else if marker = 0x7E then parseAggregate lim "set" .set nested buffer
  else if marker = 0x5F then parseNull buffer
  else if marker = 0x28 then parseBigNumber buffer
  else if marker = 0x21 then parseBlobError lim buffer
  else if marker = 0x3D then parseVerbatim lim buffer
  else if marker = 0x3E then parseAggregate lim "push" .push nested buffer
  else if marker = 0x7C then
    parseAttribute lim nested (fun buffer => parseValueDepth lim parseF64 fuel buffer depth false)
      buffer
  else if allowInline ∧ depth = 0 then parseInline lim buffer
  else .error (.invalidFormat s!"Unexpected type identifier: {marker}")

theorem parseValueDepth_cons (fuel : Nat) (marker : UInt8) (rest : Bytes) (allowInline : Bool) :
    parseValueDepth lim parseF64 (fuel + 1) (marker :: rest) depth allowInline
      = if lim.depth < depth then .error .depthExceeded
        else dispatch lim parseF64 fuel depth allowInline marker (marker :: rest) := by
  rw [parseValueDepth]
  rfl

/-! ## Lines -/

theorem findCrlf_cons_of_ne {a : UInt8} (h : a ≠ 0x0D) (l : Bytes) :
    findCrlf (a :: l) = (findCrlf l).map (· + 1) := by
  cases l with
  | nil => rfl
  | cons b rest => rw [findCrlf, if_neg fun h' => h h'.1]

theorem findCrlf_append {text : Bytes} (h : findCrlf text = none) (rest : Bytes) :
    findCrlf (text ++ crlf ++ rest) = some text.length := by
  induction text with
  | nil => rfl
  | cons a text ih =>
    cases text with
    | nil =>
      show findCrlf (a :: 0x0D :: 0x0A :: rest) = some 1
      rw [findCrlf, if_neg fun h' => absurd h'.2 (by decide)]
      rfl
    | cons b text =>
      rw [findCrlf] at h
      split at h
      · cases h
      · next hab =>
        rw [List.cons_append, List.cons_append, List.cons_append, List.cons_append, findCrlf,
          if_neg hab]
        have := ih (Option.map_eq_none_iff.mp h)
        rw [List.cons_append, List.cons_append] at this
        rw [this]
        rfl

/-- A text without a carriage return has no line end. -/
theorem findCrlf_of_not_mem {text : Bytes} (h : 0x0D ∉ text) : findCrlf text = none := by
  induction text with
  | nil => rfl
  | cons a text ih =>
    have ha : a ≠ 0x0D := fun he => h (he ▸ List.mem_cons_self)
    rw [findCrlf_cons_of_ne ha, ih fun hm => h (List.mem_cons_of_mem _ hm)]
    rfl

theorem length_line (marker : UInt8) (text : Bytes) :
    (line marker text).length = text.length + 3 := by
  simp [line, crlf]

variable (hm : marker ≠ 0x0D) (hd : depth ≤ lim.depth) (hs : findCrlf (utf8 s) = none)
  (h : List.Forall₂ (Reads lim parseF64 (depth + 1)) frames vs) (hn : vs.length ≤ lim.multibulkLen)

include hm hs in
theorem parseLine_line (rest : Bytes) :
    parseLine (line marker (utf8 s) ++ rest) = .ok (s, (utf8 s).length + 1) := by
  have hfind : findCrlf (line marker (utf8 s) ++ rest) = some ((utf8 s).length + 1) := by
    rw [line, List.cons_append, findCrlf_cons_of_ne hm, findCrlf_append hs]
    rfl
  rw [parseLine, hfind]
  have htext : ((line marker (utf8 s) ++ rest).take ((utf8 s).length + 1)).drop 1 = utf8 s := by
    simp [line]
  dsimp only
  rw [htext, fromUtf8_utf8]

theorem parseLength_line (hm : marker ≠ 0x0D) {i : Int} (hlo : -2 ^ 63 ≤ i) (hhi : i < 2 ^ 63)
    (rest : Bytes) :
    parseLength (line marker (utf8 (toString i)) ++ rest)
      = .ok (i, (utf8 (toString i)).length + 1) := by
  have hs : findCrlf (utf8 (toString i)) = none := by
    refine findCrlf_of_not_mem fun h => ?_
    exact absurd (le_of_mem_utf8_toString h).1 (by decide)
  rw [parseLength, parseLine_line hm hs]
  dsimp only
  rw [parseI64_toString hlo hhi]

/-! ## Values without elements -/

namespace Reads

/-- A frame is never empty. -/
theorem ne_nil {bytes : Bytes} {v : Value} (h : Reads lim parseF64 depth bytes v) : bytes ≠ [] := by
  rintro rfl
  have := h 0 false [] le_rfl
  cases this

/-- It is enough to read what follows the marker with one unit of fuel less. -/
theorem of_cons (hd : depth ≤ lim.depth) {marker : UInt8} {bytes tail : Bytes} {v : Value}
    (hbytes : bytes = marker :: tail)
    (h : ∀ fuel allowInline rest, tail.length ≤ fuel →
      dispatch lim parseF64 fuel depth allowInline marker (bytes ++ rest)
        = .ok (v, bytes.length)) :
    Reads lim parseF64 depth bytes v := by
  subst hbytes
  intro fuel allowInline rest hfuel
  cases fuel with
  | zero => exact absurd hfuel (by simp)
  | succ fuel =>
    rw [List.cons_append, parseValueDepth_cons, if_neg (Nat.not_lt.mpr hd)]
    exact h fuel allowInline rest (Nat.le_of_succ_le_succ hfuel)

include hd hs in
theorem simpleString : Reads lim parseF64 depth (line 0x2B (utf8 s)) (.simpleString s) := by
  refine of_cons hd rfl fun fuel allowInline rest _ => ?_
  simp +decide only [dispatch, reduceIte]
  rw [parseText, parseLine_line (by decide) hs]
  simp [length_line]

include hd hs in
theorem error : Reads lim parseF64 depth (line 0x2D (utf8 s)) (.error s) := by
  refine of_cons hd rfl fun fuel allowInline rest _ => ?_
  simp +decide only [dispatch, reduceIte]
  rw [parseText, parseLine_line (by decide) hs]
  simp [length_line]

theorem integer (hd : depth ≤ lim.depth) (i : Int64) :
    Reads lim parseF64 depth (line 0x3A (utf8 (toString i.toInt))) (.integer i) := by
  refine of_cons hd rfl fun fuel allowInline rest _ => ?_
  simp +decide only [dispatch, reduceIte]
  rw [parseInteger, parseLength_line (by decide) i.le_toInt i.toInt_lt]
  simp [length_line]

include hd hs in
theorem bigNumber (hb : isBigNumber s.toList = true) :
    Reads lim parseF64 depth (line 0x28 (utf8 s)) (.bigNumber s) := by
  refine of_cons hd rfl fun fuel allowInline rest _ => ?_
  simp +decide only [dispatch, reduceIte]
  rw [parseBigNumber, parseLine_line (by decide) hs]
  simp [hb, length_line]

theorem boolean (hd : depth ≤ lim.depth) (b : Bool) :
    Reads lim parseF64 depth (line 0x23 [if b then 0x74 else 0x66]) (.boolean b) := by
  refine of_cons hd rfl fun fuel allowInline rest _ => ?_
  simp +decide only [dispatch, reduceIte]
  cases b <;> rfl

theorem null (hd : depth ≤ lim.depth) : Reads lim parseF64 depth (line 0x5F []) .nil := by
  refine of_cons hd rfl fun fuel allowInline rest _ => ?_
  simp +decide only [dispatch, reduceIte]
  rw [parseNull, if_neg (by simp [line, crlf])]
  rfl

/-! ## Payloads -/

theorem parsePayload_append (missing : String) {pre data : Bytes} (hlen : data.length ≤ lim.bulkLen)
    {stop : Nat} (hstop : pre.length = stop + 2) (rest : Bytes) :
    parsePayload lim missing (pre ++ data ++ crlf ++ rest) data.length stop
      = .ok (data, pre.length + data.length + 2) := by
  have hdrop : (pre ++ data ++ crlf ++ rest).drop (stop + 2 + data.length) = crlf ++ rest := by
    rw [← hstop, ← List.length_append, List.append_assoc, List.drop_left]
  have hdata : ((pre ++ data ++ crlf ++ rest).drop (stop + 2)).take data.length = data := by
    rw [← hstop, List.append_assoc, List.append_assoc, List.drop_left, List.take_left]
  rw [parsePayload, if_neg (Nat.not_lt.mpr hlen), if_neg, hdrop, hdata, if_pos, hstop]
  · rfl
  · simp only [List.length_append, hstop]
    simp [crlf]

theorem length_encodeBulk (b : Bytes) :
    (encodeBulk b).length = (encodeAggregateHeader 0x24 b.length).length + b.length + 2 := by
  rw [encodeBulk, List.length_append, List.length_append]
  rfl

theorem length_header (marker : UInt8) (n : Nat) :
    (encodeAggregateHeader marker n).length = (utf8 (toString (n : Int))).length + 1 + 2 :=
  length_line _ _

theorem parseLength_header (hm : marker ≠ 0x0D) {n : Nat} (hn : n < 2 ^ 63) (rest : Bytes) :
    parseLength (encodeAggregateHeader marker n ++ rest)
      = .ok ((n : Int), (utf8 (toString (n : Int))).length + 1) :=
  parseLength_line hm (by omega) (by exact_mod_cast hn) rest

theorem bulkString (hd : depth ≤ lim.depth) {b : Bytes} (hb : b.length ≤ lim.bulkLen) :
    Reads lim parseF64 depth (encodeBulk b) (.bulkString b) := by
  refine of_cons hd rfl fun fuel allowInline rest _ => ?_
  simp +decide only [dispatch, reduceIte]
  have hlen := parseLength_header (show (0x24 : UInt8) ≠ 0x0D by decide)
    (hb.trans_lt lim.bulkLen_lt) (b ++ crlf ++ rest)
  rw [← List.append_assoc, ← List.append_assoc] at hlen
  rw [parseBulkString, length_encodeBulk, encodeBulk, hlen]
  dsimp only
  rw [if_neg (by omega), if_neg (by omega), Int.toNat_natCast,
    parsePayload_append _ hb (length_header _ _)]

theorem verbatimString (hd : depth ≤ lim.depth) (a b c : UInt8) {data : Bytes}
    (hb : 4 + data.length ≤ lim.bulkLen) :
    Reads lim parseF64 depth
      (encodeAggregateHeader 0x3D (4 + data.length) ++ (a :: b :: c :: 0x3A :: data) ++ crlf)
      (.verbatimString (a, b, c) data) := by
  have hpay : (a :: b :: c :: 0x3A :: data).length = 4 + data.length := by
    simp only [List.length_cons]
    omega
  refine of_cons hd rfl fun fuel allowInline rest _ => ?_
  simp +decide only [dispatch, reduceIte]
  have hlen := parseLength_header (show (0x3D : UInt8) ≠ 0x0D by decide)
    (hb.trans_lt lim.bulkLen_lt) ((a :: b :: c :: 0x3A :: data) ++ crlf ++ rest)
  rw [← List.append_assoc, ← List.append_assoc] at hlen
  have hpre : parseLengthPrefixed lim (encodeAggregateHeader 0x3D (4 + data.length)
      ++ (a :: b :: c :: 0x3A :: data) ++ crlf ++ rest)
      = .ok (a :: b :: c :: 0x3A :: data, (encodeAggregateHeader 0x3D (4 + data.length)
        ++ (a :: b :: c :: 0x3A :: data) ++ crlf).length) := by
    rw [parseLengthPrefixed, hlen]
    dsimp only
    rw [if_neg (by omega), Int.toNat_natCast, ← hpay,
      parsePayload_append _ (hpay ▸ hb) (length_header _ _), List.length_append,
      List.length_append]
    rfl
  rw [parseVerbatim, hpre]
  rfl

/-! ## Aggregates -/

/-- The loop reads the elements off the front, one after the other. -/
theorem parseElements_append
    (h : List.Forall₂ (fun b v => b ≠ [] ∧ ∀ rest, parse (b ++ rest) = .ok (v, b.length)) frames vs)
    (rest : Bytes) : ∀ pre : Bytes,
      parseElements parse (pre ++ (frames.flatten ++ rest)) vs.length pre.length
        = .ok (vs, pre.length + frames.flatten.length) := by
  induction h with
  | nil => exact fun _ => rfl
  | @cons b v frames vs hb _ ih =>
    intro pre
    have hlt : ¬ (pre ++ ((b :: frames).flatten ++ rest)).length ≤ pre.length := by
      have := List.length_pos_of_ne_nil hb.1
      simp only [List.flatten_cons, List.length_append]
      omega
    have hnext := ih (pre ++ b)
    rw [List.length_append, List.append_assoc, ← List.append_assoc b] at hnext
    rw [List.length_cons, parseElements, if_neg hlt, List.drop_left, List.flatten_cons,
      List.append_assoc, hb.2]
    dsimp only
    rw [← List.append_assoc b, hnext, List.length_append, Nat.add_assoc]

/-- The loop reads the keys and values off the front. -/
theorem parseEntries_append {parse : Bytes → Except RespError (Value × Nat)}
    {frames : List (Bytes × Bytes)} {entries : List (Value × Value)}
    (h : List.Forall₂ (fun b e => (b.1 ≠ [] ∧ ∀ rest, parse (b.1 ++ rest) = .ok (e.1, b.1.length)) ∧
      b.2 ≠ [] ∧ ∀ rest, parse (b.2 ++ rest) = .ok (e.2, b.2.length)) frames entries)
    (rest : Bytes) : ∀ pre : Bytes,
      parseEntries parse (pre ++ (frames.flatMap (fun b => b.1 ++ b.2) ++ rest)) entries.length
          pre.length
        = .ok (entries, pre.length + (frames.flatMap fun b => b.1 ++ b.2).length) := by
  induction h with
  | nil => exact fun _ => rfl
  | @cons b e frames entries hb _ ih =>
    obtain ⟨⟨hk, hkr⟩, hv, hvr⟩ := hb
    intro pre
    have hkpos := List.length_pos_of_ne_nil hk
    have hvpos := List.length_pos_of_ne_nil hv
    have hnext := ih (pre ++ b.1 ++ b.2)
    have hbuf : pre ++ ((b :: frames).flatMap (fun b => b.1 ++ b.2) ++ rest)
        = pre ++ b.1 ++ b.2 ++ (frames.flatMap (fun b => b.1 ++ b.2) ++ rest) := by
      simp only [List.flatMap_cons, List.append_assoc]
    have hkey : (pre ++ b.1 ++ b.2 ++ (frames.flatMap (fun b => b.1 ++ b.2) ++ rest)).drop
        pre.length = b.1 ++ (b.2 ++ (frames.flatMap (fun b => b.1 ++ b.2) ++ rest)) := by
      rw [List.append_assoc, List.append_assoc, List.drop_left]
    have hval : (pre ++ b.1 ++ b.2 ++ (frames.flatMap (fun b => b.1 ++ b.2) ++ rest)).drop
        (pre.length + b.1.length) = b.2 ++ (frames.flatMap (fun b => b.1 ++ b.2) ++ rest) := by
      rw [← List.length_append, List.append_assoc, List.drop_left]
    rw [hbuf, List.length_cons, parseEntries, if_neg, hkey, hkr]
    · dsimp only
      rw [if_neg, hval, hvr]
      · dsimp only
        rw [List.length_append, List.length_append] at hnext
        rw [hnext, List.flatMap_cons, List.length_append, List.length_append]
        simp only [Nat.add_assoc]
      · simp only [List.length_append]
        omega
    · simp only [List.length_append]
      omega

theorem parseCount_header (name : String) (hm : marker ≠ 0x0D) {n : Nat} (hn : n ≤ lim.multibulkLen)
    (rest : Bytes) :
    parseCount lim name (encodeAggregateHeader marker n ++ rest)
      = .ok (n, (encodeAggregateHeader marker n).length) := by
  rw [parseCount, parseLength_header hm (hn.trans_lt lim.multibulkLen_lt)]
  dsimp only
  rw [if_neg (by omega), if_neg (by omega), Int.toNat_natCast, length_header]

include h in
/-- A frame, as the loops use it: whatever follows, with the fuel that is left. -/
theorem nested (hfuel : frames.flatten.length ≤ fuel) :
    List.Forall₂ (fun b v => b ≠ [] ∧ ∀ rest,
      parseValueDepth lim parseF64 fuel (b ++ rest) (depth + 1) false = .ok (v, b.length))
      frames vs := by
  induction h with
  | nil => exact .nil
  | @cons b v frames vs hb _ ih =>
    rw [List.flatten_cons, List.length_append] at hfuel
    refine .cons ⟨hb.ne_nil, fun rest => hb fuel false rest ?_⟩ (ih ?_)
    · omega
    · omega

theorem parseAggregate_append (name : String) (make : List Value → Value) (hm : marker ≠ 0x0D)
    (h : List.Forall₂ (Reads lim parseF64 (depth + 1)) frames vs)
    (hn : vs.length ≤ lim.multibulkLen) (hfuel : frames.flatten.length ≤ fuel) (rest : Bytes) :
    parseAggregate lim name make
        (fun buffer => parseValueDepth lim parseF64 fuel buffer (depth + 1) false)
        (encodeAggregateHeader marker vs.length ++ (frames.flatten ++ rest))
      = .ok (make vs, (encodeAggregateHeader marker vs.length ++ frames.flatten).length) := by
  rw [parseAggregate, parseCount_header name hm hn]
  dsimp only
  rw [parseElements_append (nested h hfuel), List.length_append]

/-- The elements take less than the whole frame. -/
theorem length_le_of_append {n fuel : Nat} {elements : Bytes}
    (h : (utf8 (toString (n : Int)) ++ crlf ++ elements).length ≤ fuel) :
    elements.length ≤ fuel := by
  rw [List.length_append] at h
  omega

include hd h hn in
theorem array :
    Reads lim parseF64 depth (encodeAggregateHeader 0x2A vs.length ++ frames.flatten)
      (.array vs) := by
  refine of_cons hd rfl fun fuel allowInline rest hfuel => ?_
  simp +decide only [dispatch, reduceIte]
  have hm : (0x2A : UInt8) ≠ 0x0D := by decide
  rw [List.append_assoc, parseArray, parseLength_header hm (hn.trans_lt lim.multibulkLen_lt)]
  dsimp only
  rw [if_neg (by omega), parseAggregate_append "array" .array hm h hn (length_le_of_append hfuel)]

include hd h hn in
theorem set :
    Reads lim parseF64 depth (encodeAggregateHeader 0x7E vs.length ++ frames.flatten)
      (.set vs) := by
  refine of_cons hd rfl fun fuel allowInline rest hfuel => ?_
  simp +decide only [dispatch, reduceIte]
  rw [List.append_assoc,
    parseAggregate_append "set" .set (by decide) h hn (length_le_of_append hfuel)]

include hd h hn in
theorem push :
    Reads lim parseF64 depth (encodeAggregateHeader 0x3E vs.length ++ frames.flatten)
      (.push vs) := by
  refine of_cons hd rfl fun fuel allowInline rest hfuel => ?_
  simp +decide only [dispatch, reduceIte]
  rw [List.append_assoc,
    parseAggregate_append "push" .push (by decide) h hn (length_le_of_append hfuel)]

/-- Two frames, as the loop over the entries uses them. -/
theorem nestedEntries {frames : List (Bytes × Bytes)} {entries : List (Value × Value)}
    (h : List.Forall₂ (fun b e => Reads lim parseF64 (depth + 1) b.1 e.1 ∧
      Reads lim parseF64 (depth + 1) b.2 e.2) frames entries) {fuel : Nat}
    (hfuel : (frames.flatMap fun b => b.1 ++ b.2).length ≤ fuel) :
    List.Forall₂ (fun b e => (b.1 ≠ [] ∧ ∀ rest,
        parseValueDepth lim parseF64 fuel (b.1 ++ rest) (depth + 1) false
          = .ok (e.1, b.1.length)) ∧ b.2 ≠ [] ∧ ∀ rest,
        parseValueDepth lim parseF64 fuel (b.2 ++ rest) (depth + 1) false
          = .ok (e.2, b.2.length)) frames entries := by
  induction h with
  | nil => exact .nil
  | @cons b e frames entries hb _ ih =>
    obtain ⟨hk, hv⟩ := hb
    rw [List.flatMap_cons, List.length_append, List.length_append] at hfuel
    refine .cons ⟨⟨hk.ne_nil, fun rest => hk fuel false rest ?_⟩, hv.ne_nil,
      fun rest => hv fuel false rest ?_⟩ (ih ?_)
    · omega
    · omega
    · omega

theorem map (hd : depth ≤ lim.depth) {frames : List (Bytes × Bytes)}
    {entries : List (Value × Value)}
    (h : List.Forall₂ (fun b e => Reads lim parseF64 (depth + 1) b.1 e.1 ∧
      Reads lim parseF64 (depth + 1) b.2 e.2) frames entries)
    (hn : entries.length ≤ lim.multibulkLen) :
    Reads lim parseF64 depth
      (encodeAggregateHeader 0x25 entries.length ++ frames.flatMap fun b => b.1 ++ b.2)
      (.map entries) := by
  refine of_cons hd rfl fun fuel allowInline rest hfuel => ?_
  simp +decide only [dispatch, reduceIte]
  rw [List.append_assoc, parseMap, parseCount_header "map" (by decide) hn]
  dsimp only
  rw [parseEntries_append (nestedEntries h (length_le_of_append hfuel)), ← List.length_append]

end Reads

end Calod.Resp
