import Calod.Resp.Parser

/-!
# The vectorised search for line ends

`calod-resp/src/parser/simd.rs`. A vector compare and its mask are given by their bits. The search
of the `memchr` crate is a parameter, of which only what it documents is used: it finds the first
occurrence.

* `vector_search_exact` — all of them find the first line end
-/

namespace Calod.Resp.Simd

open Store

/-- `memmem::Finder::find` for CR LF. -/
abbrev Memmem := Bytes → Option Nat

/-- `_mm256_movemask_epi8` and `_mm_movemask_epi8` of the comparison with CR. -/
def movemask (chunk : Bytes) : BitVec 32 :=
  (BitVec.ofBoolListLE (chunk.map (· == 0x0D))).setWidth 32

/-- `find_crlf_fallback`. -/
def findCrlfFallback (find : Memmem) (buf : Bytes) : Option Nat := find buf

/-- The loop over the bits of a mask; `bit` is shifted out of the word in the end. -/
def scanMask (buf : Bytes) (offset : Nat) (mask : BitVec 32) : Nat → Nat → BitVec 32 → Option Nat
  | 0, _, _ => none
  | n + 1, i, bit =>
    if mask &&& bit ≠ 0 ∧ buf[offset + i + 1]? = some 0x0A then some (offset + i)
    else scanMask buf offset mask n (i + 1) (bit <<< 1)

/-- One chunk of the loop. -/
def scanChunk (lanes : Nat) (buf : Bytes) (offset : Nat) : Option Nat :=
  let mask := movemask ((buf.drop offset).take lanes)
  if mask ≠ 0 then scanMask buf offset mask lanes 0 1 else none

/-- The loop over the chunks, each with one byte behind it; then the rest. -/
def findCrlfVector (find : Memmem) (lanes : Nat) [NeZero lanes] (buf : Bytes) (offset : Nat) :
    Option Nat :=
  if offset + (lanes + 1) ≤ buf.length then
    match scanChunk lanes buf offset with
    | some found => some found
    | none => findCrlfVector find lanes buf (offset + lanes)
  else (findCrlfFallback find (buf.drop offset)).map (offset + ·)
termination_by buf.length - offset
decreasing_by
  have := NeZero.pos lanes
  omega

/-- `find_crlf_avx2`. -/
def findCrlfAvx2 (find : Memmem) (buf : Bytes) : Option Nat := findCrlfVector find 32 buf 0

/-- `find_crlf_sse2`. -/
def findCrlfSse2 (find : Memmem) (buf : Bytes) : Option Nat := findCrlfVector find 16 buf 0

/-- `find_crlf`, given what the processor can do. -/
def findCrlf (find : Memmem) (avx2 sse2 : Bool) (buf : Bytes) : Option Nat :=
  if avx2 ∧ 32 ≤ buf.length then findCrlfAvx2 find buf
  else if sse2 ∧ 16 ≤ buf.length then findCrlfSse2 find buf
  else findCrlfFallback find buf

/-! ## The first line end -/

def CrlfAt (buf : Bytes) (i : Nat) : Prop := buf[i]? = some 0x0D ∧ buf[i + 1]? = some 0x0A

/-- The least index of a line end from `i` on, and none if there is no line end. -/
structure FirstFrom (buf : Bytes) (i : Nat) (r : Option Nat) : Prop where
  found : ∀ k ∈ r, CrlfAt buf k ∧ i ≤ k
  least : ∀ j, i ≤ j → CrlfAt buf j → ∃ k ∈ r, k ≤ j

variable {find : Memmem} {buf : Bytes} {offset lanes i : Nat} {r : Option Nat}

theorem crlfAt_drop {k : Nat} : CrlfAt (buf.drop i) k ↔ CrlfAt buf (i + k) := by
  simp only [CrlfAt, List.getElem?_drop, Nat.add_assoc]

namespace FirstFrom

theorem here (h : CrlfAt buf i) : FirstFrom buf i (some i) where
  found _ hk := Option.some.inj hk ▸ ⟨h, Nat.le_refl i⟩
  least _ hj _ := ⟨i, rfl, hj⟩

theorem back (h : FirstFrom buf (i + 1) r) (hi : ¬CrlfAt buf i) : FirstFrom buf i r where
  found k hk := (h.found k hk).imp_right Nat.le_of_succ_le
  least j hj hc := by
    rcases Nat.eq_or_lt_of_le hj with rfl | hj
    · exact absurd hc hi
    · exact h.least j hj hc

/-- A search on the rest of the buffer. -/
theorem drop (h : FirstFrom (buf.drop i) 0 r) : FirstFrom buf i (r.map (i + ·)) where
  found k hk := by
    obtain ⟨j, hj, rfl⟩ := Option.mem_map.mp hk
    exact ⟨crlfAt_drop.mp (h.found j hj).1, Nat.le_add_right i j⟩
  least j hj hc := by
    obtain ⟨k, rfl⟩ := Nat.exists_eq_add_of_le hj
    obtain ⟨l, hl, hle⟩ := h.least k (Nat.zero_le k) (crlfAt_drop.mpr hc)
    exact ⟨i + l, Option.mem_map_of_mem _ hl, Nat.add_le_add_left hle i⟩

/-- The search of the parser's model. -/
theorem findCrlf (buf : Bytes) : FirstFrom buf 0 (Resp.findCrlf buf) := by
  fun_induction Resp.findCrlf buf with
  | case1 | case2 =>
    refine ⟨nofun, fun j _ h => ?_⟩
    have := h.2
    simp at this
  | case3 a b rest h => exact here ⟨congrArg some h.1, congrArg some h.2⟩
  | case4 a b rest h ih =>
    have hrest : FirstFrom (a :: b :: rest) 1 ((Resp.findCrlf (b :: rest)).map (1 + ·)) :=
      drop ih
    rw [show (1 + ·) = (· + 1) from funext (Nat.add_comm 1)] at hrest
    exact hrest.back fun hc => h ⟨Option.some.inj hc.1, Option.some.inj hc.2⟩

end FirstFrom

/-! ## The loops -/

theorem mask_iff {chunk : Bytes} (hi : i < 32) :
    movemask chunk &&& BitVec.twoPow 32 i ≠ 0 ↔ chunk[i]? = some 0x0D := by
  have hbit : (movemask chunk).getLsbD i = true ↔ chunk[i]? = some 0x0D := by
    rw [movemask, BitVec.getLsbD_setWidth, BitVec.getLsbD_ofBoolListLE]
    cases h : chunk[i]? <;> simp [hi, h]
  have hpow : BitVec.twoPow 32 i ≠ 0 := fun h => by
    simpa [hi] using congrArg (BitVec.getLsbD · i) h
  rw [BitVec.and_twoPow, ← hbit]
  split
  · next h => exact iff_of_true hpow h
  · next h => exact iff_of_false (fun hz => hz rfl) h

/-- What the bits do not show is left to the search behind them. -/
theorem scanMask_or {mask : BitVec 32} (n : Nat)
    (hmask : ∀ j, i ≤ j → j < i + n →
      (mask &&& BitVec.twoPow 32 j ≠ 0 ↔ buf[offset + j]? = some 0x0D))
    (h : FirstFrom buf (offset + i + n) r) :
    FirstFrom buf (offset + i) ((scanMask buf offset mask n i (BitVec.twoPow 32 i)).or r) := by
  induction n generalizing i with
  | zero => exact h
  | succ n ih =>
    have hshift : BitVec.twoPow 32 i <<< 1 = BitVec.twoPow 32 (i + 1) := by
      rw [BitVec.twoPow_eq, BitVec.twoPow_eq, BitVec.shiftLeft_add]
    have hbit := hmask i (Nat.le_refl i) (by omega)
    unfold scanMask
    split
    · next hcrlf => exact .here ⟨hbit.mp hcrlf.1, hcrlf.2⟩
    · next hcrlf =>
      rw [hshift]
      refine .back (ih (i := i + 1) (fun j hj hn => hmask j (by omega) (by omega)) ?_)
        fun hc => hcrlf ⟨hbit.mpr hc.1, hc.2⟩
      rwa [show offset + (i + 1) + n = offset + i + (n + 1) by omega]

theorem scanMask_zero (n i : Nat) (bit : BitVec 32) : scanMask buf offset 0 n i bit = none := by
  induction n generalizing i bit with
  | zero => rfl
  | succ n ih =>
    rw [scanMask, if_neg fun h => h.1 BitVec.zero_and]
    exact ih _ _

theorem scanChunk_or (hlanes : lanes ≤ 32) (h : FirstFrom buf (offset + lanes) r) :
    FirstFrom buf offset ((scanChunk lanes buf offset).or r) := by
  have hscan : FirstFrom buf offset
      ((scanMask buf offset (movemask ((buf.drop offset).take lanes)) lanes 0 1).or r) :=
    scanMask_or (i := 0) lanes (fun j _ hj => by
      rw [mask_iff (by omega), List.getElem?_take_of_lt (by omega), List.getElem?_drop]) h
  unfold scanChunk
  dsimp only
  split
  · exact hscan
  · next hzero => rwa [not_not.mp hzero, scanMask_zero] at hscan

variable (hfind : ∀ buf, FirstFrom buf 0 (find buf))

include hfind

theorem firstFrom_vector [NeZero lanes] (hlanes : lanes ≤ 32) (offset : Nat) :
    FirstFrom buf offset (findCrlfVector find lanes buf offset) := by
  fun_induction findCrlfVector find lanes buf offset with
  | case1 offset hlen found hfound =>
    have := scanChunk_or hlanes (.drop (hfind (buf.drop (offset + lanes))))
    rwa [hfound] at this
  | case2 offset hlen hnone ih =>
    have := scanChunk_or hlanes ih
    rwa [hnone] at this
  | case3 offset hlen => exact .drop (hfind (buf.drop offset))

/--
**All searches find the first line end**, in every buffer and whatever the processor can do.
-/
theorem vector_search_exact (buf : Bytes) :
    FirstFrom buf 0 (findCrlfAvx2 find buf) ∧ FirstFrom buf 0 (findCrlfSse2 find buf) ∧
    FirstFrom buf 0 (findCrlfFallback find buf) ∧
    ∀ avx2 sse2, FirstFrom buf 0 (findCrlf find avx2 sse2 buf) := by
  have havx2 : FirstFrom buf 0 (findCrlfAvx2 find buf) := firstFrom_vector hfind (by decide) 0
  have hsse2 : FirstFrom buf 0 (findCrlfSse2 find buf) := firstFrom_vector hfind (by decide) 0
  refine ⟨havx2, hsse2, hfind buf, fun avx2 sse2 => ?_⟩
  unfold findCrlf
  split
  · exact havx2
  split
  · exact hsse2
  · exact hfind buf

omit hfind

/-- A line end in the second chunk. -/
def Sample.line : Bytes := List.replicate 36 0x61 ++ [0x0D, 0x0A, 0x62]

theorem vector_search_exact_second_chunk :
    ∃ k ∈ findCrlf Resp.findCrlf true true Sample.line, CrlfAt Sample.line k ∧ k ≤ 36 := by
  have h := (vector_search_exact FirstFrom.findCrlf Sample.line).2.2.2 true true
  obtain ⟨k, hk, hle⟩ := h.least 36 (Nat.zero_le _) ⟨by decide, by decide⟩
  exact ⟨k, hk, (h.found k hk).1, hle⟩

end Calod.Resp.Simd
