import Calod.Resp.Frames

/-!
# More bytes

What the parser makes of a buffer it makes of every longer buffer too, unless it was that bytes are
missing. `Extends P Q` says this of two parsers, so that more bytes and more fuel are one case.

* `Steady` — one answer beside the answer to more bytes, with its rules for tests and for one
  parser after another
* `parseValueDepth_firm` — by induction on the fuel
* `parseValue_append` — a value or an error stays as it is when more bytes come
* `parseValue_take` — before the last of its bytes a value is incomplete
* `not_completable` — what is an error now never becomes a value
-/

namespace Calod.Resp

open Store Serde

variable {buffer : Bytes} {stop n position : Nat}

variable {α : Type} {lim : Limits} {parseF64 : String → Option F64}

/-- More bytes do not change the answer, unless bytes were missing. -/
def Extends (P Q : Bytes → Except RespError α) : Prop :=
  ∀ buffer more, P buffer ≠ .error .incomplete → Q (buffer ++ more) = P buffer

/-- What is read is in the buffer. -/
def Within (P : Bytes → Except RespError (α × Nat)) : Prop :=
  ∀ ⦃buffer a n⦄, P buffer = .ok (a, n) → n ≤ buffer.length

/-! ## Steady answers -/

/-- Bytes were missing, or more bytes give the same answer, which satisfies `R`. -/
def Steady (R : α → Prop) (p q : Except RespError α) : Prop :=
  p = .error .incomplete ∨ q = p ∧ ∀ a, p = .ok a → R a

namespace Steady

variable {R : α → Prop} {p p' q q' : Except RespError α}

theorem missing : Steady R (.error .incomplete) q := Or.inl rfl

theorem error (e : RespError) : Steady R (.error e) (.error e) := Or.inr ⟨rfl, nofun⟩

theorem ok {a : α} (h : R a) : Steady R (.ok a) (.ok a) := by
  refine Or.inr ⟨rfl, ?_⟩
  rintro _ ⟨⟩
  exact h

/-- A test that does not look at the buffer. -/
theorem ite {c : Prop} [Decidable c] (h : Steady R p q) (h' : Steady R p' q') :
    Steady R (if c then p else p') (if c then q else q') := by
  by_cases hc : c
  · rwa [if_pos hc, if_pos hc]
  · rwa [if_neg hc, if_neg hc]

/-- The test for the end of the buffer. -/
theorem atEnd {more : Bytes} (h : position < buffer.length → Steady R p q) :
    Steady R (if buffer.length ≤ position then .error .incomplete else p)
      (if (buffer ++ more).length ≤ position then .error .incomplete else q) := by
  by_cases hpos : buffer.length ≤ position
  · rw [if_pos hpos]
    exact missing
  · rw [if_neg hpos, if_neg (by rw [List.length_append]; omega)]
    exact h (by omega)

/-- One parser after another: an error of the first one is the answer. -/
@[elab_as_elim]
theorem elim {motive : Except RespError α → Except RespError α → Prop} (h : Steady R p q)
    (missing : ∀ q, motive (.error .incomplete) q) (error : ∀ e, motive (.error e) (.error e))
    (ok : ∀ a, R a → motive (.ok a) (.ok a)) : motive p q := by
  rcases h with rfl | ⟨rfl, hR⟩
  · exact missing q
  · cases q with
    | error e => exact error e
    | ok a => exact ok a (hR a rfl)

end Steady

/-- Both parsers give the same answer, unless bytes are missing, and read what is in the buffer. -/
def Firm (P Q : Bytes → Except RespError (α × Nat)) : Prop :=
  ∀ buffer more, Steady (fun a => a.2 ≤ buffer.length) (P buffer) (Q (buffer ++ more))

theorem Firm.extends {P Q : Bytes → Except RespError (α × Nat)} (h : Firm P Q) : Extends P Q :=
  fun buffer more hne => ((h buffer more).resolve_left hne).1

theorem Firm.within {P Q : Bytes → Except RespError (α × Nat)} (h : Firm P Q) : Within P := by
  intro buffer a n hok
  rcases h buffer [] with hmissing | ⟨-, hread⟩
  · rw [hmissing] at hok
    cases hok
  · exact hread _ hok

/-- A read from a position that the buffer has. -/
theorem Firm.drop {P Q : Bytes → Except RespError (α × Nat)} (h : Firm P Q)
    (hpos : position ≤ buffer.length) (more : Bytes) :
    Steady (fun a => position + a.2 ≤ buffer.length) (P (buffer.drop position))
      (Q ((buffer ++ more).drop position)) := by
  rw [List.drop_append_of_le_length hpos]
  refine (h (buffer.drop position) more).imp_right fun h => ⟨h.1, fun a ha => ?_⟩
  have := h.2 a ha
  rw [List.length_drop] at this
  omega

/-! ## Lines -/

theorem findCrlf_append_of_some (h : findCrlf buffer = some stop) (more : Bytes) :
    findCrlf (buffer ++ more) = some stop := by
  induction buffer generalizing stop with
  | nil => cases h
  | cons a buffer ih =>
    cases buffer with
    | nil => cases h
    | cons b buffer =>
      rw [findCrlf] at h
      rw [List.cons_append, List.cons_append, findCrlf]
      by_cases hab : a = 0x0D ∧ b = 0x0A
      · rwa [if_pos hab] at h ⊢
      · rw [if_neg hab] at h ⊢
        obtain ⟨n, hn, rfl⟩ := Option.map_eq_some_iff.mp h
        have := ih hn
        rw [List.cons_append] at this
        rw [this]
        rfl

theorem findCrlf_lt (h : findCrlf buffer = some stop) : stop + 2 ≤ buffer.length := by
  induction buffer generalizing stop with
  | nil => cases h
  | cons a buffer ih =>
    cases buffer with
    | nil => cases h
    | cons b buffer =>
      rw [findCrlf] at h
      by_cases hab : a = 0x0D ∧ b = 0x0A
      · rw [if_pos hab] at h
        cases h
        simp
      · rw [if_neg hab] at h
        obtain ⟨n, hn, rfl⟩ := Option.map_eq_some_iff.mp h
        have := ih hn
        rw [List.length_cons]
        omega

theorem parseLine_steady (buffer more : Bytes) :
    Steady (fun a => a.2 + 2 ≤ buffer.length) (parseLine buffer) (parseLine (buffer ++ more)) := by
  unfold parseLine
  cases hfind : findCrlf buffer with
  | none => exact .missing
  | some stop =>
    have hlt := findCrlf_lt hfind
    rw [findCrlf_append_of_some hfind]
    dsimp only
    rw [List.take_append_of_le_length (by omega)]
    cases fromUtf8 ((buffer.take stop).drop 1) with
    | none => exact .error _
    | some s => exact .ok hlt

theorem parseLength_steady (buffer more : Bytes) :
    Steady (fun a => a.2 + 2 ≤ buffer.length) (parseLength buffer)
      (parseLength (buffer ++ more)) := by
  unfold parseLength
  refine (parseLine_steady buffer more).elim (fun _ => .missing) .error fun a h => ?_
  cases ha : parseI64 a.1.toList with
  | none => simp only [ha]; exact .error _
  | some n => simp only [ha]; exact .ok h

/-! ## Values without elements -/

theorem parseText_firm (make : String → Value) : Firm (parseText make) (parseText make) := by
  intro buffer more
  unfold parseText
  exact (parseLine_steady buffer more).elim (fun _ => .missing) .error fun _ h => .ok h

theorem parseInteger_firm : Firm parseInteger parseInteger := by
  intro buffer more
  unfold parseInteger
  exact (parseLength_steady buffer more).elim (fun _ => .missing) .error fun _ h => .ok h

theorem parseDouble_firm : Firm (parseDouble parseF64) (parseDouble parseF64) := by
  intro buffer more
  unfold parseDouble
  refine (parseLine_steady buffer more).elim (fun _ => .missing) .error fun a h => ?_
  cases ha : parseF64 a.1 with
  | none => simp only [ha]; exact .error _
  | some d => simp only [ha]; exact .ok h

theorem parseBigNumber_firm : Firm parseBigNumber parseBigNumber := by
  intro buffer more
  unfold parseBigNumber
  exact (parseLine_steady buffer more).elim (fun _ => .missing) .error fun _ h =>
    .ite (.ok h) (.error _)

theorem parsePayload_steady (missing : String) (buffer more : Bytes) (len stop : Nat) :
    Steady (fun a => a.2 ≤ buffer.length) (parsePayload lim missing buffer len stop)
      (parsePayload lim missing (buffer ++ more) len stop) := by
  unfold parsePayload
  refine .ite (.error _) ?_
  by_cases hshort : buffer.length < stop + 2 + len + 2
  · rw [if_pos hshort]
    exact .missing
  · have hlong : ¬ (buffer ++ more).length < stop + 2 + len + 2 := by
      rw [List.length_append]
      omega
    have hread : ∀ k m, k + m ≤ buffer.length →
        ((buffer ++ more).drop k).take m = (buffer.drop k).take m := by
      intro k m hkm
      rw [List.drop_append_of_le_length (by omega), List.take_append_of_le_length]
      rw [List.length_drop]
      omega
    rw [if_neg hshort, if_neg hlong, hread _ _ (by omega), hread _ _ (by omega)]
    exact .ite (.ok (Nat.not_lt.mp hshort)) (.error _)

theorem parseBulkString_firm : Firm (parseBulkString lim) (parseBulkString lim) := by
  intro buffer more
  unfold parseBulkString
  refine (parseLength_steady buffer more).elim (fun _ => .missing) .error fun a h => ?_
  refine .ite (.ok h) (.ite (.error _) ?_)
  exact (parsePayload_steady ..).elim (fun _ => .missing) .error fun _ h => .ok h

theorem parseLengthPrefixed_firm : Firm (parseLengthPrefixed lim) (parseLengthPrefixed lim) := by
  intro buffer more
  unfold parseLengthPrefixed
  exact (parseLength_steady buffer more).elim (fun _ => .missing) .error fun _ _ =>
    .ite (.error _) (parsePayload_steady ..)

theorem parseBlobError_firm : Firm (parseBlobError lim) (parseBlobError lim) := by
  intro buffer more
  unfold parseBlobError
  refine (parseLengthPrefixed_firm buffer more).elim (fun _ => .missing) .error fun a h => ?_
  cases ha : fromUtf8 a.1 with
  | none => simp only [ha]; exact .error _
  | some s => simp only [ha]; exact .ok h

theorem parseVerbatim_firm : Firm (parseVerbatim lim) (parseVerbatim lim) := by
  intro buffer more
  unfold parseVerbatim
  refine (parseLengthPrefixed_firm buffer more).elim (fun _ => .missing) .error fun a h => ?_
  obtain ⟨_ | ⟨x, _ | ⟨y, _ | ⟨z, _ | ⟨d, payload⟩⟩⟩⟩, n⟩ := a
  · exact .error _
  · exact .error _
  · exact .error _
  · exact .error _
  · exact .ite (.ok h) (.error _)

theorem parseBoolean_firm : Firm parseBoolean parseBoolean := by
  intro buffer more
  match buffer with
  | [] | [_] | [_, _] => exact .missing
  | [_, b, c] =>
    -- three bytes are enough to refuse the value, not to accept it
    refine .ite ?_ (.error _)
    rw [if_neg (by simp [crlf])]
    exact .missing
  | _ :: b :: c :: d :: rest =>
    refine .ite (.ite (.ok ?_) .missing) (.error _)
    simp

theorem parseNull_cons (a b c : UInt8) (rest : Bytes) :
    parseNull (a :: b :: c :: rest) = if [b, c] = crlf then .ok (.nil, 3)
      else .error (.invalidFormat "Invalid null encoding") := by
  rw [parseNull, if_neg (by simp)]
  rfl

theorem parseNull_firm : Firm parseNull parseNull := by
  intro buffer more
  match buffer with
  | [] | [_] | [_, _] => exact .missing
  | _ :: b :: c :: rest =>
    rw [List.cons_append, List.cons_append, List.cons_append, parseNull_cons, parseNull_cons]
    exact .ite (.ok (by simp)) (.error _)

theorem parseInline_firm : Firm (parseInline lim) (parseInline lim) := by
  intro buffer more
  unfold parseInline
  rw [List.findIdx?_append]
  cases hnl : buffer.findIdx? (· = 0x0A) with
  | some nl =>
    obtain ⟨hlt, -⟩ := List.findIdx?_eq_some_iff_getElem.mp hnl
    rw [Option.some_or]
    dsimp only
    rw [List.take_append_of_le_length hlt.le]
    exact .ite (.error _) (.ok hlt)
  | none =>
    rw [Option.none_or]
    dsimp only
    by_cases hlong : lim.inlineLen < buffer.length
    · -- the line is too long already, wherever it ends
      rw [if_pos hlong]
      cases hmore : more.findIdx? (· = 0x0A) with
      | some nl =>
        dsimp only [Option.map_some]
        rw [if_pos (by omega)]
        exact .error _
      | none =>
        dsimp only [Option.map_none]
        rw [if_pos (by rw [List.length_append]; omega)]
        exact .error _
    · rw [if_neg hlong]
      exact .missing

/-! ## Aggregates -/

theorem parseCount_firm (name : String) : Firm (parseCount lim name) (parseCount lim name) := by
  intro buffer more
  unfold parseCount
  exact (parseLength_steady buffer more).elim (fun _ => .missing) .error fun _ h =>
    .ite (.error _) (.ite (.error _) (.ok h))

section Elements

variable {P Q : Bytes → Except RespError (Value × Nat)}

theorem parseElements_steady (h : Firm P Q) (buffer more : Bytes) (n : Nat) :
    ∀ {position : Nat}, position ≤ buffer.length →
      Steady (fun a => a.2 ≤ buffer.length) (parseElements P buffer n position)
        (parseElements Q (buffer ++ more) n position) := by
  induction n with
  | zero => exact fun hpos => .ok hpos
  | succ n ih =>
    intro position hpos
    unfold parseElements
    refine .atEnd fun hlt => ?_
    refine (h.drop hlt.le more).elim (fun _ => .missing) .error fun a ha => ?_
    dsimp only
    exact (ih ha).elim (fun _ => .missing) .error fun _ h => .ok h

theorem parseEntries_steady (h : Firm P Q) (buffer more : Bytes) (n : Nat) :
    ∀ {position : Nat}, position ≤ buffer.length →
      Steady (fun a => a.2 ≤ buffer.length) (parseEntries P buffer n position)
        (parseEntries Q (buffer ++ more) n position) := by
  induction n with
  | zero => exact fun hpos => .ok hpos
  | succ n ih =>
    intro position hpos
    unfold parseEntries
    refine .atEnd fun hlt => ?_
    refine (h.drop hlt.le more).elim (fun _ => .missing) .error fun k hk => ?_
    dsimp only
    refine .atEnd fun hlt => ?_
    refine (h.drop hlt.le more).elim (fun _ => .missing) .error fun v hv => ?_
    dsimp only
    exact (ih hv).elim (fun _ => .missing) .error fun _ h => .ok h

theorem parseAggregate_firm (h : Firm P Q) (name : String) (make : List Value → Value) :
    Firm (parseAggregate lim name make P) (parseAggregate lim name make Q) := by
  intro buffer more
  unfold parseAggregate
  refine (parseCount_firm name buffer more).elim (fun _ => .missing) .error fun _ hcount => ?_
  dsimp only
  exact (parseElements_steady h buffer more _ hcount).elim (fun _ => .missing) .error
    fun _ h => .ok h

theorem parseArray_firm (h : Firm P Q) : Firm (parseArray lim P) (parseArray lim Q) := by
  intro buffer more
  unfold parseArray
  exact (parseLength_steady buffer more).elim (fun _ => .missing) .error fun _ hlen =>
    .ite (.ok hlen) (parseAggregate_firm h "array" .array buffer more)

theorem parseMap_firm (h : Firm P Q) : Firm (parseMap lim P) (parseMap lim Q) := by
  intro buffer more
  unfold parseMap
  refine (parseCount_firm "map" buffer more).elim (fun _ => .missing) .error fun _ hcount => ?_
  dsimp only
  exact (parseEntries_steady h buffer more _ hcount).elim (fun _ => .missing) .error
    fun _ h => .ok h

theorem parseAttribute_firm (h : Firm P Q) {P' Q' : Bytes → Except RespError (Value × Nat)}
    (h' : Firm P' Q') : Firm (parseAttribute lim P P') (parseAttribute lim Q Q') := by
  intro buffer more
  unfold parseAttribute
  refine (parseCount_firm "attribute" buffer more).elim (fun _ => .missing) .error
    fun _ hcount => ?_
  dsimp only
  refine (parseEntries_steady h buffer more _ hcount).elim (fun _ => .missing) .error fun _ _ => ?_
  dsimp only
  refine .atEnd fun hlt => ?_
  exact (h'.drop hlt.le more).elim (fun _ => .missing) .error fun _ h => .ok h

end Elements

/-! ## Dispatch -/

/-- **More bytes and more fuel do not change the answer**, unless bytes were missing. -/
theorem parseValueDepth_firm {fuel fuel' : Nat} (hfuel : fuel ≤ fuel') (depth : Nat)
    (allowInline : Bool) :
    Firm (fun b => parseValueDepth lim parseF64 fuel b depth allowInline)
      fun b => parseValueDepth lim parseF64 fuel' b depth allowInline := by
  induction fuel generalizing fuel' depth allowInline with
  | zero => exact fun _ _ => .missing
  | succ fuel ih =>
    obtain ⟨fuel', rfl⟩ : ∃ n, fuel' = n + 1 := ⟨fuel' - 1, by omega⟩
    have hnext := ih (Nat.le_of_succ_le_succ hfuel) depth false
    have hnested := ih (Nat.le_of_succ_le_succ hfuel) (depth + 1) false
    intro buffer more
    cases buffer with
    | nil => exact .missing
    | cons marker rest =>
      dsimp only
      rw [List.cons_append, parseValueDepth_cons, parseValueDepth_cons, ← List.cons_append]
      refine .ite (.error _) ?_
      refine .ite (parseText_firm _ _ more) ?_
      refine .ite (parseText_firm _ _ more) ?_
      refine .ite (parseInteger_firm _ more) ?_
      refine .ite (parseBulkString_firm _ more) ?_
      refine .ite (parseArray_firm hnested _ more) ?_
      refine .ite (parseBoolean_firm _ more) ?_
      refine .ite (parseDouble_firm _ more) ?_
      refine .ite (parseMap_firm hnested _ more) ?_
      refine .ite (parseAggregate_firm hnested _ _ _ more) ?_
      refine .ite (parseNull_firm _ more) ?_
      refine .ite (parseBigNumber_firm _ more) ?_
      refine .ite (parseBlobError_firm _ more) ?_
      refine .ite (parseVerbatim_firm _ more) ?_
      refine .ite (parseAggregate_firm hnested _ _ _ more) ?_
      refine .ite (parseAttribute_firm hnested hnext _ more) ?_
      exact .ite (parseInline_firm _ more) (.error _)

/-! ## Whole buffers -/

theorem parseValue_append {buffer : Bytes}
    (hne : parseValue lim parseF64 buffer ≠ .error .incomplete) (more : Bytes) :
    parseValue lim parseF64 (buffer ++ more) = parseValue lim parseF64 buffer := by
  have hfuel : buffer.length ≤ (buffer ++ more).length := by simp
  exact (parseValueDepth_firm hfuel 0 true).extends buffer more hne

theorem parseValue_within {v : Value} (h : parseValue lim parseF64 buffer = .ok (v, n)) :
    n ≤ buffer.length :=
  (parseValueDepth_firm le_rfl 0 true).within h

/-- Before its last byte a value is incomplete: otherwise the shorter buffer gave the value too,
with more bytes than it has. -/
theorem parseValue_take {v : Value} {n k : Nat} (h : parseValue lim parseF64 buffer = .ok (v, n))
    (hk : k < n) : parseValue lim parseF64 (buffer.take k) = .error .incomplete := by
  by_contra hne
  have hsame := parseValue_append hne (buffer.drop k)
  rw [List.take_append_drop, h] at hsame
  have hlen := parseValue_within hsame.symm
  rw [List.length_take] at hlen
  omega

/-- More bytes can make a value of it. -/
def Completable (lim : Limits) (parseF64 : String → Option F64) (buffer : Bytes) : Prop :=
  ∃ more v n, parseValue lim parseF64 (buffer ++ more) = .ok (v, n)

/-- What is an error now never becomes a value. -/
theorem not_completable {e : RespError} (h : parseValue lim parseF64 buffer = .error e)
    (he : e ≠ .incomplete) : ¬ Completable lim parseF64 buffer := by
  rintro ⟨more, v, n, hv⟩
  have hne : parseValue lim parseF64 buffer ≠ .error .incomplete := by
    rw [h]
    exact fun h => he (Except.error.inj h)
  rw [parseValue_append hne, h] at hv
  cases hv

/-- What can not be completed can not be completed with more bytes either. -/
theorem Completable.of_append {buffer more : Bytes}
    (h : Completable lim parseF64 (buffer ++ more)) : Completable lim parseF64 buffer := by
  obtain ⟨more', v, n, hv⟩ := h
  rw [List.append_assoc] at hv
  exact ⟨more ++ more', v, n, hv⟩

end Calod.Resp
