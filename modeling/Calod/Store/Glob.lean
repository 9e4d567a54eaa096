import Calod.Store.Text

/-!
# Patterns

`glob_matches`, which `calod_shard.rs` has for keys and `pubsub.rs` for channels.

* `glob_exact` — it accepts the texts that the pattern describes piece by piece
-/

namespace Calod.Store

/-- `rec` of `glob_matches`: a star is nothing, or takes a byte and stays. -/
def globRec : Bytes → Bytes → Bool
  | [], t => t.isEmpty
  | ch :: p, [] => ch = 0x2A && globRec p []
  | ch :: p, b :: t =>
    if ch = 0x2A then globRec p (b :: t) || globRec (ch :: p) t
    else if ch = 0x3F then globRec p t
    else ch = b && globRec p t
termination_by p t => p.length + t.length

/-- `glob_matches` of `calod_shard.rs`. -/
def globMatches (pattern text : String) : Bool := globRec (Serde.utf8 pattern) (Serde.utf8 text)

/-- `glob_matches` of `pubsub.rs`. -/
def pubsubGlobMatches (pattern text : String) : Bool :=
  globRec (Serde.utf8 pattern) (Serde.utf8 text)

/-- A piece of the text for a byte of the pattern. -/
def Fits (ch : UInt8) (piece : Bytes) : Prop :=
  if ch = 0x2A then True else if ch = 0x3F then ∃ b, piece = [b] else piece = [ch]

/-- The text is the concatenation of pieces for the bytes of the pattern. -/
def Describes (p t : Bytes) : Prop :=
  ∃ pieces : List Bytes, t = pieces.flatten ∧ p.Forall₂ Fits pieces

theorem describes_cons {ch : UInt8} {p t : Bytes} :
    Describes (ch :: p) t ↔ ∃ piece rest, t = piece ++ rest ∧ Fits ch piece ∧ Describes p rest := by
  constructor
  · rintro ⟨pieces, rfl, h⟩
    cases h with
    | cons hfits hrest => exact ⟨_, _, rfl, hfits, _, rfl, hrest⟩
  · rintro ⟨piece, rest, rfl, hfits, pieces, rfl, hrest⟩
    exact ⟨piece :: pieces, rfl, .cons hfits hrest⟩

/-- One step of the matcher, as a step of the description. -/
theorem describes_star {p t : Bytes} {b : UInt8} :
    Describes (0x2A :: p) (b :: t) ↔ Describes p (b :: t) ∨ Describes (0x2A :: p) t := by
  simp only [describes_cons, Fits, if_true, true_and]
  constructor
  · rintro ⟨piece, rest, hsplit, h⟩
    cases piece with
    | nil => exact .inl (by rwa [hsplit])
    | cons c piece =>
      obtain ⟨rfl, rfl⟩ := List.cons.inj hsplit
      exact .inr ⟨piece, rest, rfl, h⟩
  · rintro (h | ⟨piece, rest, rfl, h⟩)
    · exact ⟨[], _, rfl, h⟩
    · exact ⟨b :: piece, rest, rfl, h⟩

theorem globRec_iff (p t : Bytes) : globRec p t = true ↔ Describes p t := by
  fun_induction globRec p t with
  | case1 t =>
    rw [List.isEmpty_iff]
    constructor
    · rintro rfl
      exact ⟨[], rfl, .nil⟩
    · rintro ⟨pieces, rfl, h⟩
      cases h
      rfl
  | case2 ch p ih =>
    rw [Bool.and_eq_true_iff, ih, decide_eq_true_iff, describes_cons]
    constructor
    · rintro ⟨rfl, h⟩
      exact ⟨[], [], rfl, trivial, h⟩
    · rintro ⟨piece, rest, hsplit, hfits, h⟩
      obtain ⟨rfl, rfl⟩ := List.append_eq_nil_iff.mp hsplit.symm
      refine ⟨?_, h⟩
      by_contra hne
      simp [Fits, hne] at hfits
  | case3 p b t ih ih' => rw [Bool.or_eq_true_iff, ih, ih', describes_star]
  | case4 p b t hne ih =>
    rw [ih, describes_cons]
    simp [Fits]
  | case5 ch p b t hne hne' ih =>
    rw [Bool.and_eq_true_iff, ih, decide_eq_true_iff, describes_cons]
    simp only [Fits, if_neg hne, if_neg hne']
    constructor
    · rintro ⟨rfl, h⟩
      exact ⟨[ch], t, rfl, rfl, h⟩
    · rintro ⟨_, rest, hsplit, rfl, h⟩
      obtain ⟨rfl, rfl⟩ := List.cons.inj hsplit
      exact ⟨rfl, h⟩

/--
**The matcher recognises exactly the language of the pattern**, for all bytes, and keys and channels
are matched alike.
-/
theorem glob_exact :
    (∀ p t : Bytes, globRec p t = true ↔ Describes p t) ∧
    ∀ pattern text : String, globMatches pattern text = pubsubGlobMatches pattern text :=
  ⟨globRec_iff, fun _ _ => rfl⟩

end Calod.Store
