import Mathlib

/-!
# Words one after the other

When can what was written one after the other be told apart again? Words of a code of which none
starts another one, up to a mark that starts no word; words over an alphabet, up to a letter outside
of it; and words between separators, as far as each of them can be told apart before a separator.

* `PrefixFree.of_decode` — a code that can be read off the front is prefix-free
* `PrefixFree.comp` — letters that are themselves written in a prefix-free code
* `PrefixFree.sequence` — a sequence of words of a prefix-free code up to a mark
* `append_inj_of_letters` — a word over an alphabet up to another letter
* `forall₂_of_separated` — words between separators
* `Codec` — bytes and their reader, for numbers, pairs and lists
-/

namespace Lib

variable {α β : Type}

/-- Words that can be told apart, with anything behind them. -/
def PrefixFree (w : α → List β) : Prop :=
  ∀ a b r s, w a ++ r = w b ++ s → a = b ∧ r = s

theorem PrefixFree.of_decode {w : α → List β} (decode : List β → Option (α × List β))
    (h : ∀ a r, decode (w a ++ r) = some (a, r)) : PrefixFree w := by
  intro a b r s heq
  have hab := h a r
  rw [heq, h b s] at hab
  obtain ⟨rfl, rfl⟩ := Prod.mk.inj (Option.some.inj hab)
  exact ⟨rfl, rfl⟩

/-- Of two sequences of words that start the same text, one starts the other. -/
theorem PrefixFree.prefix_or {w : α → List β} (h : PrefixFree w) {as bs : List α} {r s : List β}
    (heq : as.flatMap w ++ r = bs.flatMap w ++ s) :
    (∃ t, bs = as ++ t ∧ r = t.flatMap w ++ s) ∨ ∃ t, as = bs ++ t ∧ s = t.flatMap w ++ r := by
  induction as generalizing bs with
  | nil => exact .inl ⟨bs, rfl, heq⟩
  | cons a as ih =>
    cases bs with
    | nil => exact .inr ⟨a :: as, rfl, heq.symm⟩
    | cons b bs =>
      rw [List.flatMap_cons, List.flatMap_cons, List.append_assoc, List.append_assoc] at heq
      obtain ⟨rfl, hrest⟩ := h a b _ _ heq
      rcases ih hrest with ⟨t, rfl, hr⟩ | ⟨t, rfl, hs⟩
      · exact .inl ⟨t, rfl, hr⟩
      · exact .inr ⟨t, rfl, hs⟩

/-- A sequence of words determines them. -/
theorem PrefixFree.flatMap_inj {w : α → List β} (h : PrefixFree w) (hne : ∀ a, w a ≠ [])
    {as bs : List α} (heq : as.flatMap w = bs.flatMap w) : as = bs := by
  have hnil : ∀ t, [] = t.flatMap w ++ [] → t = [] := by
    intro t ht
    cases t with
    | nil => rfl
    | cons a t =>
      rw [List.append_nil, List.flatMap_cons] at ht
      exact absurd (List.append_eq_nil_iff.mp ht.symm).1 (hne a)
  have heq' : as.flatMap w ++ [] = bs.flatMap w ++ [] := by rw [heq]
  rcases h.prefix_or heq' with ⟨t, rfl, ht⟩ | ⟨t, rfl, ht⟩
  · rw [hnil t ht, List.append_nil]
  · rw [hnil t ht, List.append_nil]

theorem PrefixFree.comp {γ : Type} {w : α → List β} {v : β → List γ} (hw : PrefixFree w)
    (hv : PrefixFree v) : PrefixFree fun a => (w a).flatMap v := by
  intro a b r s heq
  rcases hv.prefix_or heq with ⟨t, hb, hr⟩ | ⟨t, ha, hs⟩
  · obtain ⟨rfl, rfl⟩ := hw b a [] t (by rw [hb, List.append_nil])
    exact ⟨rfl, hr⟩
  · obtain ⟨rfl, rfl⟩ := hw a b [] t (by rw [ha, List.append_nil])
    exact ⟨rfl, hs.symm⟩

theorem PrefixFree.sequence {w : α → List β} (h : PrefixFree w) {stop : β}
    (hstop : ∀ a r s, w a ++ r ≠ stop :: s) {as bs : List α} {r s : List β}
    (heq : as.flatMap w ++ stop :: r = bs.flatMap w ++ stop :: s) : as = bs ∧ r = s := by
  induction as generalizing bs with
  | nil =>
    cases bs with
    | nil => exact ⟨rfl, (List.cons.inj heq).2⟩
    | cons b bs =>
      rw [List.flatMap_cons, List.append_assoc] at heq
      exact absurd heq.symm (hstop b _ _)
  | cons a as ih =>
    rw [List.flatMap_cons, List.append_assoc] at heq
    cases bs with
    | nil => exact absurd heq (hstop a _ _)
    | cons b bs =>
      rw [List.flatMap_cons, List.append_assoc] at heq
      obtain ⟨rfl, hrest⟩ := h a b _ _ heq
      obtain ⟨rfl, hr⟩ := ih hrest
      exact ⟨rfl, hr⟩

/-- A word ends where the letters of the alphabet end. -/
theorem append_inj_of_letters {p : β → Prop} {a b r s : List β} (ha : ∀ x ∈ a, p x)
    (hb : ∀ x ∈ b, p x) (hr : ∀ x ∈ r.head?, ¬ p x) (hs : ∀ x ∈ s.head?, ¬ p x)
    (h : a ++ r = b ++ s) : a = b ∧ r = s := by
  induction a generalizing b with
  | nil =>
    cases b with
    | nil => exact ⟨rfl, h⟩
    | cons y b =>
      rw [List.nil_append, List.cons_append] at h
      exact absurd (hb y List.mem_cons_self) (hr y (by rw [h]; rfl))
  | cons x a ih =>
    cases b with
    | nil =>
      rw [List.nil_append, List.cons_append] at h
      exact absurd (ha x List.mem_cons_self) (hs x (by rw [← h]; rfl))
    | cons y b =>
      obtain ⟨hxy, hrest⟩ := List.cons.inj h
      obtain ⟨hab, hrs⟩ := ih (fun z hz => ha z (List.mem_cons_of_mem _ hz))
        (fun z hz => hb z (List.mem_cons_of_mem _ hz)) hrest
      exact ⟨by rw [hxy, hab], hrs⟩

/-- Words of two codes that each stand behind a separator, up to a mark. -/
theorem forall₂_of_separated {γ : Type} {w : α → List γ} {w' : β → List γ} {E : α → β → Prop}
    {sep stop : γ} (hne : sep ≠ stop) {xs : List α} {ys : List β} {r s : List γ}
    (h : ∀ x ∈ xs, ∀ y ∈ ys, ∀ r s, (r.head? = some sep ∨ r.head? = some stop) →
      (s.head? = some sep ∨ s.head? = some stop) → w x ++ r = w' y ++ s → E x y ∧ r = s)
    (heq : xs.flatMap (fun x => sep :: w x) ++ stop :: r
      = ys.flatMap (fun y => sep :: w' y) ++ stop :: s) :
    List.Forall₂ E xs ys ∧ r = s := by
  have hhead : ∀ {δ} (v : δ → List γ) (zs : List δ) r,
      (zs.flatMap (fun z => sep :: v z) ++ stop :: r).head? = some sep ∨
        (zs.flatMap (fun z => sep :: v z) ++ stop :: r).head? = some stop := by
    intro δ v zs r
    cases zs with
    | nil => exact .inr rfl
    | cons z zs => exact .inl rfl
  induction xs generalizing ys with
  | nil =>
    cases ys with
    | nil => exact ⟨.nil, (List.cons.inj heq).2⟩
    | cons y ys => exact absurd (List.cons.inj heq).1.symm hne
  | cons x xs ih =>
    cases ys with
    | nil => exact absurd (List.cons.inj heq).1 hne
    | cons y ys =>
      simp only [List.flatMap_cons, List.cons_append, List.append_assoc] at heq
      obtain ⟨hxy, hrest⟩ := h x List.mem_cons_self y List.mem_cons_self _ _ (hhead w xs r)
        (hhead w' ys s) (List.cons.inj heq).2
      obtain ⟨hall, hrs⟩ := ih (fun x hx y hy => h x (List.mem_cons_of_mem _ hx) y
        (List.mem_cons_of_mem _ hy)) hrest
      exact ⟨.cons hxy hall, hrs⟩

/-! ## Codecs -/

/-- Bytes that say where they end. -/
structure Codec (α : Type) where
  write : α → List UInt8
  read : List UInt8 → Option (α × List UInt8)
  read_write : ∀ a rest, read (write a ++ rest) = some (a, rest)

namespace Codec

/-- As many ones as the number says, and a zero. -/
def readNat : List UInt8 → Option (Nat × List UInt8)
  | 0 :: rest => some (0, rest)
  | 1 :: rest => (readNat rest).map fun (n, rest) => (n + 1, rest)
  | _ => none

theorem readNat_write (n : Nat) (rest : List UInt8) :
    readNat (List.replicate n 1 ++ [0] ++ rest) = some (n, rest) := by
  induction n with
  | zero => rfl
  | succ n ih => rw [List.replicate_succ, List.cons_append, List.cons_append, readNat, ih]; rfl

def nat : Codec Nat := ⟨fun n => List.replicate n 1 ++ [0], readNat, readNat_write⟩

def readPair (c : Codec α) (d : Codec β) (bytes : List UInt8) : Option ((α × β) × List UInt8) :=
  (c.read bytes).bind fun (a, rest) => (d.read rest).map fun (b, rest) => ((a, b), rest)

theorem readPair_write (c : Codec α) (d : Codec β) (p : α × β) (rest : List UInt8) :
    readPair c d (c.write p.1 ++ d.write p.2 ++ rest) = some (p, rest) := by
  rw [readPair, List.append_assoc, c.read_write]
  simp [d.read_write]

def pair (c : Codec α) (d : Codec β) : Codec (α × β) :=
  ⟨fun p => c.write p.1 ++ d.write p.2, readPair c d, readPair_write c d⟩

def readItems (c : Codec α) : Nat → List UInt8 → Option (List α × List UInt8)
  | 0, bytes => some ([], bytes)
  | n + 1, bytes => (c.read bytes).bind fun (a, rest) =>
    (readItems c n rest).map fun (items, rest) => (a :: items, rest)

theorem readItems_write (c : Codec α) (items : List α) (rest : List UInt8) :
    readItems c items.length (items.flatMap c.write ++ rest) = some (items, rest) := by
  induction items with
  | nil => rfl
  | cons a items ih =>
    rw [List.flatMap_cons, List.append_assoc, List.length_cons, readItems, c.read_write]
    simp [ih]

def readList (c : Codec α) (bytes : List UInt8) : Option (List α × List UInt8) :=
  (readNat bytes).bind fun (n, rest) => readItems c n rest

theorem readList_write (c : Codec α) (items : List α) (rest : List UInt8) :
    readList c (nat.write items.length ++ items.flatMap c.write ++ rest) = some (items, rest) := by
  have hcount := nat.read_write items.length (items.flatMap c.write ++ rest)
  rw [readList, List.append_assoc, show readNat _ = _ from hcount]
  exact readItems_write c items rest

def list (c : Codec α) : Codec (List α) :=
  ⟨fun items => nat.write items.length ++ items.flatMap c.write, readList c, readList_write c⟩

end Codec

end Lib
