import Mathlib

/-!
# Hash chains

A list whose entries are numbered `1, 2, …` and each name the hash of the entry before them.
`Links` says how an entry shows its number, its predecessor's hash and its own hash.

* `headAt l n` is the hash that the first `n` entries end with
* `Linked l` — numbers and predecessors are right throughout
* `IsHead l n h` — `(n, h)` was the head of the chain at some time
* `Follows l e` — `e` was built on some head of the chain. It stays true while the chain grows,
  so an entry built on an old head never leaves a gap (`IsHead.append`, `Follows.append`).
-/

namespace Lib

structure Links (E H : Type) where
  sequence : E → Int
  previous : E → H
  hash : E → H
  genesis : H

namespace Links

variable {E H : Type} (c : Links E H)

/-- The hash of the last entry. -/
def lastHash (l : List E) : H := (l.getLast?.map c.hash).getD c.genesis

/-- The hash after the first `n` entries. -/
def headAt (l : List E) (n : Nat) : H := c.lastHash (l.take n)

/-- Every entry has its position as number, and the hash before it as predecessor. -/
def Linked (l : List E) : Prop :=
  ∀ (i : Nat) (e : E), l[i]? = some e → c.sequence e = i + 1 ∧ c.previous e = c.headAt l i

/-- `(n, h)` is the head of a prefix of `l`. -/
def IsHead (l : List E) (n : Int) (h : H) : Prop :=
  ∃ k : Nat, k ≤ l.length ∧ n = k ∧ h = c.headAt l k

/-- `e` extends a prefix of `l`. -/
def Follows (l : List E) (e : E) : Prop :=
  ∃ n h, c.IsHead l n h ∧ c.sequence e = n + 1 ∧ c.previous e = h

theorem lastHash_append_singleton (l : List E) (e : E) : c.lastHash (l ++ [e]) = c.hash e := by
  simp [lastHash]

theorem headAt_length (l : List E) : c.headAt l l.length = c.lastHash l := by
  rw [headAt, List.take_length]

theorem headAt_append {l : List E} {n : Nat} (h : n ≤ l.length) (e : E) :
    c.headAt (l ++ [e]) n = c.headAt l n := by
  rw [headAt, headAt, List.take_append_of_le_length h]

variable {c}

theorem linked_nil : c.Linked [] := by
  intro i e h
  simp at h

/-- Appending an entry that names the last hash keeps the chain linked. -/
theorem Linked.append {l : List E} {e : E} (hl : c.Linked l)
    (hseq : c.sequence e = l.length + 1) (hprev : c.previous e = c.lastHash l) :
    c.Linked (l ++ [e]) := by
  intro i a hi
  have hlt : i < (l ++ [e]).length := (List.getElem?_eq_some_iff.mp hi).1
  rw [List.length_append, List.length_singleton] at hlt
  rcases Nat.lt_succ_iff_lt_or_eq.mp hlt with hlt | rfl
  · rw [List.getElem?_append_left hlt] at hi
    rw [headAt_append c (Nat.le_of_lt hlt)]
    exact hl i a hi
  · rw [List.getElem?_append_right (Nat.le_refl _), Nat.sub_self, List.getElem?_cons_zero,
      Option.some.injEq] at hi
    subst hi
    rw [headAt_append c (Nat.le_refl _), headAt_length]
    exact ⟨hseq, hprev⟩

/-- The entries of a linked chain stand in the order of their numbers. -/
theorem Linked.sorted {l : List E} (hl : c.Linked l) :
    l.Pairwise fun a b => c.sequence a ≤ c.sequence b := by
  rw [List.pairwise_iff_getElem]
  intro i j hi hj hij
  rw [(hl i l[i] (List.getElem?_eq_getElem hi)).1, (hl j l[j] (List.getElem?_eq_getElem hj)).1]
  omega

/-- A number occurs once in a linked chain. -/
theorem Linked.index_eq {l : List E} (hl : c.Linked l) {i j : Nat} {e : E}
    (hi : l[i]? = some e) (hj : l[j]? = some e) : i = j := by
  have h₁ := (hl i e hi).1
  have h₂ := (hl j e hj).1
  omega

/-- The numbers of a linked chain end at its length. -/
theorem Linked.sequence_le {l : List E} (hl : c.Linked l) {e : E} (he : e ∈ l) :
    c.sequence e ≤ l.length := by
  obtain ⟨i, hi⟩ := List.mem_iff_getElem?.mp he
  have hlt : i < l.length := (List.getElem?_eq_some_iff.mp hi).1
  have hseq := (hl i e hi).1
  omega

/-! ## Heads -/

theorem isHead_genesis (l : List E) : c.IsHead l 0 c.genesis :=
  ⟨0, Nat.zero_le _, rfl, rfl⟩

theorem isHead_last (l : List E) : c.IsHead l l.length (c.lastHash l) :=
  ⟨l.length, Nat.le_refl _, rfl, (headAt_length c l).symm⟩

theorem IsHead.append {l : List E} {n : Int} {h : H} (hh : c.IsHead l n h) (e : E) :
    c.IsHead (l ++ [e]) n h := by
  obtain ⟨k, hk, rfl, rfl⟩ := hh
  refine ⟨k, ?_, rfl, (headAt_append c hk e).symm⟩
  rw [List.length_append]
  omega

theorem Follows.append {l : List E} {e : E} (he : c.Follows l e) (a : E) :
    c.Follows (l ++ [a]) e := by
  obtain ⟨n, h, hh, hseq, hprev⟩ := he
  exact ⟨n, h, hh.append a, hseq, hprev⟩

/-- An entry that follows the chain is either covered already or goes right at its end. -/
theorem Follows.cases {l : List E} {e : E} (he : c.Follows l e) :
    c.sequence e ≤ l.length ∨
      (c.sequence e = l.length + 1 ∧ c.previous e = c.lastHash l) := by
  obtain ⟨n, h, ⟨k, hk, rfl, rfl⟩, hseq, hprev⟩ := he
  rcases Nat.lt_or_eq_of_le hk with hlt | rfl
  · left
    omega
  · right
    exact ⟨hseq, hprev.trans (headAt_length c l)⟩

end Links

end Lib
