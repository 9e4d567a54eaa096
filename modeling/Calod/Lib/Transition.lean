import Mathlib

/-!
# Runs of a transition system

A system is a step function `S → A → Option S`; `none` means that the action is not enabled.
`Reach step P s₀ s` says that a run from `s₀` ends in `s`, all of whose steps satisfy `P`.

* `Reach.invariant` — what every admissible step preserves holds in every state reached
* `exists_reach_of_run` — what a computed run ends with, a reachable state has
* `sum_map_set` — how a count over all parties changes when one of them moves
-/

namespace Lib

variable {S A : Type} {step : S → A → Option S} {P Q : S → A → Prop} {s₀ s : S}

/-- The states reached from `s₀` by steps that satisfy `P`. -/
inductive Reach (step : S → A → Option S) (P : S → A → Prop) (s₀ : S) : S → Prop where
  | init : Reach step P s₀ s₀
  | step {s s' : S} {a : A} : Reach step P s₀ s → P s a → step s a = some s' → Reach step P s₀ s'

/-- **Invariant rule**, relative to what is already known of the states reached. -/
theorem Reach.invariant_of_reach {I : S → Prop} (hr : Reach step P s₀ s) (hinit : I s₀)
    (hstep : ∀ s a s', Reach step P s₀ s → I s → P s a → step s a = some s' → I s') : I s := by
  induction hr with
  | init => exact hinit
  | step hr hp hs ih => exact hstep _ _ _ hr ih hp hs

/-- **Invariant rule.** -/
theorem Reach.invariant {I : S → Prop} (hr : Reach step P s₀ s) (hinit : I s₀)
    (hstep : ∀ s a s', I s → P s a → step s a = some s' → I s') : I s :=
  hr.invariant_of_reach hinit fun s a s' _ => hstep s a s'

/-- A run whose steps meet a stronger condition meets the weaker one. -/
theorem Reach.mono (hr : Reach step P s₀ s) (hpq : ∀ s a, P s a → Q s a) :
    Reach step Q s₀ s := by
  induction hr with
  | init => exact .init
  | step _ hp hs ih => exact .step ih (hpq _ _ hp) hs

/-- A run can be continued. -/
theorem Reach.trans {s' : S} (hr : Reach step P s₀ s) (hr' : Reach step P s s') :
    Reach step P s₀ s' := by
  induction hr' with
  | init => exact hr
  | step _ hp hs ih => exact .step ih hp hs

/-- Perform a list of actions, as long as each is enabled and admitted by `p`. -/
def run (step : S → A → Option S) (p : S → A → Bool) (s : S) : List A → Option S
  | [] => some s
  | a :: as => if p s a then (step s a).bind fun s' => run step p s' as else none

/-- A run that was computed is a run. -/
theorem reach_of_run {p : S → A → Bool} {as : List A} : ∀ {s s' : S},
    Reach step (fun s a => p s a = true) s₀ s → run step p s as = some s' →
      Reach step (fun s a => p s a = true) s₀ s' := by
  induction as with
  | nil =>
    intro s s' hr h
    exact Option.some.inj h ▸ hr
  | cons a as ih =>
    intro s s' hr h
    rw [run] at h
    split at h
    · next hp =>
      obtain ⟨t, ht, h⟩ := Option.bind_eq_some_iff.mp h
      exact ih (hr.step hp ht) h
    · cases h

/-- What a computed run ends with, some reachable state has. -/
theorem exists_reach_of_run {B : Type} {p : S → A → Bool} {as : List A} {f : S → B} {b : B}
    (h : (run step p s₀ as).map f = some b) :
    ∃ s, Reach step (fun s a => p s a = true) s₀ s ∧ f s = b := by
  obtain ⟨s, hs, hf⟩ := Option.map_eq_some_iff.mp h
  exact ⟨s, reach_of_run .init hs, hf⟩

/-- Replacing one element changes a sum by the difference of the two. -/
theorem sum_map_set {α : Type} (f : α → Nat) (c' : α) : ∀ {l : List α} {i} {c},
    l[i]? = some c → ((l.set i c').map f).sum + f c = (l.map f).sum + f c'
  | _ :: _, 0, _, h => by
    cases h
    simp
    omega
  | d :: l, i + 1, c, h => by
    have := sum_map_set f c' (l := l) (i := i) h
    simp only [List.set_cons_succ, List.map_cons, List.sum_cons]
    omega

end Lib
