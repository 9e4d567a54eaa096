import Mathlib

/-!
# Unwinding

A machine answers one input after the other. Some inputs are visible to an observer, the others
are hidden. If hidden inputs do not change what the observer can tell apart, then the answers to
the visible ones are those of the run in which the hidden ones were never made (`purge`).
-/

namespace Lib

variable {S I O : Type}

/-- The inputs of a run, each with its answer. -/
def outputs (step : S → I → S × O) : S → List I → List (I × O)
  | _, [] => []
  | s, i :: rest => (i, (step s i).2) :: outputs step (step s i).1 rest

/--
A relation between the state of a run and that of its purged run, with the inputs still to come:
visible inputs get the same answer in both, hidden ones are made in the first alone.
-/
structure Unwinding (step : S → I → S × O) (visible : I → Bool) (R : List I → S → S → Prop) :
    Prop where
  output : ∀ {i rest s t}, R (i :: rest) s t → visible i = true → (step s i).2 = (step t i).2
  both : ∀ {i rest s t}, R (i :: rest) s t → visible i = true →
    R rest (step s i).1 (step t i).1
  hidden : ∀ {i rest s t}, R (i :: rest) s t → visible i = false → R rest (step s i).1 t

/-- **Erasing the hidden inputs leaves the visible answers as they are.** -/
theorem Unwinding.purge {step : S → I → S × O} {visible : I → Bool} {R : List I → S → S → Prop}
    (h : Unwinding step visible R) (inputs : List I) : ∀ {s t}, R inputs s t →
      (outputs step s inputs).filter (fun o => visible o.1)
        = outputs step t (inputs.filter visible) := by
  induction inputs with
  | nil => intro s t _; rfl
  | cons i rest ih =>
    intro s t hr
    rw [outputs]
    cases hv : visible i with
    | true =>
      rw [List.filter_cons_of_pos (by exact hv), ih (h.both hr hv), h.output hr hv,
        List.filter_cons_of_pos hv, outputs]
    | false =>
      rw [List.filter_cons_of_neg (by simp [hv]), List.filter_cons_of_neg (by simp [hv]),
        ih (h.hidden hr hv)]

end Lib
