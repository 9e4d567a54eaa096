import Mathlib.Data.List.Basic

/-!
# Programs over a state

`Prog ι σ ε α` reads an input `ι`, changes a state `σ` and ends with a value or a failure; a program
that fails keeps the changes it has made.

A judgement that `Composes` holds of whatever is put together from programs it holds of.

`Uses perform P m` says that `m` is put together from operations `perform o` with `P o`, and from
nothing else that touches input or state. From it follow, by induction on how `m` is put together:

* `Uses.preserves` — what every such operation preserves, `m` preserves
* `Uses.alike` — if every such operation answers alike from related inputs and states, and leaves
  related states, then `m` ends alike and in related states
-/

namespace Lib

variable {ι σ ε α β : Type}

def Prog (ι σ ε α : Type) := ι → σ → Except ε α × σ

namespace Prog

instance : Monad (Prog ι σ ε) where
  pure a := fun _ s => (.ok a, s)
  bind m f := fun i s =>
    match m i s with
    | (.ok a, s') => f a i s'
    | (.error e, s') => (.error e, s')

/-- End with `r`, whatever it is. -/
def ofExcept (r : Except ε α) : Prog ι σ ε α := fun _ s => (r, s)

def fail (e : ε) : Prog ι σ ε α := ofExcept (.error e)

/-- Run `m`; `f` says what becomes of a failure. -/
def rescue (m : Prog ι σ ε α) (f : ε → Except ε α) : Prog ι σ ε α := fun i s =>
  ((m i s).1.tryCatch f, (m i s).2)

/-- Run `m` for each element of a list, in order. -/
def each (m : α → Prog ι σ ε Unit) : List α → Prog ι σ ε Unit
  | [] => pure ()
  | a :: rest => m a >>= fun _ => each m rest

/-- The values of `m` on the elements of a list, in order. -/
def collect (m : α → Prog ι σ ε β) : List α → Prog ι σ ε (List β)
  | [] => pure []
  | a :: rest => m a >>= fun b => collect m rest >>= fun bs => pure (b :: bs)

theorem bind_apply (m : Prog ι σ ε α) (f : α → Prog ι σ ε β) (i : ι) (s : σ) :
    (m >>= f) i s = match m i s with
      | (.ok a, s') => f a i s'
      | (.error e, s') => (.error e, s') := rfl

/-- What every round preserves, the loop preserves. -/
theorem each_preserves {m : α → Prog ι σ ε Unit} {J : σ → Prop} {i : ι} {l : List α}
    (h : ∀ a ∈ l, ∀ s, J s → J (m a i s).2) {s : σ} (hs : J s) : J (each m l i s).2 := by
  induction l generalizing s with
  | nil => exact hs
  | cons a rest ih =>
    have ha := h a (List.mem_cons_self ..) s hs
    rw [each, bind_apply]
    revert ha
    rcases m a i s with ⟨e | _, t⟩
    · exact fun ht => ht
    · exact fun ht => ih (fun b hb => h b (List.mem_cons_of_mem _ hb)) ht

/-! ## Judgements that compose -/

structure Composes (J : ∀ α : Type, Prog ι σ ε α → Prop) : Prop where
  pure : ∀ {α : Type} (a : α), J α (Pure.pure a)
  bind : ∀ {α β : Type} {m : Prog ι σ ε α} {f : α → Prog ι σ ε β},
    J α m → (∀ a, J β (f a)) → J β (m >>= f)

namespace Composes

variable {J : ∀ α : Type, Prog ι σ ε α → Prop} (hJ : Composes J) {l : List α}

include hJ

theorem each {m : α → Prog ι σ ε Unit} (h : ∀ a ∈ l, J _ (m a)) : J _ (each m l) := by
  induction l with
  | nil => exact hJ.pure ()
  | cons a rest ih =>
    refine hJ.bind (h a (List.mem_cons_self ..)) fun _ => ih fun b hb => ?_
    exact h b (List.mem_cons_of_mem _ hb)

theorem collect {m : α → Prog ι σ ε β} (h : ∀ a ∈ l, J _ (m a)) : J _ (collect m l) := by
  induction l with
  | nil => exact hJ.pure []
  | cons a rest ih =>
    refine hJ.bind (h a (List.mem_cons_self ..)) fun _ => hJ.bind (ih fun b hb => ?_) fun _ =>
      hJ.pure _
    exact h b (List.mem_cons_of_mem _ hb)

end Composes

/-! ## What a program is put together from -/

section

variable {O : Type} {Ans : O → Type}

inductive Uses (perform : ∀ o, Prog ι σ ε (Ans o)) (P : O → Prop) :
    {α : Type} → Prog ι σ ε α → Prop where
  | op (o : O) : P o → Uses perform P (perform o)
  | ofExcept {α : Type} (r : Except ε α) : Uses perform P (ofExcept r)
  | bind {α β : Type} {m : Prog ι σ ε α} {f : α → Prog ι σ ε β} :
      Uses perform P m → (∀ a, Uses perform P (f a)) → Uses perform P (m >>= f)
  | rescue {α : Type} {m : Prog ι σ ε α} (f : ε → Except ε α) :
      Uses perform P m → Uses perform P (rescue m f)

namespace Uses

variable {perform : ∀ o, Prog ι σ ε (Ans o)} {P Q : O → Prop}

theorem pure (a : α) : Uses perform P (Pure.pure a : Prog ι σ ε α) := .ofExcept (.ok a)

theorem fail (e : ε) : Uses perform P (fail e : Prog ι σ ε α) := .ofExcept (.error e)

theorem composes : Composes fun α (m : Prog ι σ ε α) => Uses perform P m := ⟨pure, .bind⟩

theorem each {m : α → Prog ι σ ε Unit} {l : List α} (h : ∀ a ∈ l, Uses perform P (m a)) :
    Uses perform P (each m l) := composes.each h

theorem collect {m : α → Prog ι σ ε β} {l : List α} (h : ∀ a ∈ l, Uses perform P (m a)) :
    Uses perform P (collect m l) := composes.collect h

/-- What every operation preserves on the input `i`, the program preserves. -/
theorem preserves {m : Prog ι σ ε α} (hm : Uses perform P m) {J : σ → Prop} {i : ι}
    (h : ∀ o s, P o → J s → J (perform o i s).2) {s : σ} (hs : J s) : J (m i s).2 := by
  induction hm generalizing s with
  | op o ho => exact h o s ho hs
  | ofExcept r => exact hs
  | @bind α β m f _ _ ihm ihf =>
    have hm := ihm hs
    rw [bind_apply]
    revert hm
    rcases m i s with ⟨e | a, t⟩
    · exact fun ht => ht
    · exact fun ht => ihf a ht
  | rescue f _ ih => exact ih hs

/-- If every operation answers alike in related states, the program ends alike. -/
theorem alike {m : Prog ι σ ε α} (hm : Uses perform P m) {R : σ → σ → Prop} {i j : ι}
    (h : ∀ o s t, P o → R s t →
      (perform o i s).1 = (perform o j t).1 ∧ R (perform o i s).2 (perform o j t).2)
    {s t : σ} (hs : R s t) : (m i s).1 = (m j t).1 ∧ R (m i s).2 (m j t).2 := by
  induction hm generalizing s t with
  | op o ho => exact h o s t ho hs
  | ofExcept r => exact ⟨rfl, hs⟩
  | @bind α β m f _ _ ihm ihf =>
    obtain ⟨hr, ht⟩ := ihm hs
    rw [bind_apply, bind_apply]
    revert hr ht
    rcases m i s with ⟨r, s'⟩
    rcases m j t with ⟨r', t'⟩
    rintro rfl ht
    cases r with
    | ok a => exact ihf a ht
    | error e => exact ⟨rfl, ht⟩
  | rescue f _ ih =>
    obtain ⟨hr, ht⟩ := ih hs
    exact ⟨congrArg (Except.tryCatch · f) hr, ht⟩

end Uses

end

end Prog

end Lib
