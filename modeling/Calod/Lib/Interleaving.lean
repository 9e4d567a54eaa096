import Calod.Lib.Transition

/-!
# Interleaved scripts over a shared memory

A `Script` is a program that accesses a memory `K → Option V` in atomic steps, each at one key; what
it does next depends on what it has found. Several jobs run their scripts side by side, in any order
of their steps.

* `Script.run_congr`, `Script.run_frame` — a script depends on and changes its own keys only
* `serializable` — if jobs that overlap in time have no key in common, the replies and the memory
  are those of the jobs one after the other, in the order in which they have ended
-/

namespace Lib

variable {K V ε α β ι : Type}

/-- End with a result, or change what is under a key and go on with what was there. -/
inductive Script (K V ε α : Type) where
  | done (result : Except ε α)
  | step (key : K) (write : Option V → Option V) (next : Option V → Script K V ε α)

namespace Script

def bind (p : Script K V ε α) (f : α → Script K V ε β) : Script K V ε β :=
  match p with
  | done (.ok a) => f a
  | done (.error e) => done (.error e)
  | step key write next => step key write fun v => (next v).bind f

instance : Monad (Script K V ε) where
  pure a := done (.ok a)
  bind := bind

def fail (e : ε) : Script K V ε α := done (.error e)

/-- Read what is under a key. -/
def get (key : K) : Script K V ε (Option V) := step key id fun v => done (.ok v)

/-- Remove what is under a key. -/
def remove (key : K) : Script K V ε (Option V) := step key (fun _ => none) fun v => done (.ok v)

/-- Put a value under a key. -/
def insert (key : K) (value : V) : Script K V ε (Option V) :=
  step key (fun _ => some value) fun v => done (.ok v)

/-- Run the script for each element of a list, in order. -/
def each (p : α → Script K V ε Unit) : List α → Script K V ε Unit
  | [] => pure ()
  | a :: rest => p a >>= fun _ => each p rest

/-! ## The keys of a script -/

/-- All accesses are at keys of the list. -/
def Within (keys : List K) : Script K V ε α → Prop
  | done _ => True
  | step key _ next => key ∈ keys ∧ ∀ v, (next v).Within keys

variable {keys : List K} {p : Script K V ε α}

theorem within_bind (hp : p.Within keys) {f : α → Script K V ε β} (hf : ∀ a, (f a).Within keys) :
    (p >>= f).Within keys := by
  show (p.bind f).Within keys
  induction p with
  | done result =>
    cases result with
    | ok a => exact hf a
    | error e => exact trivial
  | step key write next ih => exact ⟨hp.1, fun v => ih v (hp.2 v)⟩

/-! ## A script that runs alone -/

section

variable [DecidableEq K]

/-- Run a script to its end. -/
def run : Script K V ε α → (K → Option V) → Except ε α × (K → Option V)
  | done result, m => (result, m)
  | step key write next, m => (next (m key)).run (Function.update m key (write (m key)))

theorem run_bind (p : Script K V ε α) (f : α → Script K V ε β) (m : K → Option V) :
    (p >>= f).run m = match p.run m with
      | (.ok a, m') => (f a).run m'
      | (.error e, m') => (.error e, m') := by
  show (p.bind f).run m = _
  induction p generalizing m with
  | done result => cases result <;> rfl
  | step key write next ih => exact ih _ _

/-- The other keys keep what they have. -/
theorem run_frame (h : p.Within keys) (m : K → Option V) {k : K} (hk : k ∉ keys) :
    (p.run m).2 k = m k := by
  induction p generalizing m with
  | done result => rfl
  | step key write next ih =>
    refine (ih _ (h.2 _) _).trans (Function.update_of_ne ?_ _ _)
    rintro rfl
    exact hk h.1

/-- What the other keys have does not matter. -/
theorem run_congr (h : p.Within keys) {m m' : K → Option V} (hm : ∀ k ∈ keys, m k = m' k) :
    (p.run m).1 = (p.run m').1 ∧ ∀ k ∈ keys, (p.run m).2 k = (p.run m').2 k := by
  induction p generalizing m m' with
  | done result => exact ⟨rfl, hm⟩
  | step key write next ih =>
    have hkey := hm key h.1
    rw [run, run, hkey]
    refine ih _ (h.2 _) fun k hk => ?_
    by_cases hk' : k = key
    · rw [hk', Function.update_self, Function.update_self]
    · rw [Function.update_of_ne hk', Function.update_of_ne hk']
      exact hm k hk

end

end Script

/-! ## Jobs side by side -/

/-- A job: its script, and the keys it stays within. -/
structure Job (K V ε α : Type) where
  keys : List K
  script : Script K V ε α
  within : script.Within keys

inductive Stage (K V ε α : Type) where
  | waiting
  | running (rest : Script K V ε α)
  | finished (reply : Except ε α)

/-- The memory, and how far each job is. -/
structure Jobs (K V ε α ι : Type) where
  memory : K → Option V
  phase : ι → Stage K V ε α

inductive JobAction (ι : Type) where
  | start (i : ι)
  | advance (i : ι)

namespace Jobs

def init (m : K → Option V) : Jobs K V ε α ι := ⟨m, fun _ => .waiting⟩

section

variable [DecidableEq ι]

theorem update_cases {f : ι → β} {i j : ι} {x y : β} (h : Function.update f i x j = y) :
    j = i ∧ x = y ∨ j ≠ i ∧ f j = y := by
  by_cases hj : j = i
  · subst hj
    exact .inl ⟨rfl, by rwa [Function.update_self] at h⟩
  · exact .inr ⟨hj, by rwa [Function.update_of_ne hj] at h⟩

/-- A job that has not ended goes on: the others have ended as before. -/
theorem finished_update {s : Jobs K V ε α ι} {i : ι} {p : Script K V ε α}
    (hi : ∀ reply, s.phase i ≠ .finished reply) (j : ι) (reply : Except ε α) :
    Function.update s.phase i (.running p) j = .finished reply ↔ s.phase j = .finished reply := by
  by_cases hj : j = i
  · subst hj
    rw [Function.update_self]
    exact ⟨nofun, fun h => absurd h (hi reply)⟩
  · rw [Function.update_of_ne hj]

end

/-- A job starts only when no running one has a key in common with it. -/
def Apart (jobs : ι → Job K V ε α) (s : Jobs K V ε α ι) : JobAction ι → Prop
  | .start i => ∀ j rest, s.phase j = .running rest → (jobs i).keys.Disjoint (jobs j).keys
  | .advance _ => True

variable [DecidableEq K] (jobs : ι → Job K V ε α)

/-- One job after the other: the replies, and the memory at the end. -/
def serial (order : List ι) (m : K → Option V) : List (ι × Except ε α) × (K → Option V) :=
  order.foldl (fun acc i => (acc.1 ++ [(i, ((jobs i).script.run acc.2).1)],
    ((jobs i).script.run acc.2).2)) ([], m)

theorem serial_append (order : List ι) (i : ι) (m : K → Option V) :
    serial jobs (order ++ [i]) m =
      ((serial jobs order m).1 ++ [(i, ((jobs i).script.run (serial jobs order m).2).1)],
        ((jobs i).script.run (serial jobs order m).2).2) := by
  simp only [serial, List.foldl_append, List.foldl_cons, List.foldl_nil]

variable [DecidableEq ι]

/-- A job starts, makes a step, or replies. -/
def step (s : Jobs K V ε α ι) : JobAction ι → Option (Jobs K V ε α ι)
  | .start i =>
    match s.phase i with
    | .waiting => some { s with phase := Function.update s.phase i (.running (jobs i).script) }
    | _ => none
  | .advance i =>
    match s.phase i with
    | .running (.done reply) =>
      some { s with phase := Function.update s.phase i (.finished reply) }
    | .running (.step key write next) =>
      some ⟨Function.update s.memory key (write (s.memory key)),
        Function.update s.phase i (.running (next (s.memory key)))⟩
    | _ => none

end Jobs

/-! ## The order in which the jobs have ended -/

section

variable [DecidableEq K]

/-- A job that has `p` still to do: in `memory` that leads to the reply and to the values of its
keys that the whole job leads to in `m`. -/
structure Job.Midway (job : Job K V ε α) (m memory : K → Option V) (p : Script K V ε α) :
    Prop where
  within : p.Within job.keys
  reply : (p.run memory).1 = (job.script.run m).1
  rest : ∀ k ∈ job.keys, (p.run memory).2 k = (job.script.run m).2 k

variable {job : Job K V ε α} {m m' memory memory' : K → Option V} {p : Script K V ε α}

theorem Job.midway_start (h : ∀ k ∈ job.keys, memory k = m k) :
    job.Midway m memory job.script :=
  ⟨job.within, (Script.run_congr job.within h).1, (Script.run_congr job.within h).2⟩

/-- Other keys do not matter. -/
theorem Job.Midway.congr (h : job.Midway m memory p) (hm : ∀ k ∈ job.keys, m k = m' k)
    (hmem : ∀ k ∈ job.keys, memory k = memory' k) : job.Midway m' memory' p := by
  obtain ⟨hr, hk⟩ := Script.run_congr job.within hm
  obtain ⟨hr', hk'⟩ := Script.run_congr h.within hmem
  exact ⟨h.within, hr'.symm.trans (h.reply.trans hr),
    fun k hkey => (hk' k hkey).symm.trans ((h.rest k hkey).trans (hk k hkey))⟩

/-- One access. -/
theorem Job.Midway.access {key : K} {write : Option V → Option V}
    {next : Option V → Script K V ε α} (h : job.Midway m memory (.step key write next)) :
    job.Midway m (Function.update memory key (write (memory key))) (next (memory key)) :=
  ⟨h.within.2 _, h.reply, h.rest⟩

namespace Jobs

/-- The jobs that have ended, in the order in which they have, lead to `serial`; each running one
is on its way from there, and no two of them have a key in common. -/
structure Explained (jobs : ι → Job K V ε α) (m₀ : K → Option V) (order : List ι)
    (s : Jobs K V ε α ι) : Prop where
  nodup : order.Nodup
  ended : ∀ i, i ∈ order ↔ ∃ reply, s.phase i = .finished reply
  replies : ∀ r ∈ (serial jobs order m₀).1, s.phase r.1 = .finished r.2
  apart : ∀ i j p q, i ≠ j → s.phase i = .running p → s.phase j = .running q →
    (jobs i).keys.Disjoint (jobs j).keys
  midway : ∀ i p, s.phase i = .running p →
    (jobs i).Midway (serial jobs order m₀).2 s.memory p
  idle : ∀ k, (∀ i p, s.phase i = .running p → k ∉ (jobs i).keys) →
    s.memory k = (serial jobs order m₀).2 k

variable {jobs : ι → Job K V ε α} {m₀ : K → Option V} {order : List ι}
  {s s' : Jobs K V ε α ι} {i : ι}

theorem explained_init : Explained jobs m₀ [] (init m₀ : Jobs K V ε α ι) where
  nodup := .nil
  ended i := ⟨fun h => (List.not_mem_nil h).elim, fun h => by
    obtain ⟨_, h⟩ := h
    cases h⟩
  replies r h := (List.not_mem_nil h).elim
  apart _ _ _ _ _ h := by cases h
  midway _ _ h := by cases h
  idle _ _ := rfl

variable [DecidableEq ι]

section

variable (h : Explained jobs m₀ order s)

include h

/-- A job goes on, with keys that no other running job has. -/
theorem Explained.move {memory : K → Option V} {p : Script K V ε α}
    (hne : ∀ reply, s.phase i ≠ .finished reply)
    (hapart : ∀ l q, l ≠ i → s.phase l = .running q → (jobs i).keys.Disjoint (jobs l).keys)
    (hself : (jobs i).Midway (serial jobs order m₀).2 memory p)
    (hothers : ∀ j q, j ≠ i → s.phase j = .running q →
      (jobs j).Midway (serial jobs order m₀).2 memory q)
    (hidle : ∀ k, k ∉ (jobs i).keys → (∀ j q, s.phase j = .running q → k ∉ (jobs j).keys) →
      memory k = (serial jobs order m₀).2 k) :
    Explained jobs m₀ order ⟨memory, Function.update s.phase i (.running p)⟩ := by
  refine ⟨h.nodup, fun j => ?_, fun r hr => ?_, fun j l p q hjl hp hq => ?_, fun j p hp => ?_,
    fun k hk => ?_⟩
  · exact (h.ended j).trans (exists_congr fun reply => (finished_update hne j reply).symm)
  · exact (finished_update hne r.1 r.2).mpr (h.replies r hr)
  · rcases update_cases hp with ⟨rfl, -⟩ | ⟨hj, hold⟩ <;>
      rcases update_cases hq with ⟨rfl, -⟩ | ⟨hl, hold'⟩
    · exact absurd rfl hjl
    · exact hapart l q hl hold'
    · exact (hapart j p hj hold).symm
    · exact h.apart j l p q hjl hold hold'
  · rcases update_cases hp with ⟨rfl, hnew⟩ | ⟨hj, hold⟩
    · cases hnew
      exact hself
    · exact hothers j p hj hold
  · have hki := hk i _ (Function.update_self ..)
    refine hidle k hki fun j q hq => ?_
    by_cases hj : j = i
    · exact hj ▸ hki
    · exact hk j q ((Function.update_of_ne hj ..).trans hq)

/-- The keys of a job that may start are as the ended jobs have left them. -/
theorem Explained.start (hi : s.phase i = .waiting) (ha : s.Apart jobs (.start i)) :
    Explained jobs m₀ order
      { s with phase := Function.update s.phase i (.running (jobs i).script) } := by
  refine h.move (fun _ hf => nomatch hi.symm.trans hf) (fun l q _ hq => ha l q hq) ?_
    (fun j q _ hq => h.midway j q hq) fun k _ hk => h.idle k hk
  exact Job.midway_start fun k hk => h.idle k fun l q hq hkl => ha l q hq hk hkl

/-- An access is at a key that no other running job has. -/
theorem Explained.access {key : K} {write : Option V → Option V} {next : Option V → Script K V ε α}
    (hi : s.phase i = .running (.step key write next)) :
    Explained jobs m₀ order ⟨Function.update s.memory key (write (s.memory key)),
      Function.update s.phase i (.running (next (s.memory key)))⟩ := by
  have hkey : key ∈ (jobs i).keys := (h.midway i _ hi).within.1
  refine h.move (fun _ hf => nomatch hi.symm.trans hf)
    (fun l q hl hq => h.apart i l _ q hl.symm hi hq) (h.midway i _ hi).access
    (fun j q hj hq => ?_) fun k hki hk => ?_
  · refine (h.midway j q hq).congr (fun _ _ => rfl) fun k hk => ?_
    refine (Function.update_of_ne ?_ ..).symm
    rintro rfl
    exact h.apart j i q _ hj hq hi hk hkey
  · refine (Function.update_of_ne ?_ ..).trans (h.idle k hk)
    rintro rfl
    exact hki hkey

/-- A job that replies is the next one of the order. -/
theorem Explained.finish {reply : Except ε α} (hi : s.phase i = .running (.done reply)) :
    Explained jobs m₀ (order ++ [i])
      { s with phase := Function.update s.phase i (.finished reply) } := by
  have hmid := h.midway i _ hi
  have hnot : i ∉ order := fun hm => by
    obtain ⟨r, hr⟩ := (h.ended i).mp hm
    rw [hi] at hr
    cases hr
  have hframe : ∀ {k}, k ∉ (jobs i).keys →
      (serial jobs (order ++ [i]) m₀).2 k = (serial jobs order m₀).2 k := by
    intro k hk
    rw [serial_append]
    exact Script.run_frame (jobs i).within _ hk
  refine ⟨?_, fun j => ?_, fun r hr => ?_, fun j l p q hjl hp hq => ?_, fun j p hp => ?_,
    fun k hk => ?_⟩
  · exact List.nodup_append.mpr ⟨h.nodup, List.nodup_singleton i, fun a ha b hb => by
      rw [List.mem_singleton.mp hb]
      rintro rfl
      exact hnot ha⟩
  · rw [List.mem_append, List.mem_singleton, h.ended]
    by_cases hj : j = i
    · subst hj
      exact ⟨fun _ => ⟨reply, Function.update_self ..⟩, fun _ => .inr rfl⟩
    · show _ ↔ ∃ r, Function.update s.phase i _ j = _
      rw [Function.update_of_ne hj]
      exact or_iff_left hj
  · rw [serial_append, List.mem_append, List.mem_singleton] at hr
    rcases hr with hr | rfl
    · have hr := h.replies r hr
      refine (Function.update_of_ne ?_ ..).trans hr
      intro he
      rw [he, hi] at hr
      cases hr
    · exact (Function.update_self ..).trans (congrArg Stage.finished hmid.reply)
  · rcases update_cases hp with ⟨rfl, hnew⟩ | ⟨hj, hold⟩
    · cases hnew
    · rcases update_cases hq with ⟨rfl, hnew⟩ | ⟨hl, hold'⟩
      · cases hnew
      · exact h.apart j l p q hjl hold hold'
  · rcases update_cases hp with ⟨rfl, hnew⟩ | ⟨hj, hold⟩
    · cases hnew
    · refine (h.midway j p hold).congr (fun k hk => (hframe fun hki => ?_).symm) fun _ _ => rfl
      exact h.apart j i p _ hj hold hi hk hki
  · have hk' : ∀ j p, j ≠ i → s.phase j = .running p → k ∉ (jobs j).keys :=
      fun j p hj hp => hk j p ((Function.update_of_ne hj ..).trans hp)
    by_cases hki : k ∈ (jobs i).keys
    · rw [serial_append]
      exact hmid.rest k hki
    · rw [hframe hki]
      refine h.idle k fun j p hp => ?_
      by_cases hj : j = i
      · exact hj ▸ hki
      · exact hk' j p hj hp

theorem Explained.step {a : JobAction ι} (ha : s.Apart jobs a) (hs : s.step jobs a = some s') :
    ∃ order, Explained jobs m₀ order s' := by
  cases a with
  | start i =>
    simp only [Jobs.step] at hs
    split at hs
    · next hi =>
      cases hs
      exact ⟨order, h.start hi ha⟩
    · cases hs
  | advance i =>
    simp only [Jobs.step] at hs
    split at hs
    · next hi =>
      cases hs
      exact ⟨_, h.finish hi⟩
    · next hi =>
      cases hs
      exact ⟨order, h.access hi⟩
    · cases hs

end

/-- **Jobs that overlap in time and have no key in common are serializable.** -/
theorem serializable (hr : Reach (step jobs) (Apart jobs) (init m₀) s)
    (hf : ∀ i, ∃ reply, s.phase i = .finished reply) :
    ∃ order : List ι, order.Nodup ∧ (∀ i, i ∈ order) ∧
      (serial jobs order m₀).2 = s.memory ∧
      ∀ r ∈ (serial jobs order m₀).1, s.phase r.1 = .finished r.2 := by
  obtain ⟨order, h⟩ : ∃ order, Explained jobs m₀ order s :=
    hr.invariant (I := fun s => ∃ order, Explained jobs m₀ order s) ⟨[], explained_init⟩
      fun _ _ _ ⟨_, h⟩ ha hs => h.step ha hs
  refine ⟨order, h.nodup, fun i => (h.ended i).mpr (hf i), funext fun k => ?_, h.replies⟩
  refine (h.idle k fun i p hp => ?_).symm
  obtain ⟨reply, hreply⟩ := hf i
  rw [hp] at hreply
  cases hreply

end Jobs

end

end Lib
