import Calod.Store.Strings
import Calod.Store.Collections

/-!
# Counters

`INCR`, `DECR`, `INCRBY`, `DECRBY` and `HINCRBY` on a number that is stored: as an integer, as text
or as the text of a hash field. The sums of the source are plain `+` and `-` on `i64`, which wrap
around in a release build.

* `counter_exact_iff` — the command stores and returns the exact result exactly if that is an `i64`
-/

namespace Calod.Store

open Lib Handler Store.Sample

/-- The range of `i64`. -/
def InI64 (n : Int) : Prop := -2 ^ 63 ≤ n ∧ n < 2 ^ 63

instance (n : Int) : Decidable (InI64 n) := inferInstanceAs (Decidable (_ ∧ _))

theorem inI64_wrapI64 (n : Int) : InI64 (wrapI64 n) := by
  have hlo : -((2 ^ 64 : Nat) / 2 : Int) ≤ n.bmod (2 ^ 64) := Int.le_bmod (by decide)
  have hhi : n.bmod (2 ^ 64) < (((2 ^ 64 : Nat) : Int) + 1) / 2 := Int.bmod_lt (by decide)
  unfold InI64 wrapI64
  omega

/-- Only a number out of range wraps. -/
theorem wrapI64_eq_iff {n : Int} : wrapI64 n = n ↔ InI64 n := by
  constructor
  · intro h
    rw [← h]
    exact inI64_wrapI64 n
  · rintro ⟨hlo, hhi⟩
    exact Int.bmod_eq_of_le (by omega) (by omega)

theorem wrapI64_add_wrapI64 (m n : Int) : wrapI64 (m + wrapI64 n) = wrapI64 (m + n) :=
  Int.add_bmod_bmod

inductive CounterOp where
  | incr
  | decr
  | incrBy (increment : Int)
  | decrBy (decrement : Int)
  | hIncrBy (field : Bytes) (increment : Int)

namespace CounterOp

variable {env : Env} (db : Fin numDatabases) (key : Key)

def run : CounterOp → Handler env Reply
  | .incr => Handler.incrCmd db key
  | .decr => Handler.decrCmd db key
  | .incrBy increment => Handler.incrbyCmd db key increment
  | .decrBy decrement => Handler.decrbyCmd db key decrement
  | .hIncrBy field increment => Handler.hincrbyCmd db key field increment

/-- The result over the integers. -/
def exact (v : Int) : CounterOp → Int
  | .incr => v + 1
  | .decr => v - 1
  | .incrBy increment => v + increment
  | .decrBy decrement => v - decrement
  | .hIncrBy _ increment => v + increment

/-- The number that the command finds in a value. -/
def stored : CounterOp → DataType → Option Int
  | .hIncrBy field _, .hash fields => fields[field]?.bind integerText
  | .hIncrBy .., _ => none
  | _, value => (Handler.counterOf key value).toOption

/-- The value with the number `n` in its place. -/
def written (n : Int) : CounterOp → DataType → DataType
  | .hIncrBy field _, .hash fields => .hash (fields.insert field (Serde.utf8 (toString n)))
  | _, _ => .integer n

end CounterOp

section

variable {env : Env} {db : Fin numDatabases} {key : Key} {s : Dbs env} {e : CacheEntry} {v : Int}

section

variable (h : s.entry (env.addr db key) key = some e)

include h

theorem incrbyCmd_stored (hv : (counterOf key e.value).toOption = some v) (increment : Int)
    (draw : Draw) :
    incrbyCmd db key increment draw s = (.ok (.integer (wrapI64 (v + increment))),
      s.update (env.addr db key)
        (·.write key { e with value := .integer (wrapI64 (v + increment)) })) := by
  cases hc : counterOf key e.value with
  | error f => rw [hc] at hv; cases hv
  | ok n =>
    rw [hc] at hv
    cases hv
    simp only [incrbyCmd, Prog.bind_apply, look, h, hc, Prog.ofExcept,
      store]
    rfl

theorem hincrbyCmd_stored {fields : Map Bytes Bytes} {field : Bytes}
    (hfields : e.value = .hash fields) (hv : fields[field]?.bind integerText = some v)
    (increment : Int) (draw : Draw) :
    hincrbyCmd db key field increment draw s =
      (.ok (.integer (wrapI64 (v + increment))), s.update (env.addr db key) (·.write key
        { e with value := .hash (fields.insert field
            (Serde.utf8 (toString (wrapI64 (v + increment))))) })) := by
  obtain ⟨text, htext, hint⟩ := Option.bind_eq_some_iff.mp hv
  have hincr : Fields.incrby field increment fields = (.ok (.integer (wrapI64 (v + increment))),
      fields.insert field (Serde.utf8 (toString (wrapI64 (v + increment))))) := by
    rw [Fields.incrby, htext, Option.map_some, hint]
    rfl
  simp only [hincrbyCmd, Kind.upsert, Kind.update, Kind.apply,
    Prog.bind_apply, ensure, look, store, h, hfields, Kind.hash,
    hincr, Prog.ofExcept]

/-- On a stored number the command never fails; it stores and returns the sum, wrapped around. -/
theorem CounterOp.run_stored {op : CounterOp} (hv : op.stored key e.value = some v) (draw : Draw) :
    op.run db key draw s = (.ok (.integer (wrapI64 (op.exact v))),
      s.update (env.addr db key)
        (·.write key { e with value := op.written (wrapI64 (op.exact v)) e.value })) := by
  cases op with
  | incr => exact incrbyCmd_stored h hv 1 draw
  | decr =>
    rw [exact, Int.sub_eq_add_neg]
    exact incrbyCmd_stored h hv (-1) draw
  | incrBy increment => exact incrbyCmd_stored h hv increment draw
  | decrBy decrement =>
    -- the negation of the least `i64` wraps too, and the sum wraps back
    rw [exact, Int.sub_eq_add_neg, ← wrapI64_add_wrapI64]
    exact incrbyCmd_stored h hv (wrapI64 (-decrement)) draw
  | hIncrBy field increment =>
    cases hvalue : e.value with
    | hash fields =>
      rw [hvalue] at hv
      exact hincrbyCmd_stored h hvalue hv increment draw
    | _ => rw [hvalue] at hv; cases hv

end

/--
**Counters are exact within `i64`.** The command returns a number and stores it in the place of the
old one, with the expiry unchanged and every other entry as it was; this number is the exact result
exactly if that is an `i64`.
-/
theorem counter_exact_iff {op : CounterOp} (h : s.entry (env.addr db key) key = some e)
    (hv : op.stored key e.value = some v) (draw : Draw) :
    ∃ n t, op.run db key draw s = (.ok (.integer n), t) ∧
      t.entry (env.addr db key) key = some { e with value := op.written n e.value } ∧
      (∀ a k, ¬(a = env.addr db key ∧ key = k) → t.entry a k = s.entry a k) ∧
      (n = op.exact v ↔ InI64 (op.exact v)) := by
  refine ⟨wrapI64 (op.exact v), _, op.run_stored h hv draw, ?_, ?_, wrapI64_eq_iff⟩
  · rw [Dbs.entry_write, if_pos ⟨rfl, rfl⟩]
  · intro a k hne
    rw [Dbs.entry_write, if_neg hne]

end

namespace Sample

/-- A store with the number `n` under `a`. -/
def holding (n : Int) : Dbs env := Dbs.fresh.update (env.addr 0 "a") (·.write "a" ⟨.integer n, 0⟩)

theorem holding_entry (n : Int) :
    (holding n).entry (env.addr 0 "a") "a" = some ⟨.integer n, 0⟩ := by
  rw [holding, Dbs.entry_write, if_pos ⟨rfl, rfl⟩]

end Sample

/-- `INCR` on 41. -/
theorem counter_exact_iff_incr :
    ∃ n t, CounterOp.incr.run 0 "a" (Sample.draw 0) (holding 41) = (.ok (.integer n), t) ∧
      t.entry (Sample.env.addr 0 "a") "a" = some ⟨.integer n, 0⟩ ∧
      (∀ a k, ¬(a = Sample.env.addr 0 "a" ∧ "a" = k) →
        t.entry a k = (holding 41).entry a k) ∧
      (n = 41 + 1 ↔ InI64 (41 + 1)) :=
  counter_exact_iff (holding_entry 41) rfl (Sample.draw 0)

/-- `INCR` on the greatest `i64` succeeds, with the least one. -/
theorem incr_wraps :
    ∃ t, CounterOp.incr.run 0 "a" (Sample.draw 0) (holding (2 ^ 63 - 1))
        = (.ok (.integer (-2 ^ 63)), t) ∧
      t.entry (Sample.env.addr 0 "a") "a" = some ⟨.integer (-2 ^ 63), 0⟩ := by
  have hwrap : wrapI64 (CounterOp.incr.exact (2 ^ 63 - 1)) = -2 ^ 63 := by decide
  have hrun := CounterOp.incr.run_stored (holding_entry (2 ^ 63 - 1)) rfl (Sample.draw 0)
  rw [hwrap] at hrun
  refine ⟨_, hrun, ?_⟩
  rw [Dbs.entry_write, if_pos ⟨rfl, rfl⟩]
  rfl

end Calod.Store
