import Calod.Lib.Map
import Calod.Store.Text

/-!
# Sorted sets

`calod-core/src/store/sorted_set.rs`, the operations of the commands that write. A sorted set keeps
the scores of its members in a map and the pairs of score and member in an ordered index; the
structure carries the fact that the two agree.
-/

namespace Calod.Store

open Lib
open Std (TransOrd LawfulEqOrd)

/-- Scores are compared by `total_cmp`, then members by their bytes. -/
structure ScoreKey where
  score : F64
  member : Bytes
  deriving DecidableEq, Repr

namespace ScoreKey

instance : Ord ScoreKey := ⟨compareLex (compareOn score) (compareOn member)⟩

instance : TransOrd ScoreKey :=
  inferInstanceAs (Std.TransCmp (compareLex (compareOn score) (compareOn member)))

instance : LawfulEqOrd ScoreKey where
  eq_of_compare {a b} h := by
    obtain ⟨hscore, hmember⟩ := Ordering.then_eq_eq.mp h
    obtain ⟨score, member⟩ := a
    obtain ⟨score', member'⟩ := b
    rw [ScoreKey.mk.injEq]
    exact ⟨Std.LawfulEqOrd.eq_of_compare (α := F64) hscore,
      Std.LawfulEqOrd.eq_of_compare (α := Bytes) hmember⟩

end ScoreKey

inductive ScoreBound where
  | inclusive (v : F64)
  | exclusive (v : F64)

inductive LexBound where
  | negInf
  | posInf
  | inclusive (v : Bytes)
  | exclusive (v : Bytes)

structure SortedSetData where
  map : Map Bytes F64
  index : Map ScoreKey Unit
  inSync : ∀ k : ScoreKey, k ∈ index ↔ map[k.member]? = some k.score

namespace SortedSetData

/-- `SortedSetData::new`. -/
def new : SortedSetData where
  map := ∅
  index := ∅
  inSync := by simp

def len (data : SortedSetData) : Nat := data.map.size

def isEmpty (data : SortedSetData) : Bool := data.map.isEmpty

def score (data : SortedSetData) (member : Bytes) : Option F64 := data.map[member]?

/-- The pairs in ascending order. -/
def entries (data : SortedSetData) : List (Bytes × F64) :=
  data.index.keys.map fun k => (k.member, k.score)

/-- `SortedSetData::remove`. -/
def remove (data : SortedSetData) (member : Bytes) : SortedSetData :=
  match h : data.map[member]? with
  | some score =>
    { map := data.map.erase member
      index := data.index.erase ⟨score, member⟩
      inSync := by
        rintro ⟨score', member'⟩
        have hsync := data.inSync ⟨score', member'⟩
        simp only [Map.get_erase, Std.ExtTreeMap.mem_erase, hsync, ne_eq,
          Std.LawfulEqOrd.compare_eq_iff_eq, ScoreKey.mk.injEq] at *
        by_cases hm : member = member'
        · subst hm
          simp [h]
        · simp [hm] }
  | none => data

/-- `SortedSetData::insert`. -/
def insert (data : SortedSetData) (member : Bytes) (score : F64) : SortedSetData where
  map := data.map.insert member score
  index := match data.map[member]? with
    | some old =>
      if old ≠ score then (data.index.erase ⟨old, member⟩).insert ⟨score, member⟩ () else data.index
    | none => data.index.insert ⟨score, member⟩ ()
  inSync := by
    rintro ⟨score', member'⟩
    have hsync := data.inSync ⟨score', member'⟩
    have hold : ∀ old, data.map[member]? = some old →
        ((⟨old, member⟩ : ScoreKey) ∈ data.index) := fun old h => (data.inSync ⟨old, member⟩).mpr h
    rw [Map.get_insert]
    by_cases hm : member = member'
    · subst hm
      cases h : data.map[member]? with
      | none =>
        simp only [h, Std.ExtTreeMap.mem_insert, Std.LawfulEqOrd.compare_eq_iff_eq,
          ScoreKey.mk.injEq, reduceCtorEq, iff_false] at *
        simp [hsync]
      | some old =>
        simp only [h, Option.some.injEq] at hsync
        by_cases hsame : old = score
        · subst hsame
          simp [hsync]
        · simp [hsame, Std.ExtTreeMap.mem_insert, Std.ExtTreeMap.mem_erase, hsync]
    · cases h : data.map[member]? with
      | none => simp [Std.ExtTreeMap.mem_insert, hm, hsync]
      | some old =>
        by_cases hsame : old = score
        · simp [hsame, hm, hsync]
        · simp [hsame, Std.ExtTreeMap.mem_insert, Std.ExtTreeMap.mem_erase, hm, hsync]

/-! ## Ranges -/

/-- `normalize_index_range`. -/
def normalizeIndexRange (start stop : Int) (len : Nat) : Option (Nat × Nat) :=
  if len = 0 then none
  else
    let lo : Int := max 0 (if start < 0 then len + start else start)
    let hi : Int := min (len - 1) (max 0 (if stop < 0 then len + stop else stop))
    if lo > hi ∨ lo ≥ len then none else some (lo.toNat, hi.toNat)

/-- `range_by_index` in ascending order. -/
def rangeByIndex (data : SortedSetData) (start stop : Int) : List (Bytes × F64) :=
  match normalizeIndexRange start stop data.len with
  | some (lo, hi) => (data.entries.drop lo).take (hi - lo + 1)
  | none => []

/-- `score_in_bounds`. -/
def scoreInBounds (score : F64) (min max : ScoreBound) : Bool :=
  (match min with
    | .inclusive v => v.le score
    | .exclusive v => v.lt score)
  && match max with
    | .inclusive v => score.le v
    | .exclusive v => score.lt v

/-- `lex_in_bounds`. -/
def lexInBounds (member : Bytes) (min max : LexBound) : Bool :=
  (match min with
    | .negInf => true
    | .posInf => false
    | .inclusive v => (compare v member).isLE
    | .exclusive v => (compare v member).isLT)
  && match max with
    | .posInf => true
    | .negInf => false
    | .inclusive v => (compare member v).isLE
    | .exclusive v => (compare member v).isLT

/-! ## Removing several members -/

/-- The victims come from the index, so removing a member removes the pair that was listed. -/
def removeAll (data : SortedSetData) (victims : List (Bytes × F64)) : SortedSetData :=
  victims.foldl (fun data victim => data.remove victim.1) data

/-- `pop_min`. -/
def popMin (data : SortedSetData) (count : Nat) : List (Bytes × F64) × SortedSetData :=
  let victims := data.entries.take count
  (victims, data.removeAll victims)

/-- `pop_max`. -/
def popMax (data : SortedSetData) (count : Nat) : List (Bytes × F64) × SortedSetData :=
  let victims := data.entries.reverse.take count
  (victims, data.removeAll victims)

/-- `remove_range_by_rank`. -/
def removeRangeByRank (data : SortedSetData) (start stop : Int) : Nat × SortedSetData :=
  let victims := data.rangeByIndex start stop
  (victims.length, data.removeAll victims)

/-- `remove_range_by_score`. -/
def removeRangeByScore (data : SortedSetData) (min max : ScoreBound) : Nat × SortedSetData :=
  let victims := data.entries.filter fun e => scoreInBounds e.2 min max
  (victims.length, data.removeAll victims)

/-- `remove_range_by_lex`. -/
def removeRangeByLex (data : SortedSetData) (min max : LexBound) : Nat × SortedSetData :=
  let victims := data.entries.filter fun e => lexInBounds e.1 min max
  (victims.length, data.removeAll victims)

end SortedSetData

/-! ## Bounds in commands -/

/-- `parse_score_value`. -/
def parseScoreValue (platform : Platform) (body : List Char) : Option F64 :=
  let text := String.ofList (trim body)
  if text = "-inf" then some .negInfinity
  else if text = "+inf" ∨ text = "inf" then some .infinity
  else (platform.parseF64 text).filter fun v => !v.isNan

/-- `parse_score_bound`. -/
def parseScoreBound (platform : Platform) (s : String) : Option ScoreBound :=
  match s.toList with
  | '(' :: rest => (parseScoreValue platform rest).map .exclusive
  | body => (parseScoreValue platform body).map .inclusive

/-- `parse_lex_bound`. -/
def parseLexBound (s : String) : Option LexBound :=
  match s.toList with
  | ['-'] => some .negInf
  | ['+'] => some .posInf
  | '[' :: rest => some (.inclusive (Serde.utf8 (String.ofList rest)))
  | '(' :: rest => some (.exclusive (Serde.utf8 (String.ofList rest)))
  | _ => none

end Calod.Store
