import Calod.Store.Data

/-!
# Paths into JSON documents

`calod-core/src/store/helpers/json_helpers.rs`, the functions behind the commands that write. A
function that takes the document as `&mut` returns it next to its result, also when it fails:
`traverse_path_mut` creates the nodes it passes before it finds out that the path leads nowhere.
-/

namespace Calod.Store

open Serde (Value)

namespace Json

/-- `json_type_to_string`. -/
def typeName : Json → String
  | .null => "null"
  | .bool _ => "boolean"
  | .number _ => "number"
  | .string _ => "string"
  | .array _ => "array"
  | .object _ => "object"

/-- `Map::get` on the entries of an object. -/
def field (entries : List (String × Json)) (key : String) : Option Json :=
  (entries.find? fun e => e.1 == key).map Prod.snd

/-- `Map::insert` on the entries of an object, which are in the order of their keys. -/
def setField (key : String) (value : Json) : List (String × Json) → List (String × Json)
  | [] => [(key, value)]
  | (k, v) :: rest =>
    if k = key then (key, value) :: rest
    else if key < k then (key, value) :: (k, v) :: rest
    else (k, v) :: setField key value rest

/-- `Map::remove` on the entries of an object. -/
def removeField (entries : List (String × Json)) (key : String) : List (String × Json) :=
  entries.filter fun e => e.1 ≠ key

end Json

/-! ## Paths -/

inductive PathSegment where
  | key (name : String)
  | index (i : Nat)
  deriving DecidableEq, Repr

namespace PathSegment

/-- What the errors call a segment. -/
def text : PathSegment → String
  | .key name => name
  | .index i => toString i

/-- The kind of node that a segment selects in. -/
def container : PathSegment → String
  | .key _ => "object"
  | .index _ => "array"

/-- The error for a node that the segment cannot select in. -/
def mismatch (seg : PathSegment) (found : Json) : CacheError :=
  .dataTypeMismatch seg.text seg.container (Json.typeName found)

end PathSegment

def dropLeading (c : Char) : List Char → List Char
  | [] => []
  | d :: rest => if d = c then rest else d :: rest

/-- The loop of `parse_json_path`; every round consumes a character. -/
def parseSegments : (fuel : Nat) → List Char → Result (List PathSegment)
  | 0, _ => .ok []
  | _ + 1, [] => .ok []
  | fuel + 1, s => do
    let name := s.takeWhile fun c => c ≠ '.' ∧ c ≠ '['
    let rest := s.dropWhile fun c => c ≠ '.' ∧ c ≠ '['
    let here := if name = [] then [] else [PathSegment.key (String.ofList name)]
    match rest with
    | '[' :: rest =>
      let digits := rest.takeWhile fun c => c ≠ ']'
      match rest.dropWhile fun c => c ≠ ']' with
      | [] => fail (.invalidCommandArguments "Missing closing bracket in JSONPath")
      | _ :: rest =>
        match parseU64 digits with
        | none => fail (.invalidCommandArguments ("Invalid array index: " ++ String.ofList digits))
        | some i => return here ++ .index i :: (← parseSegments fuel (dropLeading '.' rest))
    | rest => return here ++ (← parseSegments fuel (dropLeading '.' rest))

/-- `parse_json_path`. -/
def parseJsonPath (path : String) : Result (List PathSegment) :=
  let s := dropLeading '.' (dropLeading '$' (trim path.toList))
  parseSegments (s.length + 1) s

/-- `traverse_path`; a key in a node that is not an object selects the node itself. -/
def traversePath (doc : Json) : List PathSegment → Option Json
  | [] => some doc
  | .key name :: rest =>
    match doc with
    | .object entries => (Json.field entries name).bind fun v => traversePath v rest
    | doc => traversePath doc rest
  | .index i :: rest =>
    match doc with
    | .array items => items[i]?.bind fun v => traversePath v rest
    | _ => none

/-- The node that `traverse_path_mut` creates for a missing key, by the segment after it. -/
def freshNode : List PathSegment → Json
  | .index _ :: _ => .array []
  | _ => .object []

/-- `arr[idx]` after the array was padded with nulls up to it. -/
def padTo (items : List Json) (i : Nat) : List Json :=
  items ++ List.replicate (i + 1 - items.length) .null

/-- `traverse_path_mut`, with what the caller does to the node it reaches. -/
def modifyPath {α : Type} (f : Json → Result α × Json) : List PathSegment → Json → Result α × Json
  | [], doc => f doc
  | .key name :: rest, doc =>
    match doc with
    | .null =>
      let r := modifyPath f rest (freshNode rest)
      (r.1, .object [(name, r.2)])
    | .object entries =>
      let r := modifyPath f rest ((Json.field entries name).getD (freshNode rest))
      (r.1, .object (Json.setField name r.2 entries))
    | doc => (fail ((PathSegment.key name).mismatch doc), doc)
  | .index i :: rest, doc =>
    let inside := fun (items : List Json) =>
      let items := padTo items i
      let r := modifyPath f rest (items[i]?.getD .null)
      (r.1, .array (items.set i r.2))
    match doc with
    | .null => inside []
    | .array items => inside items
    | doc => (fail ((PathSegment.index i).mismatch doc), doc)

/-- `get_parent_mut`, with what the caller does to the parent and the last segment. -/
def modifyParent {α : Type} (segments : List PathSegment)
    (f : PathSegment → Json → Result α × Json) (doc : Json) : Result α × Json :=
  match segments.getLast? with
  | none => (fail (.invalidCommandArguments "Cannot operate on root element"), doc)
  | some last => modifyPath (f last) segments.dropLast doc

/-! ## Operations on a document -/

abbrev DocumentOp (α : Type) := Json → Result α × Json

/-- Put `value` under the last segment of a path. -/
def putChild (value : Json) : PathSegment → DocumentOp Unit
  | .index i, .array items =>
    if i < items.length then (.ok (), .array (items.set i value))
    else if i = items.length then (.ok (), .array (items ++ [value]))
    else
      (fail (.invalidCommandArguments ("Index " ++ toString i ++ " out of bounds")), .array items)
  | .key name, .object entries => (.ok (), .object (Json.setField name value entries))
  | seg, doc => (fail (seg.mismatch doc), doc)

/-- `jsonpath_set`. -/
def jsonpathSet (path : String) (value : Json) : DocumentOp Json := fun doc =>
  match parseJsonPath path with
  | .error e => (.error e, doc)
  | .ok [] => (.ok value, value)
  | .ok segments =>
    match modifyParent segments (putChild value) doc with
    | (.error e, doc) => (.error e, doc)
    | (.ok (), doc) =>
      match traversePath doc segments with
      | some result => (.ok result, doc)
      | none => (fail (.internalError "Failed to resolve JSONPath after set"), doc)

/-- Remove what is under the last segment of a path. -/
def removeChild : PathSegment → DocumentOp Nat
  | .key name, .object entries =>
    (.ok (if (Json.field entries name).isSome then 1 else 0),
      .object (Json.removeField entries name))
  | .index i, .array items =>
    if i < items.length then (.ok 1, .array (items.eraseIdx i)) else (.ok 0, .array items)
  | seg, doc => (fail (seg.mismatch doc), doc)

/-- `jsonpath_del`. -/
def jsonpathDel (path : String) : DocumentOp Nat := fun doc =>
  match parseJsonPath path with
  | .error e => (.error e, doc)
  | .ok segments => modifyParent segments removeChild doc

/-- Read the value at `path`, compute what replaces it, and set it. -/
def jsonpathReplace {α : Type} (path : String) (f : Option Json → Result (α × Json)) :
    DocumentOp (α × Json) := fun doc =>
  match parseJsonPath path with
  | .error e => (.error e, doc)
  | .ok segments =>
    match f (traversePath doc segments) with
    | .error e => (.error e, doc)
    | .ok (a, value) =>
      match jsonpathSet path value doc with
      | (.error e, doc) => (.error e, doc)
      | (.ok result, doc) => (.ok (a, result), doc)

def pathNotFound (path : String) : CacheError :=
  .invalidCommandArguments ("JSONPath not found: " ++ path)

def pathMismatch (path expected : String) (found : Json) : CacheError :=
  .dataTypeMismatch path expected (Json.typeName found)

/-- `JsonNumber::from_f64`. -/
def jsonOfFloat (x : F64) : Option Json :=
  if x.magnitude < 0x7FF0000000000000 then some (.number (.float x.bits)) else none

/-- The value that `jsonpath_numincrby` stores. -/
def incremented (platform : Platform) (increment : F64) : Serde.Number → Result Json
  | .posInt n => .ok (.ofInt (platform.truncI64 (platform.add (platform.ofInt n) increment)))
  | .negInt n => .ok (.ofInt (platform.truncI64 (platform.add (platform.ofInt n) increment)))
  | .float bits =>
    match jsonOfFloat (platform.add ⟨bits⟩ increment) with
    | some value => .ok value
    | none => fail (.internalError "Failed to convert incremented value")

/-- `jsonpath_numincrby`. -/
def jsonpathNumincrby (platform : Platform) (path : String) (increment : F64) : DocumentOp Json :=
  fun doc =>
    let r := jsonpathReplace path (fun current =>
      match current with
      | none => fail (pathNotFound path)
      | some (.number n) => do
        let value ← incremented platform increment n
        return (value, value)
      | some _ =>
        fail (.invalidCommandArguments ("Value at the path is not a number: " ++ path))) doc
    (r.1.map Prod.fst, r.2)

/-- `jsonpath_strappend`. -/
def jsonpathStrappend (path text : String) : DocumentOp Json := fun doc =>
  let r := jsonpathReplace path (fun current =>
    match current with
    | none => fail (pathNotFound path)
    | some (.string s) => .ok ((), .string (s ++ text))
    | some _ =>
      fail (.invalidCommandArguments ("Value at path is not a string for STRAPPEND: " ++ path))) doc
  (r.1.map Prod.snd, r.2)

/-- `jsonpath_arrappend`. -/
def jsonpathArrappend (path : String) (values : List Json) : DocumentOp Json := fun doc =>
  let r := jsonpathReplace path (fun current =>
    match current.getD .null with
    | .array items => .ok ((), .array (items ++ values))
    | .null => .ok ((), .array values)
    | other => fail (pathMismatch path "Array or Null" other)) doc
  (r.1.map Prod.snd, r.2)

/-- `jsonpath_objset`. -/
def jsonpathObjset (path key : String) (value : Json) : DocumentOp Json := fun doc =>
  let r := jsonpathReplace path (fun current =>
    match current.getD .null with
    | .object entries => .ok ((), .object (Json.setField key value entries))
    | .null => .ok ((), .object [(key, value)])
    | other => fail (pathMismatch path "Object or Null" other)) doc
  (r.1.map Prod.snd, r.2)

/-- What the three functions below do to the array at `path`. -/
def jsonpathArray {α : Type} (path : String) (f : List Json → α × List Json) :
    DocumentOp (α × Json) :=
  jsonpathReplace path fun current =>
    match current with
    | none => fail (pathNotFound path)
    | some (.array items) => .ok ((f items).1, .array (f items).2)
    | some other => fail (pathMismatch path "Array" other)

/-- Where an index that counts from the end when negative points. -/
def fromEnd (i : Int) (len : Nat) : Int := if i < 0 then i + len else i

/-- `jsonpath_arrinsert`. -/
def jsonpathArrinsert (path : String) (index : Int) (values : List Json) : DocumentOp Json :=
  fun doc =>
    let r := jsonpathArray path (fun items =>
      let position := (max 0 (min (fromEnd index items.length) items.length)).toNat
      ((), items.take position ++ values ++ items.drop position)) doc
    (r.1.map Prod.snd, r.2)

/-- `jsonpath_arrpop`; an index out of range does not set the array again. -/
def jsonpathArrpop (path : String) (index : Option Int) : DocumentOp Json := fun doc =>
  match parseJsonPath path with
  | .error e => (.error e, doc)
  | .ok segments =>
    match traversePath doc segments with
    | none => (fail (pathNotFound path), doc)
    | some (.array items) =>
      let position := fromEnd (index.getD (-1)) items.length
      if position < 0 ∨ position ≥ items.length then (.ok .null, doc)
      else
        match jsonpathSet path (.array (items.eraseIdx position.toNat)) doc with
        | (.error e, doc) => (.error e, doc)
        | (.ok _, doc) => (.ok (items[position.toNat]?.getD .null), doc)
    | some other => (fail (pathMismatch path "Array" other), doc)

/-- `jsonpath_arrtrim`. -/
def jsonpathArrtrim (path : String) (start stop : Int) : DocumentOp Nat := fun doc =>
  let r := jsonpathArray path (fun items =>
    let s := max (fromEnd start items.length) 0
    let e := min (fromEnd stop items.length) (items.length - 1)
    let kept := if s ≤ e then (items.drop s.toNat).take (e.toNat - s.toNat + 1) else []
    (kept.length, kept)) doc
  (r.1.map Prod.fst, r.2)

end Calod.Store
