import Calod.Store.JsonPath
import Calod.Store.Shard

/-!
# JSON commands

The handlers of `calod_shard.rs` that change documents. `JSON.SET` creates the key before it parses
its value, and does not count it; the other commands fail on a missing key.
-/

namespace Calod.Store

open Lib Prog

namespace Handler

variable {env : Env} (db : Fin numDatabases) {P : Access env → Prop} {key : Key}

def documentReply (json : Json) : Reply := .stored (.document json)

/-- `serde_json::from_str`, with the text that `context` puts before the error. -/
def parseJson (platform : Platform) (context text : String) : Result Json :=
  match platform.fromJson text with
  | .ok json => .ok json
  | .error e => Store.fail (.invalidCommandArguments (context ++ e))

/-- Apply an operation to the document under `key`. -/
def onDocument {α : Type} (key : Key) (reply : α → Reply) (op : DocumentOp α) : Handler env Reply :=
  Kind.document.update (env.addr db key) key (throw (.keyNotFound key)) fun json =>
    ((op json).1.map reply, (op json).2)

/-- `json_set_cmd`. -/
def jsonSetCmd (key : Key) (path value : String) : Handler env Reply := do
  ensure (env.addr db key) key (.document .null)
  let value ← ofExcept (parseJson env.toPlatform "Invalid JSON value: " value)
  onDocument db key (fun _ => .ok) (jsonpathSet path value)

/-- `json_del_cmd`. -/
def jsonDelCmd (key : Key) (path : String) : Handler env Reply :=
  onDocument db key (fun n : Nat => .integer n) (jsonpathDel path)

/-- `json_numincrby_cmd`. -/
def jsonNumincrbyCmd (key : Key) (path : String) (increment : F64) : Handler env Reply :=
  onDocument db key documentReply (jsonpathNumincrby env.toPlatform path increment)

/-- `json_strappend_cmd`. -/
def jsonStrappendCmd (key : Key) (path value : String) : Handler env Reply :=
  onDocument db key documentReply (jsonpathStrappend path value)

/-- An operation whose values are parsed once the key is known to hold a document. -/
def withValues (platform : Platform) (context : String) (values : List String)
    (op : List Json → DocumentOp Json) : DocumentOp Json := fun json =>
  match values.mapM (parseJson platform context) with
  | .ok values => op values json
  | .error e => (.error e, json)

/-- `json_arrappend_cmd`. -/
def jsonArrappendCmd (key : Key) (path : String) (values : List String) : Handler env Reply :=
  onDocument db key documentReply
    (withValues env.toPlatform "Invalid JSON value in ARRAPPEND: " values
      (jsonpathArrappend path))

/-- `json_objset_cmd`; the value is parsed before the type of the key is looked at. -/
def jsonObjsetCmd (key : Key) (path field value : String) : Handler env Reply :=
  unlessAbsent true (env.addr db key) key (Store.fail (.keyNotFound key)) do
    let value ← ofExcept (parseJson env.toPlatform "Invalid JSON value in OBJSET: " value)
    onDocument db key documentReply (jsonpathObjset path field value)

/-- `json_arrinsert_cmd`. -/
def jsonArrinsertCmd (key : Key) (path : String) (index : Int) (values : List String) :
    Handler env Reply :=
  onDocument db key documentReply
    (withValues env.toPlatform "Invalid JSON value in ARRINSERT: " values
      (jsonpathArrinsert path index))

/-- `json_arrpop_cmd`. -/
def jsonArrpopCmd (key : Key) (path : String) (index : Option Int) : Handler env Reply :=
  onDocument db key documentReply (jsonpathArrpop path index)

/-- `json_arrtrim_cmd`. -/
def jsonArrtrimCmd (key : Key) (path : String) (start stop : Int) : Handler env Reply :=
  onDocument db key (fun n : Nat => .integer n) (jsonpathArrtrim path start stop)

/-! ## What the handlers use -/

theorem uses_onDocument {α : Type} (hl : ∀ a key, P (.look a key))
    (hs : ∀ a value, P (.store a key value)) (reply : α → Reply) (op : DocumentOp α) :
    Uses P (onDocument db key reply op) :=
  Kind.uses_update hl hs _ _ (.fail _) _

theorem uses_jsonSetCmd (hc : Creates P (env.addr db key) key) (path value : String) :
    Uses P (jsonSetCmd db key path value) :=
  .bind (.op (Access.ensure _ key _) (hc.ensure _)) fun _ => .bind (.ofExcept _) fun _ =>
    uses_onDocument db hc.look hc.store _ _

theorem uses_jsonObjsetCmd (hl : ∀ a key, P (.look a key))
    (hs : ∀ a value, P (.store a key value)) (path field value : String) :
    Uses P (jsonObjsetCmd db key path field value) :=
  uses_unlessAbsent hl _ _ (.bind (.ofExcept _) fun _ => uses_onDocument db hl hs _ _)

end Handler

end Calod.Store
