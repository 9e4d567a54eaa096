import Calod.Store.Decimal

/-!
# Protocol values

`calod-resp/src/parser/value.rs`: the values of the protocol and their bytes. The version of the
protocol decides how a value is written, the value itself is the same for both.
-/

namespace Calod.Resp

open Store Serde

/-- `ProtocolVersion`. -/
inductive ProtocolVersion where
  | resp2
  | resp3
  deriving DecidableEq, Repr

inductive Value where
  | simpleString (s : String)
  | error (s : String)
  | integer (i : Int64)
  | bulkString (b : Bytes)
  | array (items : List Value)
  | nil
  | nilArray
  | boolean (b : Bool)
  | double (d : F64)
  | bigNumber (s : String)
  | verbatimString (format : UInt8 × UInt8 × UInt8) (data : Bytes)
  | map (pairs : List (Value × Value))
  | set (items : List Value)
  | push (items : List Value)

/-! ## Bytes -/

def crlf : Bytes := [0x0D, 0x0A]

/-- A marker, a text and the end of the line. -/
def line (marker : UInt8) (text : Bytes) : Bytes := marker :: (text ++ crlf)

/-- `encode_aggregate_header`, also for the lengths of strings. -/
def encodeAggregateHeader (marker : UInt8) (count : Nat) : Bytes :=
  line marker (utf8 (toString (count : Int)))

/-- `encode_bulk`. -/
def encodeBulk (bytes : Bytes) : Bytes :=
  encodeAggregateHeader 0x24 bytes.length ++ bytes ++ crlf

/-- `d == d.trunc()`: no bit of the significand stands for a fraction. -/
def isWhole (d : F64) : Bool :=
  let exponent := d.magnitude / 2 ^ 52
  d.magnitude = 0 || 1075 ≤ exponent
    || (1023 ≤ exponent && d.magnitude % 2 ^ 52 % 2 ^ (1075 - exponent) = 0)

/-- The bits of `1e17`. -/
def tenToThe17 : Nat := 0x4376345785D8A000

/-- `format_double`. -/
def formatDouble (platform : Platform) (d : F64) : String :=
  if d.isNan then "nan"
  else if d = .infinity then "inf"
  else if d = .negInfinity then "-inf"
  else if isWhole d && d.magnitude < tenToThe17 then toString (platform.truncI64 d)
  else platform.displayF64 d

namespace Value

variable (platform : Platform) (proto : ProtocolVersion)

mutual

/-- `Value::encode`. -/
def encode : Value → Bytes
  | .simpleString s => line 0x2B (utf8 s)
  | .error s => line 0x2D (utf8 s)
  | .integer i => line 0x3A (utf8 (toString i.toInt))
  | .bulkString b => encodeBulk b
  | .array items => encodeAggregateHeader 0x2A items.length ++ encodeItems items
  | .nil =>
    match proto with
    | .resp3 => line 0x5F []
    | .resp2 => line 0x24 [0x2D, 0x31]
  | .nilArray =>
    match proto with
    | .resp3 => line 0x5F []
    | .resp2 => line 0x2A [0x2D, 0x31]
  | .boolean b =>
    match proto with
    | .resp3 => line 0x23 [if b then 0x74 else 0x66]
    | .resp2 => line 0x3A [if b then 0x31 else 0x30]
  | .double d =>
    match proto with
    | .resp3 => line 0x2C (utf8 (formatDouble platform d))
    | .resp2 => encodeBulk (utf8 (formatDouble platform d))
  | .bigNumber s =>
    match proto with
    | .resp3 => line 0x28 (utf8 s)
    | .resp2 => encodeBulk (utf8 s)
  | .verbatimString (a, b, c) data =>
    match proto with
    | .resp3 =>
      encodeAggregateHeader 0x3D (4 + data.length) ++ (a :: b :: c :: 0x3A :: data) ++ crlf
    | .resp2 => encodeBulk data
  | .map pairs =>
    (match proto with
      | .resp3 => encodeAggregateHeader 0x25 pairs.length
      | .resp2 => encodeAggregateHeader 0x2A (pairs.length * 2)) ++ encodePairs pairs
  | .set items =>
    encodeAggregateHeader (match proto with | .resp3 => 0x7E | .resp2 => 0x2A) items.length
      ++ encodeItems items
  | .push items =>
    encodeAggregateHeader (match proto with | .resp3 => 0x3E | .resp2 => 0x2A) items.length
      ++ encodeItems items

/-- The items one after the other. -/
def encodeItems : List Value → Bytes
  | [] => []
  | v :: rest => encode v ++ encodeItems rest

/-- Keys and values one after the other. -/
def encodePairs : List (Value × Value) → Bytes
  | [] => []
  | (k, v) :: rest => encode k ++ (encode v ++ encodePairs rest)

end

end Value
end Calod.Resp
