import Calod.Resp.Value

/-!
# The parser

`calod-resp/src/parser/parser.rs`. The limits that the source has as constants are
parameters here. The recursion runs on fuel: every nested call is on a shorter buffer, so as much
fuel as there are bytes is enough, and without bytes the answer is `Incomplete` anyway.
-/

namespace Calod.Resp

open Store Serde

/-- `RespError`, without the contents of the errors of the standard library. -/
inductive RespError where
  | incomplete
  | invalidFormat (msg : String)
  | parseInt
  | utf8
  | bulkLengthExceeded
  | multibulkLengthExceeded
  | depthExceeded
  | inlineTooLong
  deriving DecidableEq, Repr

/-- The lengths are compared as `i64`. -/
structure Limits where
  bulkLen : Nat
  multibulkLen : Nat
  depth : Nat
  inlineLen : Nat
  bulkLen_lt : bulkLen < 2 ^ 63
  multibulkLen_lt : multibulkLen < 2 ^ 63

/-- `MAX_BULK_LEN`, `MAX_MULTIBULK_LEN`, `MAX_DEPTH` and `MAX_INLINE_LEN`. -/
def Limits.standard : Limits where
  bulkLen := 512 * 1024 * 1024
  multibulkLen := 1024 * 1024
  depth := 128
  inlineLen := 64 * 1024
  bulkLen_lt := by decide
  multibulkLen_lt := by decide

/-! ## Lines -/

/-- `find_crlf`: the first end of a line. -/
def findCrlf : Bytes → Option Nat
  | [] => none
  | [_] => none
  | a :: b :: rest =>
    if a = 0x0D ∧ b = 0x0A then some 0 else (findCrlf (b :: rest)).map (· + 1)

/-- The text of the first line after its marker, and where the line ends. -/
def parseLine (buffer : Bytes) : Except RespError (String × Nat) :=
  match findCrlf buffer with
  | none => .error .incomplete
  | some stop =>
    match fromUtf8 ((buffer.take stop).drop 1) with
    | none => .error .utf8
    | some s => .ok (s, stop)

/-- A line that holds an `i64`. -/
def parseLength (buffer : Bytes) : Except RespError (Int × Nat) :=
  match parseLine buffer with
  | .error e => .error e
  | .ok (s, stop) =>
    match parseI64 s.toList with
    | none => .error .parseInt
    | some n => .ok (n, stop)

/-! ## Values without elements -/

variable (lim : Limits) (parseF64 : String → Option F64)

/-- `parse_simple_string` and `parse_error`. -/
def parseText (make : String → Value) (buffer : Bytes) : Except RespError (Value × Nat) :=
  match parseLine buffer with
  | .error e => .error e
  | .ok (s, stop) => .ok (make s, stop + 2)

def parseInteger (buffer : Bytes) : Except RespError (Value × Nat) :=
  match parseLength buffer with
  | .error e => .error e
  | .ok (n, stop) => .ok (.integer (.ofInt n), stop + 2)

/-- The payload of a given length that starts after the line that ends at `stop`. -/
def parsePayload (missing : String) (buffer : Bytes) (len stop : Nat) :
    Except RespError (Bytes × Nat) :=
  if lim.bulkLen < len then .error .bulkLengthExceeded
  else if buffer.length < stop + 2 + len + 2 then .error .incomplete
  else if (buffer.drop (stop + 2 + len)).take 2 = crlf then
    .ok ((buffer.drop (stop + 2)).take len, stop + 2 + len + 2)
  else .error (.invalidFormat missing)

def parseBulkString (buffer : Bytes) : Except RespError (Value × Nat) :=
  match parseLength buffer with
  | .error e => .error e
  | .ok (len, stop) =>
    if len = -1 then .ok (.nil, stop + 2)
    else if len < 0 then .error (.invalidFormat s!"Invalid bulk string length: {len}")
    else
      match parsePayload lim "Missing trailing CRLF after bulk data" buffer len.toNat stop with
      | .error e => .error e
      | .ok (data, consumed) => .ok (.bulkString data, consumed)

def parseBoolean (buffer : Bytes) : Except RespError (Value × Nat) :=
  match buffer with
  | _ :: b :: _ :: _ =>
    if b = 0x74 ∨ b = 0x66 then
      if (buffer.drop 2).take 2 = crlf then .ok (.boolean (b = 0x74), 4) else .error .incomplete
    else .error (.invalidFormat s!"Invalid boolean value: {b}")
  | _ => .error .incomplete

def parseDouble (buffer : Bytes) : Except RespError (Value × Nat) :=
  match parseLine buffer with
  | .error e => .error e
  | .ok (s, stop) =>
    match parseF64 s with
    | none => .error (.invalidFormat s!"Invalid double value: {s}")
    | some d => .ok (.double d, stop + 2)

def parseNull (buffer : Bytes) : Except RespError (Value × Nat) :=
  if buffer.length < 3 then .error .incomplete
  else if (buffer.drop 1).take 2 = crlf then .ok (.nil, 3)
  else .error (.invalidFormat "Invalid null encoding")

/-- An optional sign and at least one digit. -/
def isBigNumber (s : List Char) : Bool :=
  let body := match s with
    | '+' :: rest => rest
    | '-' :: rest => rest
    | s => s
  !body.isEmpty && body.all Char.isDigit

def parseBigNumber (buffer : Bytes) : Except RespError (Value × Nat) :=
  match parseLine buffer with
  | .error e => .error e
  | .ok (s, stop) =>
    if isBigNumber s.toList then .ok (.bigNumber s, stop + 2)
    else .error (.invalidFormat s!"Invalid big number value: {s}")

def parseLengthPrefixed (buffer : Bytes) : Except RespError (Bytes × Nat) :=
  match parseLength buffer with
  | .error e => .error e
  | .ok (len, stop) =>
    if len < 0 then .error (.invalidFormat s!"Invalid length-prefixed value length: {len}")
    else
      parsePayload lim "Missing trailing CRLF after length-prefixed payload" buffer len.toNat stop

def parseBlobError (buffer : Bytes) : Except RespError (Value × Nat) :=
  match parseLengthPrefixed lim buffer with
  | .error e => .error e
  | .ok (data, consumed) =>
    match fromUtf8 data with
    | none => .error .utf8
    | some s => .ok (.error s, consumed)

def parseVerbatim (buffer : Bytes) : Except RespError (Value × Nat) :=
  match parseLengthPrefixed lim buffer with
  | .error e => .error e
  | .ok (a :: b :: c :: d :: payload, consumed) =>
    if d = 0x3A then .ok (.verbatimString (a, b, c) payload, consumed)
    else .error (.invalidFormat "Invalid verbatim string format header")
  | .ok _ => .error (.invalidFormat "Invalid verbatim string format header")

/-- The tokens of a line, separated by blanks and tabs. -/
def tokens (current : Bytes) : Bytes → List Bytes
  | [] => [current.reverse]
  | b :: rest =>
    if b = 0x20 ∨ b = 0x09 then current.reverse :: tokens [] rest else tokens (b :: current) rest

/-- `memchr` is the search for the first LF, as it documents. -/
def parseInline (buffer : Bytes) : Except RespError (Value × Nat) :=
  match buffer.findIdx? (· = 0x0A) with
  | some nl =>
    if lim.inlineLen < nl then .error .inlineTooLong
    else
      -- The optional trailing CR is not part of the line.
      let text := buffer.take nl
      let text := if text.getLast? = some 0x0D then text.dropLast else text
      .ok (.array (((tokens [] text).filter fun tok => !tok.isEmpty).map .bulkString), nl + 1)
  | none => if lim.inlineLen < buffer.length then .error .inlineTooLong else .error .incomplete

/-! ## Aggregates -/

/-- The number of elements, and where they start. -/
def parseCount (name : String) (buffer : Bytes) : Except RespError (Nat × Nat) :=
  match parseLength buffer with
  | .error e => .error e
  | .ok (len, stop) =>
    if len < 0 then .error (.invalidFormat s!"Invalid {name} length: {len}")
    else if (lim.multibulkLen : Int) < len then .error .multibulkLengthExceeded
    else .ok (len.toNat, stop + 2)

/-- The loop over the elements, from a position on. -/
def parseElements (parse : Bytes → Except RespError (Value × Nat)) (buffer : Bytes) :
    Nat → Nat → Except RespError (List Value × Nat)
  | 0, position => .ok ([], position)
  | n + 1, position =>
    if buffer.length ≤ position then .error .incomplete
    else
      match parse (buffer.drop position) with
      | .error e => .error e
      | .ok (v, consumed) =>
        match parseElements parse buffer n (position + consumed) with
        | .error e => .error e
        | .ok (vs, position) => .ok (v :: vs, position)

/-- The loop over the entries: a key and a value each time. -/
def parseEntries (parse : Bytes → Except RespError (Value × Nat)) (buffer : Bytes) :
    Nat → Nat → Except RespError (List (Value × Value) × Nat)
  | 0, position => .ok ([], position)
  | n + 1, position =>
    if buffer.length ≤ position then .error .incomplete
    else
      match parse (buffer.drop position) with
      | .error e => .error e
      | .ok (k, consumed) =>
        let position := position + consumed
        if buffer.length ≤ position then .error .incomplete
        else
          match parse (buffer.drop position) with
          | .error e => .error e
          | .ok (v, consumed) =>
            match parseEntries parse buffer n (position + consumed) with
            | .error e => .error e
            | .ok (entries, position) => .ok ((k, v) :: entries, position)

/-- `parse_set` and `parse_push`, and `parse_array` for a length other than -1. -/
def parseAggregate (name : String) (make : List Value → Value)
    (parse : Bytes → Except RespError (Value × Nat)) (buffer : Bytes) :
    Except RespError (Value × Nat) :=
  match parseCount lim name buffer with
  | .error e => .error e
  | .ok (n, position) =>
    match parseElements parse buffer n position with
    | .error e => .error e
    | .ok (vs, position) => .ok (make vs, position)

def parseArray (parse : Bytes → Except RespError (Value × Nat)) (buffer : Bytes) :
    Except RespError (Value × Nat) :=
  match parseLength buffer with
  | .error e => .error e
  | .ok (len, stop) =>
    if len = -1 then .ok (.nilArray, stop + 2) else parseAggregate lim "array" .array parse buffer

def parseMap (parse : Bytes → Except RespError (Value × Nat)) (buffer : Bytes) :
    Except RespError (Value × Nat) :=
  match parseCount lim "map" buffer with
  | .error e => .error e
  | .ok (n, position) =>
    match parseEntries parse buffer n position with
    | .error e => .error e
    | .ok (entries, position) => .ok (.map entries, position)

/-- The attributes are read and dropped; the value follows them. -/
def parseAttribute (parse parseNext : Bytes → Except RespError (Value × Nat)) (buffer : Bytes) :
    Except RespError (Value × Nat) :=
  match parseCount lim "attribute" buffer with
  | .error e => .error e
  | .ok (n, position) =>
    match parseEntries parse buffer n position with
    | .error e => .error e
    | .ok (_, position) =>
      if buffer.length ≤ position then .error .incomplete
      else
        match parseNext (buffer.drop position) with
        | .error e => .error e
        | .ok (v, consumed) => .ok (v, position + consumed)

/-! ## Dispatch -/

/-- `parse_value_depth`. -/
def parseValueDepth : Nat → Bytes → Nat → Bool → Except RespError (Value × Nat)
  | 0, _, _, _ => .error .incomplete
  | _ + 1, [], _, _ => .error .incomplete
  | fuel + 1, marker :: rest, depth, allowInline =>
    let buffer := marker :: rest
    let nested := fun buffer => parseValueDepth fuel buffer (depth + 1) false
    if lim.depth < depth then .error .depthExceeded
    else if marker = 0x2B then parseText .simpleString buffer
    else if marker = 0x2D then parseText .error buffer
    else if marker = 0x3A then parseInteger buffer
    else if marker = 0x24 then parseBulkString lim buffer
    else if marker = 0x2A then parseArray lim nested buffer
    else if marker = 0x23 then parseBoolean buffer
    else if marker = 0x2C then parseDouble parseF64 buffer
    else if marker = 0x25 then parseMap lim nested buffer
    else if marker = 0x7E then parseAggregate lim "set" .set nested buffer
    else if marker = 0x5F then parseNull buffer
    else if marker = 0x28 then parseBigNumber buffer
    else if marker = 0x21 then parseBlobError lim buffer
    else if marker = 0x3D then parseVerbatim lim buffer
    else if marker = 0x3E then parseAggregate lim "push" .push nested buffer
    else if marker = 0x7C then
      parseAttribute lim nested (fun buffer => parseValueDepth fuel buffer depth false) buffer
    else if allowInline ∧ depth = 0 then parseInline lim buffer
    else .error (.invalidFormat s!"Unexpected type identifier: {marker}")

def parseValue (buffer : Bytes) : Except RespError (Value × Nat) :=
  parseValueDepth lim parseF64 buffer.length buffer 0 true

def parseValueStrict (buffer : Bytes) : Except RespError (Value × Nat) :=
  parseValueDepth lim parseF64 buffer.length buffer 0 false

end Calod.Resp
