import StealthWage.Handlers

/-! # The browser's client of the enclave

The browser has its own copy of the encoders, since Node's are not there. `fetch` brings back a
status and bytes or fails with a message; `none` is a promise that is rejected. -/
namespace StealthWage.Client
open Base (isObject property scientific)
open Enclave (Command requiredFields)
open Js Json Utf8 Words

/-! ## Encoding -/

def hexDigits : JsString := js "0123456789abcdef"

def toHex (bytes : Bytes) : JsString :=
  bytes.foldl (fun out b => out ++ [hexDigits.getD (b.val / 16) 0, hexDigits.getD (b.val % 16) 0])
    (js "0x")

/-- A longer text is cut. -/
def toBytes32Hex (s : JsString) : JsString :=
  let enc := (encode s).take 32
  toHex (enc ++ List.replicate (32 - enc.length) 0)

def actionId : JsString := js "0x" ++ (List.replicate 32 (js "11")).flatten

/-! ## The request -/

def dataFixed (now : ℤ) (opType opCommand : JsString) (payload : List (JsString × JsString)) :
    List (JsString × Value) :=
  [(js "instructionId", .string actionId),
    (js "teeId", .string (js "0x" ++ (List.replicate 20 (js "22")).flatten)),
    (js "timestamp", .number (bigintText now)), (js "rewardEpochId", .number (bigintText 0)),
    (js "opType", .string (toBytes32Hex opType)), (js "opCommand", .string (toBytes32Hex opCommand)),
    (js "cosigners", .array []), (js "cosignersThreshold", .number (bigintText 0)),
    (js "originalMessage", .string (toHex (encode (stringify payload)))),
    (js "additionalFixedMessage", .string (js "0x"))]

def actionData (now : ℤ) (opType opCommand : JsString) (payload : List (JsString × JsString)) :
    List (JsString × Value) :=
  [(js "id", .string actionId), (js "type", .string (js "instruction")),
    (js "submissionTag", .string (js "submit")),
    (js "message", .string (toHex (encode
      (Json.text id (.object (dataFixed now opType opCommand payload))))))]

def action (now : ℤ) (opType opCommand : JsString) (payload : List (JsString × JsString)) : Value :=
  .object [(js "data", .object (actionData now opType opCommand payload)),
    (js "additionalVariableMessages", .array []), (js "timestamps", .array []),
    (js "additionalActionData", .string (js "0x")), (js "signatures", .array [])]

/-- The body of a `POST /action`, at a second of the browser's clock. -/
def buildActionBody (now : ℤ) (opType opCommand : JsString)
    (payload : List (JsString × JsString)) : JsString :=
  Json.text id (action now opType opCommand payload)

/-- The seven strings of a request, in the order in which the caller wrote them. -/
structure Payload where
  members : List (JsString × JsString)
  fields : (members.map Prod.fst).Perm requiredFields

/-! ## The answer -/

inductive Failure
  | unreachable (detail : JsString)
  | rejected (detail : JsString)

inductive Answer
  | authorized (auth : Value)
  | failed (error : Failure)

/-- `value === 1`; a numeral is the double nearest to it. -/
def isOne : Option Value → Bool
  | some (.number text) =>
    let (digits, exponent) := scientific text
    let digits := if exponent < 0 then digits else digits * 10 ^ exponent.natAbs
    let scale := if exponent < 0 then 10 ^ exponent.natAbs else 1
    text.head? ≠ some 45 && (2 ^ 54 - 1) * scale ≤ 2 ^ 54 * digits &&
      2 ^ 53 * digits ≤ (2 ^ 53 + 1) * scale
  | _ => false

/-- `text.replace(/^error:\s*/, "")` -/
def stripError (text : JsString) : JsString :=
  if (js "error:").isPrefixOf text then (text.drop 6).dropWhile isSpace else text

/-- The dot of a regular expression. -/
def isDot (u : CodeUnit) : Bool := !(u = 10 || u = 13 || u = 0x2028 || u = 0x2029)

/-- `text.match(/.{2}/g)` -/
def pairs : JsString → List JsString
  | a :: b :: s => if isDot a && isDot b then [a, b] :: pairs s else pairs (b :: s)
  | _ => []

/-- `parseInt(text, 16)`; `none` is not a number. -/
def parseInt16 (text : JsString) : Option ℤ :=
  let s := text.dropWhile isSpace
  let sign : ℤ := if s.head? = some 45 then -1 else 1
  let s := if s.head? = some 45 ∨ s.head? = some 43 then s.tail else s
  let s := if (js "0x").isPrefixOf s || (js "0X").isPrefixOf s then s.drop 2 else s
  match s.map hexDigit? |>.takeWhile Option.isSome |>.reduceOption with
  | [] => none
  | digits => some (sign * (digits.foldl (fun acc d => 16 * acc + d.val) 0 : ℕ))

/-- An element of a `Uint8Array`. -/
def toByte (n : Option ℤ) : Byte := byte ((n.getD 0) % 256).natAbs

/-- `TextDecoder` drops a mark at the start, and so does `Response.json`. -/
def textDecode (b : Bytes) : JsString :=
  decode (if [0xEF, 0xBB, 0xBF].isPrefixOf b then b.drop 3 else b)

def readAuthorization (data : Value) : Option Answer :=
  match data with
  | .string hex =>
    match pairs (hex.drop 2) with
    | [] => none
    | ps => (parse (textDecode (ps.map fun p => toByte (parseInt16 p)))).map .authorized
  | _ => none

/-- `detail || "authorization refused"` -/
def rejection (detail : JsString) : Answer :=
  .failed (.rejected (if detail = [] then js "authorization refused" else detail))

def readResult (body : Value) : Option Answer :=
  match body with
  | .null => none
  | _ =>
    if isOne (property body (js "status")) then
      (property body (js "data")).bind readAuthorization
    else
      match property body (js "log") with
      | none => some (rejection [])
      | some .null => some (rejection [])
      | some (.string log) => some (rejection (stripError log))
      | some _ => none

def readResponse (status : ℕ) (bytes : Bytes) : Option Answer :=
  if 200 ≤ status ∧ status ≤ 299 then (parse (textDecode bytes)).bind readResult
  else some (.failed (.unreachable (js "HTTP " ++ decimal status)))

def commandText : Command → JsString
  | .authWithdraw => App.opCommandAuthWithdraw
  | .authSettle => App.opCommandAuthSettle

def requestAuthorization (fetch : JsString → Except JsString (ℕ × Bytes)) (now : ℤ)
    (command : Command) (payload : Payload) : Option Answer :=
  match fetch (buildActionBody now (js "STREAM") (commandText command) payload.members) with
  | .error detail => some (.failed (.unreachable detail))
  | .ok (status, bytes) => readResponse status bytes

end StealthWage.Client
