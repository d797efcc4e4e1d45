import StealthWage.PythonJson

/-! # The Python server

`handle_request` of the Python server for any registered handlers. Which exceptions a `try`
catches is decided by their kind; what is not caught leaves `handle_request`. -/
namespace StealthWage.Python
open Js Json Utf8 Words
open Base (emptyBytes32 padded startsWith0x)
open Enclave (HandlerResult)

/-- The interpreter's case table and texts, and the ABI decoder of the requirements file. -/
structure Interpreter where
  caseMap : CaseMap
  loadsError : Bytes → JsString
  fromhexError : JsString → JsString
  repr : JsString → JsString
  format : Value → JsString
  abiDecode : Bytes → Except JsString (JsString × JsString)

/-! ## Exceptions -/

inductive Kind
  | keyError
  | typeError
  | valueError
  | attributeError
  deriving DecidableEq

structure Raised where
  kind : Kind
  text : JsString

/-- `type(value).__name__` -/
def typeName : Value → JsString
  | .null => js "NoneType"
  | .bool _ => js "bool"
  | .number text => if text.all fun u => isDigit u || u = 45 then js "int" else js "float"
  | .string _ => js "str"
  | .array _ => js "list"
  | .object _ => js "dict"

def noAttribute (v : Value) (name : JsString) : Raised :=
  ⟨.attributeError, js "'" ++ typeName v ++ js "' object has no attribute '" ++ name ++ js "'"⟩

/-- `value[key]` for a key that is a string. -/
def subscript (v : Value) (key : JsString) : Except Raised Value :=
  match v with
  | .object members =>
    match members.find? fun m => m.1 = key with
    | some m => .ok m.2
    | none => .error ⟨.keyError, js "'" ++ key ++ js "'"⟩
  | .array _ => .error ⟨.typeError, js "list indices must be integers or slices, not str"⟩
  | .string _ => .error ⟨.typeError, js "string indices must be integers, not 'str'"⟩
  | v => .error ⟨.typeError, js "'" ++ typeName v ++ js "' object is not subscriptable"⟩

/-- `value.get(key, default)` -/
def getOf (v : Value) (key : JsString) (default : Value) : Except Raised Value :=
  match v with
  | .object members => .ok (get members key default)
  | v => .error (noAttribute v (js "get"))

/-! ## Encoding -/

variable (I : Interpreter)

def loadsOf (b : Bytes) : Except Raised Value :=
  match loads b with
  | some v => .ok v
  | none => .error ⟨.valueError, I.loadsError b⟩

def isAsciiSpace (u : CodeUnit) : Bool := (9 ≤ u.val && u.val ≤ 13) || u = 32

theorem digits_lt (high low : Fin 16) : 16 * high.val + low.val < 256 := by omega

/-- `bytes.fromhex`, which skips white space between two bytes. -/
def fromhex : JsString → Option Bytes
  | [] => some []
  | u :: s =>
    if isAsciiSpace u then fromhex s
    else
      match s with
      | [] => none
      | v :: t =>
        match hexDigit? u, hexDigit? v, fromhex t with
        | some high, some low, some rest => some (⟨16 * high.val + low.val, digits_lt high low⟩ :: rest)
        | _, _, _ => none

/-- `s.removeprefix(start)` -/
def strip (start s : JsString) : JsString := if start.isPrefixOf s then s.drop start.length else s

/-- `hex_to_bytes` of whatever JSON gave. -/
def hexToBytes (h : Value) : Except Raised Bytes :=
  match h with
  | .null => .ok []
  | .string s =>
    let digits := strip (js "0X") (strip (js "0x") s)
    if digits = [] then .ok []
    else
      match fromhex digits with
      | some b => .ok b
      | none => .error ⟨.valueError, I.fromhexError digits⟩
  | v => .error (noAttribute v (js "removeprefix"))

/-- `"0x" + b.hex()` -/
def bytesToHex (b : Bytes) : JsString := js "0x" ++ hexOf b

def stringToBytes32Hex (s : JsString) : Option JsString :=
  if wellFormed s ∧ (encode s).length ≤ 32 then some (bytesToHex (padded s)) else none

/-- The line that is logged shows the identifiers as text. -/
def bytes32HexToString (h : Value) : Except Raised JsString :=
  match hexToBytes I h with
  | .error e => if e.kind = .valueError then .ok [] else .error e
  | .ok b => .ok (decode (b.reverse.dropWhile (· = 0)).reverse)

/-! ## Wire types -/

structure ActionData where
  id : Value
  type : Value
  submissionTag : Value
  message : Value

structure Action where
  data : ActionData
  additionalVariableMessages : Value
  timestamps : Value
  additionalActionData : Value
  signatures : Value

structure DataFixed where
  instructionId : Value
  opType : Value
  opCommand : Value
  teeId : Value
  timestamp : Value
  rewardEpochId : Value
  cosigners : Value
  cosignersThreshold : Value
  originalMessage : Value
  additionalFixedMessage : Value

def parseAction (raw : Value) : Except Raised Action := do
  let dataRaw ← subscript raw (js "data")
  let id ← subscript dataRaw (js "id")
  let type ← getOf dataRaw (js "type") (.string [])
  let submissionTag ← getOf dataRaw (js "submissionTag") (.string [])
  let message ← subscript dataRaw (js "message")
  let additionalVariableMessages ← getOf raw (js "additionalVariableMessages") .null
  let timestamps ← getOf raw (js "timestamps") .null
  let additionalActionData ← getOf raw (js "additionalActionData") .null
  let signatures ← getOf raw (js "signatures") .null
  return ⟨⟨id, type, submissionTag, message⟩, orElse additionalVariableMessages (.array []),
    orElse timestamps (.array []), orElse additionalActionData (.string (js "0x")),
    orElse signatures (.array [])⟩

def parseDataFixed (raw : Value) : Except Raised DataFixed := do
  let instructionId ← getOf raw (js "instructionId") (.string [])
  let opType ← subscript raw (js "opType")
  let opCommand ← getOf raw (js "opCommand") (.string [])
  let teeId ← getOf raw (js "teeId") (.string [])
  let timestamp ← getOf raw (js "timestamp") (.number (js "0"))
  let rewardEpochId ← getOf raw (js "rewardEpochId") (.number (js "0"))
  let cosigners ← getOf raw (js "cosigners") .null
  let cosignersThreshold ← getOf raw (js "cosignersThreshold") (.number (js "0"))
  let originalMessage ← getOf raw (js "originalMessage") .null
  let additionalFixedMessage ← getOf raw (js "additionalFixedMessage") .null
  return ⟨instructionId, opType, opCommand, teeId, timestamp, rewardEpochId,
    orElse cosigners (.array []), cosignersThreshold, orElse originalMessage (.string (js "0x")),
    orElse additionalFixedMessage (.string (js "0x"))⟩

structure ActionResult where
  id : Value
  submissionTag : Value
  status : ℕ
  opType : Value
  opCommand : Value
  version : JsString
  log : Option JsString
  additionalResultStatus : Option JsString
  data : Option JsString

/-- `text or other`, for a text that may be `None`. -/
def textOr (text : Option JsString) (other : JsString) : Value :=
  .string (match text with
    | some (u :: s) => u :: s
    | _ => other)

def ActionResult.toDict (r : ActionResult) : List (JsString × Value) :=
  [(js "id", r.id), (js "submissionTag", r.submissionTag), (js "status", .number (decimal r.status)),
    (js "log", textOr r.log []), (js "opType", r.opType), (js "opCommand", r.opCommand),
    (js "additionalResultStatus", textOr r.additionalResultStatus (js "0x")),
    (js "version", .string r.version), (js "data", textOr r.data (js "0x"))]

/-! ## Dispatch -/

/-- `_normalize` -/
def normalize (h : Value) : Except Raised JsString :=
  if falsy h then .ok emptyBytes32
  else
    match h with
    | .string s =>
      let lower := I.caseMap.toLowerCase s
      .ok (if startsWith0x lower then lower else js "0x" ++ lower)
    | v => .error (noAttribute v (js "lower"))

/-- A handler that raises has changed nothing. -/
abbrev Handler (σ : Type) := Value → σ → Except Raised (HandlerResult × σ)

structure Route (σ : Type) where
  opType : JsString
  opCommand : JsString
  handler : Handler σ

abbrev Framework (σ : Type) := List (Route σ)

section dispatch

variable {σ : Type}

def Framework.handle (f : Framework σ) (opType opCommand : JsString) (handler : Handler σ) :
    Option (Framework σ) := do
  let t ← stringToBytes32Hex opType
  let c ← stringToBytes32Hex opCommand
  return f ++ [⟨t, c, handler⟩]

/-- Exact match first, then the wildcard. -/
def Framework.route (f : Framework σ) (t c : JsString) : Option (Route σ) :=
  (f.find? fun r => r.opType = t ∧ r.opCommand = c).or
    (f.find? fun r => r.opType = t ∧ r.opCommand = emptyBytes32)

def Framework.lookup (f : Framework σ) (opType opCommand : Value) :
    Except Raised (Option (Handler σ)) := do
  let t ← normalize I opType
  let c ← normalize I opCommand
  return (f.route t c).map Route.handler

end dispatch

/-! ## Requests -/

inductive Payload
  | text (s : JsString)
  | dict (members : List (JsString × Value))

structure Reply where
  status : ℕ
  payload : Payload

/-- What `handle_request` returns, or the exception that leaves it. -/
abbrev Outcome := Except Raised Reply

def badRequest (message : JsString) : Reply := ⟨400, .dict [(js "error", .string message)]⟩

/-- `try … except kinds as e: return 400, {"error": label + str(e)}` -/
def catching {α : Type} (kinds : List Kind) (label : JsString) :
    Except Raised α → Except Outcome α
  | .ok a => .ok a
  | .error e => .error (if e.kind ∈ kinds then .ok (badRequest (label ++ e.text)) else .error e)

def readRequestBody (body : Bytes) : Except Outcome (Action × DataFixed) := do
  let raw ← catching [.valueError] (js "invalid action JSON: ") (loadsOf I body)
  let action ← catching [.keyError, .typeError] (js "invalid action structure: ") (parseAction raw)
  let bytes ← catching [.valueError] (js "invalid hex in message: ")
    (hexToBytes I action.data.message)
  let df ← catching [.valueError, .keyError, .typeError]
    (js "invalid DataFixed JSON in message: ") (loadsOf I bytes >>= parseDataFixed)
  return (action, df)

/-- Log values are part of the contract. -/
def logOf (res : HandlerResult) : JsString :=
  if res.status = 0 then
    match res.error with
    | some (u :: err) => js "error: " ++ u :: err
    | _ => js "error: unknown"
  else if res.status = 1 then js "ok"
  else js "pending"

structure Server (σ : Type) where
  version : JsString
  stateVersionHex : JsString
  framework : Framework σ
  reportState : σ → List (JsString × Value)

section requests

variable {σ : Type} (srv : Server σ)

def resultOf (action : Action) (df : DataFixed) (res : HandlerResult) : ActionResult where
  id := action.data.id
  submissionTag := action.data.submissionTag
  status := res.status
  opType := df.opType
  opCommand := df.opCommand
  version := srv.version
  log := some (logOf res)
  additionalResultStatus := none
  data := res.data

def processAction (body : Bytes) (s : σ) : Outcome × σ :=
  match readRequestBody I body with
  | .error outcome => (outcome, s)
  | .ok (action, df) =>
    match srv.framework.lookup I df.opType df.opCommand with
    | .error e => (.error e, s)
    | .ok none => (.ok ⟨501, .text (js "unsupported op type")⟩, s)
    | .ok (some handler) =>
      match handler df.originalMessage s with
      | .error e => (.error e, s)
      | .ok (res, s') =>
        match bytes32HexToString I df.opType, bytes32HexToString I df.opCommand with
        | .ok _, .ok _ => (.ok ⟨200, .dict (resultOf srv action df res).toDict⟩, s')
        | .error e, _ => (.error e, s')
        | .ok _, .error e => (.error e, s')

def processState (s : σ) : Outcome × σ :=
  (.ok ⟨200, .dict [(js "stateVersion", .string srv.stateVersionHex),
    (js "state", .object (srv.reportState s))]⟩, s)

def handleRequest (method path : JsString) (body : Bytes) (s : σ) : Outcome × σ :=
  let path := path.takeWhile (· ≠ 63)
  if path = js "/action" then
    if method = js "POST" then processAction I srv body s
    else (.ok ⟨405, .text (js "method not allowed")⟩, s)
  else if path = js "/state" then
    if method = js "GET" then processState srv s
    else (.ok ⟨405, .text (js "method not allowed")⟩, s)
  else (.ok ⟨404, .text (js "not found")⟩, s)

end requests

end StealthWage.Python
