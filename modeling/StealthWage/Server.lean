import StealthWage.Enclave

/-! # The server

`handleRequest` of the TypeScript server for any registered handlers. What JSON gives is used
without a schema: a member that is absent is `undefined`, a value of another type throws where
a method of strings is called on it, and `none` in place of a reply is a rejected promise. -/
namespace StealthWage.Base
open Enclave Js Json Utf8 Words

/-! ## JSON values in the language -/

/-- `value.key`, for keys that no prototype has. -/
def property (v : Value) (key : JsString) : Option Value :=
  match v with
  | .object members => (members.find? fun m => m.1 = key).map Prod.snd
  | _ => none

/-- The digits of a number as one natural number, and the power of ten that goes with it. -/
def scientific (text : JsString) : ℕ × ℤ :=
  let s := if text.head? = some 45 then text.tail else text
  let whole := s.takeWhile isDigit
  let s := s.dropWhile isDigit
  let part := if s.head? = some 46 then s.tail.takeWhile isDigit else []
  let s := if s.head? = some 46 then s.tail.dropWhile isDigit else s
  let exponent : ℤ :=
    if s.tail.head? = some 45 then -numberOf s.tail.tail
    else if s.tail.head? = some 43 then numberOf s.tail.tail
    else numberOf s.tail
  (numberOf (whole ++ part), exponent - part.length)

/-- Half the smallest double is 2 to the power of -1075; it rounds to zero. -/
def isZero (text : JsString) : Bool :=
  let (digits, exponent) := scientific text
  if exponent < 0 then digits * 2 ^ 1075 ≤ 10 ^ exponent.natAbs else digits = 0

/-- `!value` -/
def falsy : Option Value → Bool
  | none => true
  | some .null => true
  | some (.bool b) => !b
  | some (.number text) => isZero text
  | some (.string s) => s.isEmpty
  | some (.array _) => false
  | some (.object _) => false

/-- `value ?? text` -/
def orText (value : Option Value) (text : JsString) : Value :=
  match value with
  | none => .string text
  | some .null => .string text
  | some v => v

mutual

/-- `String(value)` does not throw: an object's own `toString` is not a function and hides the
inherited one, whereupon `valueOf` is no help. -/
def prints : Value → Bool
  | .array items => printsAll items
  | .object members => !members.any fun m => m.1 = js "toString"
  | _ => true

def printsAll : List Value → Bool
  | [] => true
  | v :: vs => prints v && printsAll vs

end

/-- An `Error`, and what `String(e)` makes of it. -/
structure Thrown where
  name : JsString
  message : JsString

def Thrown.text (e : Thrown) : JsString := e.name ++ js ": " ++ e.message

def parseJson (R : Runtime) (s : JsString) : Except Thrown Value :=
  match parse s with
  | some v => .ok v
  | none => .error ⟨js "SyntaxError", R.syntaxError s⟩

/-- `hexToBytes` of whatever JSON gave. -/
def hexArg : Option Value → Except Thrown Bytes
  | none => .ok []
  | some .null => .ok []
  | some (.string s) => (hexToBytes s).mapError fun message => ⟨js "Error", message⟩
  | some _ => .error ⟨js "TypeError", js "s.startsWith is not a function"⟩

/-! ## Identifiers -/

/-- UTF-8, filled up with zeros on the right. -/
def padded (s : JsString) : Bytes := encode s ++ List.replicate (32 - (encode s).length) 0

/-- `none` where the text is too long. -/
def stringToBytes32Hex (s : JsString) : Option JsString :=
  if (encode s).length > 32 then none else some (bytesToHex (padded s))

def emptyBytes32 : JsString := bytesToHex (padded [])

def startsWith0x (s : JsString) : Bool := (js "0x").isPrefixOf s

/-- `none` is the TypeError of a value that has no `toLowerCase`. -/
def normalize (C : CaseMap) (h : Option Value) : Option JsString :=
  if falsy h then some emptyBytes32
  else
    match h with
    | some (.string s) =>
      let lower := C.toLowerCase s
      some (if startsWith0x lower then lower else js "0x" ++ lower)
    | _ => none

/-! ## Dispatch -/

/-- A handler gets what JSON gave and may throw. -/
abbrev Handler (σ : Type) := Value → σ → Option (HandlerResult × σ)

structure Route (σ : Type) where
  opType : JsString
  opCommand : JsString
  handler : Handler σ

abbrev Framework (σ : Type) := List (Route σ)

section dispatch

variable {σ : Type}

def Framework.handle (f : Framework σ) (opType opCommand : JsString) (handler : Handler σ) :
    Option (Framework σ) := do
  let t ← stringToBytes32Hex opType
  let c ← stringToBytes32Hex opCommand
  return f ++ [⟨t, c, handler⟩]

/-- The route of two identifiers in normal form: the exact one, or else the default. -/
def Framework.route (f : Framework σ) (t c : JsString) : Option (Route σ) :=
  (f.find? fun r => r.opType = t ∧ r.opCommand = c).or
    (f.find? fun r => r.opType = t ∧ r.opCommand = emptyBytes32)

def Framework.lookup (C : CaseMap) (f : Framework σ) (opType opCommand : Option Value) :
    Option (Option (Handler σ)) := do
  let t ← normalize C opType
  let c ← normalize C opCommand
  return (f.route t c).map Route.handler

end dispatch

/-! ## Replies -/

/-- Text, or an object of which `JSON.stringify` drops the members that are `undefined`. -/
inductive Payload
  | text (s : JsString)
  | json (members : List (JsString × Option Value))

structure Reply where
  status : ℕ
  payload : Payload

/-- The members that are written. -/
def kept (members : List (JsString × Option Value)) : List (JsString × Value) :=
  members.filterMap fun m => m.2.map fun v => (m.1, v)

def Payload.body (numberText : JsString → JsString) : Payload → JsString
  | .text s => s
  | .json members => Json.text numberText (ordered (.object (kept members)))

structure ActionResult where
  id : Option Value
  submissionTag : Option Value
  status : ℕ
  log : JsString
  opType : Option Value
  opCommand : Option Value
  additionalResultStatus : JsString
  version : JsString
  data : JsString

def ActionResult.members (r : ActionResult) : List (JsString × Option Value) :=
  [(js "id", r.id), (js "submissionTag", r.submissionTag),
    (js "status", some (.number (decimal r.status))), (js "log", some (.string r.log)),
    (js "opType", r.opType), (js "opCommand", r.opCommand),
    (js "additionalResultStatus", some (.string r.additionalResultStatus)),
    (js "version", some (.string r.version)), (js "data", some (.string r.data))]

def badRequest (message : JsString) : Reply := ⟨400, .json [(js "error", some (.string message))]⟩

/-! ## Requests -/

structure Server (σ : Type) where
  version : JsString
  stateVersionHex : JsString
  framework : Framework σ
  reportState : σ → List (JsString × Value)

/-- `typeof value === "object"`, `null` apart. -/
def isObject : Value → Bool
  | .object _ => true
  | .array _ => true
  | _ => false

/-- `action.data` and the bytes of its message, or the early reply. -/
def readAction (R : Runtime) (body : JsString) : Except Reply (Value × Bytes) :=
  match parseJson R body with
  | .error e => .error (badRequest (js "invalid action JSON: " ++ e.text))
  | .ok action =>
    match property action (js "data") with
    | some data =>
      if isObject action && !falsy (some data) then
        match hexArg (property data (js "message")) with
        | .error e => .error (badRequest (js "invalid hex in message: " ++ e.text))
        | .ok bytes => .ok (data, bytes)
      else .error (badRequest (js "invalid action structure: missing data"))
    | none => .error (badRequest (js "invalid action structure: missing data"))

def readDataFixed (R : Runtime) (bytes : Bytes) : Except Reply Value :=
  match parseJson R (decode bytes) with
  | .error e => .error (badRequest (js "invalid DataFixed JSON in message: " ++ e.text))
  | .ok df =>
    if isObject df && !falsy (property df (js "opType")) then .ok df
    else .error (badRequest (js "invalid DataFixed: missing opType"))

def readRequestBody (R : Runtime) (body : JsString) : Except Reply (Value × Value) := do
  let (data, bytes) ← readAction R body
  let df ← readDataFixed R bytes
  return (data, df)

/-- Log values are part of the contract. -/
def logOf (res : HandlerResult) : JsString :=
  if res.status = 0 then
    match res.error with
    | some (u :: err) => js "error: " ++ u :: err
    | _ => js "error: unknown"
  else if res.status = 1 then js "ok"
  else js "pending"

section requests

variable {σ : Type} (R : Runtime) (srv : Server σ)

def resultOf (data df : Value) (res : HandlerResult) : ActionResult where
  id := property data (js "id")
  submissionTag := property data (js "submissionTag")
  status := res.status
  log := logOf res
  opType := property df (js "opType")
  opCommand := property df (js "opCommand")
  additionalResultStatus := js "0x"
  version := srv.version
  data := res.data.getD (js "0x")

def processAction (body : JsString) (s : σ) : Option Reply × σ :=
  match readRequestBody R body with
  | .error reply => (some reply, s)
  | .ok (data, df) =>
    match srv.framework.lookup R.caseMap (property df (js "opType"))
        (some (orText (property df (js "opCommand")) [])) with
    | none => (none, s)
    | some none => (some ⟨501, .text (js "unsupported op type")⟩, s)
    | some (some handler) =>
      match handler (orText (property df (js "originalMessage")) (js "0x")) s with
      | none => (none, s)
      | some (res, s') =>
        -- the line that is logged prints the id
        if (property data (js "id")).all prints then
          (some ⟨200, .json (resultOf srv data df res).members⟩, s')
        else (none, s')

def processState (s : σ) : Option Reply × σ :=
  (some ⟨200, .json [(js "stateVersion", some (.string srv.stateVersionHex)),
    (js "state", some (.object (srv.reportState s)))]⟩, s)

def handleRequest (method path body : JsString) (s : σ) : Option Reply × σ :=
  let clean := path.takeWhile (· ≠ 63)
  if clean = js "/action" then
    if method = js "POST" then processAction R srv body s
    else (some ⟨405, .text (js "method not allowed")⟩, s)
  else if clean = js "/state" then
    if method = js "GET" then processState srv s
    else (some ⟨405, .text (js "method not allowed")⟩, s)
  else (some ⟨404, .text (js "not found")⟩, s)

end requests

end StealthWage.Base
