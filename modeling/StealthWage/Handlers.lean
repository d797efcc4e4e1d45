import StealthWage.Server

/-! # The shipped handlers

Greetings, farewells and the two stream commands, as the TypeScript extension registers them. -/
namespace StealthWage.App
open Base Enclave Js Json Utf8 Words

/-- The decoder of two strings in an ABI tuple is viem's; its error is a message. -/
structure Host extends Runtime where
  decodeStrings : Bytes → Except JsString (JsString × JsString)

structure State where
  greetingCount : ℕ
  lastGreeting : JsString
  farewellCount : ℕ
  lastFarewell : JsString
  enclave : EnclaveState

def State.initial : State := ⟨0, [], 0, [], ⟨0, []⟩⟩

def opTypeGreeting : JsString := js "GREETING"
def opCommandSayHello : JsString := js "SAY_HELLO"
def opCommandSayGoodbye : JsString := js "SAY_GOODBYE"
def opTypeStream : JsString := js "STREAM"
def opCommandAuthWithdraw : JsString := js "AUTH_WITHDRAW"
def opCommandAuthSettle : JsString := js "AUTH_SETTLE"
def version : JsString := js "0.1.0"

variable (H : Host)

/-! ## Greetings -/

def greetingOf (name : JsString) : JsString :=
  js "Hello, " ++ name ++ js "! Welcome to Flare Confidential Compute."

def farewellOf (name reason : JsString) : JsString :=
  js "Goodbye, " ++ name ++ js "! Reason: " ++ reason

/-- A text and its number under two keys. -/
def numbered (textKey numberKey content : JsString) (n : ℕ) : JsString :=
  Json.text id (.object [(textKey, .string content), (numberKey, .number (decimal n))])

/-- The name in a request, or the refusal. -/
def readHello (msg : Value) : Except JsString JsString :=
  match hexArg (some msg) with
  | .error e => .error (js "decoding request: invalid hex: " ++ e.text)
  | .ok raw =>
    match parseJson H.toRuntime (decode raw) with
    | .error e => .error (js "decoding request: " ++ e.text)
    | .ok (.object members) =>
      match ((members.map Prod.fst).filter (· ≠ js "name")).insertionSort (· ≤ ·) with
      | k :: _ => .error (js "decoding request: unknown field \"" ++ k ++ js "\"")
      | [] =>
        match property (.object members) (js "name") with
        | some (.string (u :: name)) => .ok (u :: name)
        | _ => .error (js "name must not be empty")
    | .ok _ => .error (js "decoding request: expected a JSON object")

def handleSayHello (msg : Value) (s : State) : HandlerResult × State :=
  match readHello H msg with
  | .error text => (refuse text, s)
  | .ok name =>
    let count := s.greetingCount + 1
    let greeting := greetingOf name
    (⟨some (bytesToHex (encode (numbered (js "greeting") (js "greetingNumber") greeting count))), 1,
      none⟩, { s with greetingCount := count, lastGreeting := greeting })

def decodeSayGoodbye (data : Bytes) : Except JsString (JsString × JsString) :=
  (H.decodeStrings data).mapError fun e => js "ABI decode failed: " ++ e

def handleSayGoodbye (msg : Value) (s : State) : HandlerResult × State :=
  match hexArg (some msg) with
  | .error e => (refuse (js "decoding request: invalid hex: " ++ e.text), s)
  | .ok raw =>
    match decodeSayGoodbye H raw with
    | .error e => (refuse (js "decoding request: " ++ e), s)
    | .ok ([], _) => (refuse (js "name must not be empty"), s)
    | .ok (u :: name, reason) =>
      let count := s.farewellCount + 1
      let farewell := farewellOf (u :: name) reason
      (⟨some (bytesToHex (encode (numbered (js "farewell") (js "farewellNumber") farewell count))),
        1, none⟩, { s with farewellCount := count, lastFarewell := farewell })

/-! ## Streams -/

/-- `authorize` of whatever JSON gave. -/
def authorizeValue (now : Clock) (tag : JsString) (msg : Value) (s : State) :
    Option (HandlerResult × State) :=
  match msg with
  | .string text =>
    (authorize H.toRuntime now text tag s.enclave).map fun r => (r.1, { s with enclave := r.2 })
  | _ => some (refuse (js "decoding request: s.startsWith is not a function"), s)

/-! ## Registration -/

def register (now : Clock) : Option (Framework State) := do
  let f ← Framework.handle [] opTypeGreeting opCommandSayHello
    fun msg s => some (handleSayHello H msg s)
  let f ← f.handle opTypeGreeting opCommandSayGoodbye fun msg s => some (handleSayGoodbye H msg s)
  let f ← f.handle opTypeStream opCommandAuthWithdraw
    (authorizeValue H now (Protocol.withdrawTag H.viem))
  f.handle opTypeStream opCommandAuthSettle (authorizeValue H now (Protocol.settleTag H.viem))

def reportState (s : State) : List (JsString × Value) :=
  [(js "greetingCount", .number (decimal s.greetingCount)),
    (js "lastGreeting", .string s.lastGreeting),
    (js "farewellCount", .number (decimal s.farewellCount)),
    (js "lastFarewell", .string s.lastFarewell),
    (js "authCount", .number (decimal s.enclave.authCount))]

/-- The routes of the shipped handlers, in the order of registration. -/
def routes (now : Clock) : Framework State :=
  [⟨bytesToHex (padded opTypeGreeting), bytesToHex (padded opCommandSayHello),
      fun msg s => some (handleSayHello H msg s)⟩,
    ⟨bytesToHex (padded opTypeGreeting), bytesToHex (padded opCommandSayGoodbye),
      fun msg s => some (handleSayGoodbye H msg s)⟩,
    ⟨bytesToHex (padded opTypeStream), bytesToHex (padded opCommandAuthWithdraw),
      authorizeValue H now (Protocol.withdrawTag H.viem)⟩,
    ⟨bytesToHex (padded opTypeStream), bytesToHex (padded opCommandAuthSettle),
      authorizeValue H now (Protocol.settleTag H.viem)⟩]

theorem handle_eq_some {σ : Type} (f : Framework σ) {t c : JsString} (handler : Handler σ)
    (ht : (encode t).length ≤ 32) (hc : (encode c).length ≤ 32) :
    f.handle t c handler = some (f ++ [⟨bytesToHex (padded t), bytesToHex (padded c), handler⟩]) := by
  simp only [Framework.handle, stringToBytes32Hex, not_lt.mpr ht, not_lt.mpr hc, if_false,
    Option.bind_eq_bind, Option.bind_some]
  rfl

/-- Every identifier fits into 32 bytes. -/
theorem register_eq (now : Clock) : register H now = some (routes H now) := by
  simp (disch := decide) only [register, handle_eq_some, Option.bind_eq_bind, Option.bind_some]
  rfl

/-- The server of `main`, at a moment of its clock. -/
def shipped (now : Clock) : Server State where
  version := version
  stateVersionHex := bytesToHex (padded version)
  framework := routes H now
  reportState := reportState

end StealthWage.App
