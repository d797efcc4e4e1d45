import StealthWage.Handlers
import StealthWage.PythonServer

/-! # The Python handlers

Greetings and farewells, as the Python extension registers them; it has no stream commands. -/
namespace StealthWage.Python
open App (greetingOf farewellOf opTypeGreeting opCommandSayHello opCommandSayGoodbye version)
open Base (padded)
open Enclave (HandlerResult refuse)
open Js Json Utf8 Words

structure State where
  greetingCount : ℕ
  lastGreeting : JsString
  farewellCount : ℕ
  lastFarewell : JsString

def State.initial : State := ⟨0, [], 0, []⟩

variable (I : Interpreter)

/-- The code points of a string, by which strings are compared. -/
def points : JsString → List ℕ
  | [] => []
  | [u] => [u.val]
  | a :: b :: s =>
    if isHigh a && isLow b then pairPoint a b :: points s else a.val :: points (b :: s)

/-- `f"{value}"` -/
def formatted : Value → JsString
  | .string s => s
  | v => I.format v

/-- `json.dumps` of a text and its number under two keys, without blanks. -/
def numbered (textKey numberKey content : JsString) (n : ℕ) : JsString :=
  123 :: (asciiQuote textKey ++ 58 :: (asciiQuote content ++ 44 :: (asciiQuote numberKey ++
    58 :: (decimal n ++ [125]))))

/-- The name in a request, or the refusal. Whatever is not empty will do for a name. -/
def readHello (msg : Value) : Except Raised (Except JsString Value) :=
  match hexToBytes I msg with
  | .error e =>
    if e.kind = .valueError then .ok (.error (js "decoding request: invalid hex: " ++ e.text))
    else .error e
  | .ok raw =>
    match loads raw with
    | none => .ok (.error (js "decoding request: " ++ I.loadsError raw))
    | some (.object req) =>
      match ((req.map Prod.fst).filter (· ≠ js "name")).insertionSort (points · ≤ points ·) with
      | k :: _ => .ok (.error (js "decoding request: unknown field " ++ I.repr k))
      | [] =>
        let name := get req (js "name") (.string [])
        if falsy name then .ok (.error (js "name must not be empty")) else .ok (.ok name)
    | some _ => .ok (.error (js "decoding request: expected a JSON object"))

def handleSayHello (msg : Value) (s : State) : Except Raised (HandlerResult × State) :=
  match readHello I msg with
  | .error e => .error e
  | .ok (.error text) => .ok (refuse text, s)
  | .ok (.ok name) =>
    let count := s.greetingCount + 1
    let greeting := greetingOf (formatted I name)
    .ok (⟨some (bytesToHex (encode (numbered (js "greeting") (js "greetingNumber") greeting count))),
      1, none⟩, { s with greetingCount := count, lastGreeting := greeting })

def decodeSayGoodbye (data : Bytes) : Except JsString (JsString × JsString) :=
  (I.abiDecode data).mapError fun e => js "ABI decode failed: " ++ e

def handleSayGoodbye (msg : Value) (s : State) : Except Raised (HandlerResult × State) :=
  match hexToBytes I msg with
  | .error e =>
    if e.kind = .valueError then .ok (refuse (js "decoding request: invalid hex: " ++ e.text), s)
    else .error e
  | .ok raw =>
    match decodeSayGoodbye I raw with
    | .error e => .ok (refuse (js "decoding request: " ++ e), s)
    | .ok ([], _) => .ok (refuse (js "name must not be empty"), s)
    | .ok (u :: name, reason) =>
      let count := s.farewellCount + 1
      let farewell := farewellOf (u :: name) reason
      .ok (⟨some (bytesToHex (encode (numbered (js "farewell") (js "farewellNumber") farewell
        count))), 1, none⟩, { s with farewellCount := count, lastFarewell := farewell })

def register : Option (Framework State) := do
  let f ← Framework.handle [] opTypeGreeting opCommandSayHello (handleSayHello I)
  f.handle opTypeGreeting opCommandSayGoodbye (handleSayGoodbye I)

def reportState (s : State) : List (JsString × Value) :=
  [(js "greetingCount", .number (decimal s.greetingCount)),
    (js "lastGreeting", .string s.lastGreeting),
    (js "farewellCount", .number (decimal s.farewellCount)),
    (js "lastFarewell", .string s.lastFarewell)]

/-- The routes of the handlers, in the order of registration. -/
def routes : Framework State :=
  [⟨bytesToHex (padded opTypeGreeting), bytesToHex (padded opCommandSayHello), handleSayHello I⟩,
    ⟨bytesToHex (padded opTypeGreeting), bytesToHex (padded opCommandSayGoodbye),
      handleSayGoodbye I⟩]

theorem handle_eq_some {σ : Type} (f : Framework σ) {t c : JsString} (handler : Handler σ)
    (ht : wellFormed t ∧ (encode t).length ≤ 32) (hc : wellFormed c ∧ (encode c).length ≤ 32) :
    f.handle t c handler = some (f ++ [⟨bytesToHex (padded t), bytesToHex (padded c), handler⟩]) := by
  simp only [Framework.handle, stringToBytes32Hex, ht, hc, and_self, if_true, Option.bind_eq_bind,
    Option.bind_some]
  rfl

theorem register_eq : register I = some (routes I) := by
  simp (disch := decide) only [register, handle_eq_some, Option.bind_eq_bind, Option.bind_some]
  rfl

/-- The server of `main.py`. -/
def shipped : Server State where
  version := version
  stateVersionHex := bytesToHex (padded version)
  framework := routes I
  reportState := reportState

end StealthWage.Python
