import StealthWage.GoExtension
import StealthWage.Locks

/-! # Goroutines

`net/http` runs every request of the Go extension in a goroutine of its own. What they share is
the extension, behind its `sync.RWMutex`. -/
namespace StealthWage.Go
open App (greetingOf)
open Enclave (HandlerResult refuse)
open Js Json Locks Runs Utf8 Words

/-! ## Requests -/

inductive Request
  | state
  | action (opType opCommand : Word) (originalMessage : Bytes)

inductive Reply
  | notImplemented
  | result (r : HandlerResult)
  | state (seen : Extension)

/-- The variables of a goroutine: what it has just read of a counter, the number that it gives
out, and the fields that it copies for a reply. -/
structure Frame where
  register : ℕ
  number : ℕ
  seen : Extension

def Frame.initial : Frame := ⟨0, 0, Extension.initial⟩

/-- What a goroutine does once it has decoded its request. -/
inductive Work
  | idle
  | greet (greeting : JsString)
  | bid (farewell : Bytes)
  | look

variable (decodeError : Bytes → JsString) (decodeTo : Bytes → Except JsString (Bytes × Bytes))

def workOf : Request → Work
  | .state => .look
  | .action opType opCommand originalMessage =>
    if opType = toHash App.opTypeGreeting then
      if opCommand = toHash App.opCommandSayHello then
        match decodeHello originalMessage with
        | some (u :: name) => .greet (greetingOf (u :: name))
        | _ => .idle
      else if opCommand = toHash App.opCommandSayGoodbye then
        match decodeTo originalMessage with
        | .ok (b :: name, reason) => .bid (farewellOf (b :: name) reason)
        | _ => .idle
      else .idle
    else .idle

/-! ## Critical sections -/

/-- `greetingCount++`, `greetingNumber := …`, `lastGreeting = …` -/
def greetSteps (greeting : JsString) : List (Extension × Frame → Extension × Frame) :=
  [fun x => (x.1, { x.2 with register := x.1.greetings.greetingCount }),
    fun x => ({ x.1 with
      greetings := { x.1.greetings with greetingCount := x.2.register + 1 } }, x.2),
    fun x => (x.1, { x.2 with number := x.1.greetings.greetingCount }),
    fun x => ({ x.1 with greetings := { x.1.greetings with lastGreeting := greeting } }, x.2)]

def bidSteps (farewell : Bytes) : List (Extension × Frame → Extension × Frame) :=
  [fun x => (x.1, { x.2 with register := x.1.farewellCount }),
    fun x => ({ x.1 with farewellCount := x.2.register + 1 }, x.2),
    fun x => (x.1, { x.2 with number := x.1.farewellCount }),
    fun x => ({ x.1 with lastFarewell := farewell }, x.2)]

/-- The four fields of a state response, one after the other. -/
def lookSteps : List (Extension × Frame → Extension × Frame) :=
  [fun x => (x.1, { x.2 with seen := { x.2.seen with
      greetings := { x.2.seen.greetings with greetingCount := x.1.greetings.greetingCount } } }),
    fun x => (x.1, { x.2 with seen := { x.2.seen with
      greetings := { x.2.seen.greetings with lastGreeting := x.1.greetings.lastGreeting } } }),
    fun x => (x.1, { x.2 with seen := { x.2.seen with farewellCount := x.1.farewellCount } }),
    fun x => (x.1, { x.2 with seen := { x.2.seen with lastFarewell := x.1.lastFarewell } })]

theorem lookSteps_keep : ∀ f ∈ lookSteps, ∀ x, (f x).1 = x.1 := by
  intro f hf x
  simp only [lookSteps, List.mem_cons, List.not_mem_nil, or_false] at hf
  rcases hf with rfl | rfl | rfl | rfl <;> rfl

/-- `Lock` around what is written, `RLock` around what is only read. -/
def Work.critical : Work → Section Extension Frame
  | .idle => ⟨.free, Frame.initial, [], fun _ _ hf => absurd hf List.not_mem_nil, fun _ => rfl⟩
  | .greet greeting =>
    ⟨.write, Frame.initial, greetSteps greeting, fun h => absurd rfl h, fun h => Kind.noConfusion h⟩
  | .bid farewell =>
    ⟨.write, Frame.initial, bidSteps farewell, fun h => absurd rfl h, fun h => Kind.noConfusion h⟩
  | .look => ⟨.read, Frame.initial, lookSteps, fun _ => lookSteps_keep, fun h => Kind.noConfusion h⟩

def criticalOf (x : Request) : Section Extension Frame := (workOf decodeTo x).critical

def helloResult (originalMessage : Bytes) (number : ℕ) : HandlerResult :=
  match decodeHello originalMessage with
  | none => refuse (js "decoding request: " ++ decodeError originalMessage)
  | some [] => refuse (js "name must not be empty")
  | some (u :: name) =>
    ⟨some (bytesToHex (encode (numbered (js "greeting") (js "greetingNumber")
      (greetingOf (u :: name)) number))), 1, none⟩

def goodbyeResult (originalMessage : Bytes) (number : ℕ) : HandlerResult :=
  match decodeTo originalMessage with
  | .error text => refuse (js "decoding request: " ++ text)
  | .ok ([], _) => refuse (js "name must not be empty")
  | .ok (b :: name, reason) =>
    ⟨some (bytesToHex (encode (numberedBytes (js "farewell") (js "farewellNumber")
      (farewellOf (b :: name) reason) number))), 1, none⟩

/-- What a goroutine replies with the variables that it is left with. -/
def replyOf (x : Request) (v : Frame) : Reply :=
  match x with
  | .state => .state v.seen
  | .action opType opCommand originalMessage =>
    if opType = toHash App.opTypeGreeting then
      if opCommand = toHash App.opCommandSayHello then
        .result (helloResult decodeError originalMessage v.number)
      else if opCommand = toHash App.opCommandSayGoodbye then
        .result (goodbyeResult decodeTo originalMessage v.number)
      else .notImplemented
    else .notImplemented

/-! ## One request after the other -/

def serve (x : Request) (e : Extension) : Reply × Extension :=
  match x with
  | .state => (.state e, e)
  | .action opType opCommand originalMessage =>
    match processDataFixed decodeError decodeTo opType opCommand originalMessage e with
    | none => (.notImplemented, e)
    | some r => (.result r.1, r.2)

/-- The steps of a goroutine, taken at once, are the handler. -/
theorem exec_critical (x : Request) (e : Extension) :
    (replyOf decodeError decodeTo x ((criticalOf decodeTo x).exec e).2,
      ((criticalOf decodeTo x).exec e).1) = serve decodeError decodeTo x e := by
  cases x with
  | state => rfl
  | action opType opCommand originalMessage =>
    unfold serve processDataFixed processGreeting criticalOf workOf replyOf
    simp only
    split_ifs with htype hhello hgoodbye
    · unfold processSayHello helloResult
      rcases decodeHello originalMessage with _ | _ | ⟨u, name⟩ <;> rfl
    · unfold processSayGoodbye goodbyeResult
      rcases decodeTo originalMessage with text | ⟨_ | ⟨b, name⟩, reason⟩ <;> rfl
    · rfl
    · rfl

/-- The greeting that a request makes. -/
def greetingOfRequest (x : Request) : Option JsString :=
  match workOf decodeTo x with
  | .greet greeting => some greeting
  | _ => none

def farewellOfRequest (x : Request) : Option Bytes :=
  match workOf decodeTo x with
  | .bid farewell => some farewell
  | _ => none

/-- The extension after a list of requests: how many greetings and farewells there were, and the
last of each. -/
def ledger (xs : List Request) : Extension where
  greetings := ⟨(xs.filterMap (greetingOfRequest decodeTo)).length,
    (xs.filterMap (greetingOfRequest decodeTo)).getLastD []⟩
  farewellCount := (xs.filterMap (farewellOfRequest decodeTo)).length
  lastFarewell := (xs.filterMap (farewellOfRequest decodeTo)).getLastD []

variable {decodeError decodeTo}

variable {ι : Type} {request : ι → Request}

variable [DecidableEq ι]

/-- Two greetings of the same name, and two who read the state at the same time. -/
def visitors (i : ℕ) : Request :=
  if i < 2 then
    .action (toHash App.opTypeGreeting) (toHash App.opCommandSayHello)
      (encode (js "\x7b\"name\":\"Ada\"\x7d"))
  else .state

def visits : List (Event ℕ) :=
  [.arrive 0, .arrive 1, .enter 0, .act 0, .arrive 2, .arrive 3, .act 0, .act 0, .act 0, .leave 0,
    .enter 2, .act 2, .enter 3, .act 3, .act 2, .act 2, .act 3, .act 2, .leave 2, .act 3, .act 3,
    .leave 3, .enter 1, .act 1, .act 1, .act 1, .act 1, .leave 1]

end StealthWage.Go
