import StealthWage.Locks
import StealthWage.StatusTable

/-! # Threads

`ThreadingHTTPServer` answers every request in a thread of its own. Handlers and `report_state`
read and write module variables a step at a time, under one lock. -/
namespace StealthWage.Python
open App (greetingOf farewellOf opTypeGreeting opCommandSayHello opCommandSayGoodbye version)
open Base (emptyBytes32 padded)
open Enclave (HandlerResult refuse)
open Js Json Locks Runs Utf8 Words

/-! ## Handlers in steps -/

variable {σ ℓ : Type}

/-- A handler as a thread runs it. What raises has written nothing. -/
structure Code (σ ℓ : Type) where
  start : Value → ℓ
  steps : Value → List (σ × ℓ → σ × ℓ)
  outcome : ℓ → Except Raised HandlerResult
  unchanged : ∀ msg s e, outcome (finish (steps msg) (s, start msg)).2 = .error e →
    (finish (steps msg) (s, start msg)).1 = s

/-- The handler with nothing in between. -/
def Code.handler (c : Code σ ℓ) : Handler σ := fun msg s =>
  let x := finish (c.steps msg) (s, c.start msg)
  (c.outcome x.2).map fun res => (res, x.1)

theorem Code.handler_eq_error {c : Code σ ℓ} {msg : Value} {s : σ} {e : Raised}
    (h : c.outcome (finish (c.steps msg) (s, c.start msg)).2 = .error e) :
    c.handler msg s = .error e := by
  simp only [Code.handler, h]
  rfl

theorem Code.handler_eq_ok {c : Code σ ℓ} {msg : Value} {s : σ} {res : HandlerResult}
    (h : c.outcome (finish (c.steps msg) (s, c.start msg)).2 = .ok res) :
    c.handler msg s = .ok (res, (finish (c.steps msg) (s, c.start msg)).1) := by
  simp only [Code.handler, h]
  rfl

structure Coded (σ ℓ : Type) where
  opType : JsString
  opCommand : JsString
  code : Code σ ℓ

def Coded.route (r : Coded σ ℓ) : Route σ := ⟨r.opType, r.opCommand, r.code.handler⟩

/-- A server with its handlers and its report in steps. -/
structure Program (σ ℓ : Type) where
  version : JsString
  stateVersionHex : JsString
  codes : List (Coded σ ℓ)
  idle : ℓ
  report : List (σ × ℓ → σ × ℓ)
  reported : ℓ → List (JsString × Value)
  reads : ∀ f ∈ report, ∀ x, (f x).1 = x.1

variable (I : Interpreter) (P : Program σ ℓ)

def Program.server : Server σ where
  version := P.version
  stateVersionHex := P.stateVersionHex
  framework := P.codes.map Coded.route
  reportState s := P.reported (finish P.report (s, P.idle)).2

def Program.find (t c : JsString) : Option (Code σ ℓ) :=
  ((P.codes.find? fun r => r.opType = t ∧ r.opCommand = c).or
    (P.codes.find? fun r => r.opType = t ∧ r.opCommand = emptyBytes32)).map Coded.code

def Program.lookup (opType opCommand : Value) : Except Raised (Option (Code σ ℓ)) := do
  let t ← normalize I opType
  let c ← normalize I opCommand
  return P.find t c

theorem Program.lookup_eq (opType opCommand : Value) :
    P.server.framework.lookup I opType opCommand =
      (P.lookup I opType opCommand).map fun code => code.map Code.handler := by
  unfold Framework.lookup Program.lookup
  cases normalize I opType with
  | error e => rfl
  | ok t =>
    cases normalize I opCommand with
    | error e => rfl
    | ok c =>
      refine congrArg Except.ok ?_
      simp only [Program.server, Framework.route, Program.find, List.find?_map, Option.map_or,
        Option.map_map]
      rfl

/-! ## What a thread does -/

structure Request where
  method : JsString
  path : JsString
  body : Bytes

inductive Work (σ ℓ : Type)
  | idle
  | handle (code : Code σ ℓ) (msg : Value)
  | report

/-- What a thread does under the lock, if it comes so far. -/
def Program.workOf (q : Request) : Work σ ℓ :=
  let path := q.path.takeWhile (· ≠ 63)
  if path = js "/action" then
    if q.method = js "POST" then
      match readRequestBody I q.body with
      | .error _ => .idle
      | .ok (_, df) =>
        match P.lookup I df.opType df.opCommand with
        | .ok (some code) => .handle code df.originalMessage
        | _ => .idle
    else .idle
  else if path = js "/state" then
    if q.method = js "GET" then .report else .idle
  else .idle

/-- `with self._lock`; the lock has no readers' side. -/
def Program.critical : Work σ ℓ → Section σ ℓ
  | .idle => ⟨.free, P.idle, [], fun _ _ hf => absurd hf List.not_mem_nil, fun _ => rfl⟩
  | .handle code msg =>
    ⟨.write, code.start msg, code.steps msg, fun h => absurd rfl h, fun h => Locks.Kind.noConfusion h⟩
  | .report => ⟨.write, P.idle, P.report, fun h => absurd rfl h, fun h => Locks.Kind.noConfusion h⟩

def Program.criticalOf (q : Request) : Section σ ℓ := P.critical (P.workOf I q)

/-- The reply to an action, after the lock. -/
def Program.replyAction (body : Bytes) (v : ℓ) : Outcome :=
  match readRequestBody I body with
  | .error outcome => outcome
  | .ok (action, df) =>
    match P.lookup I df.opType df.opCommand with
    | .error e => .error e
    | .ok none => .ok ⟨501, .text (js "unsupported op type")⟩
    | .ok (some code) =>
      match code.outcome v with
      | .error e => .error e
      | .ok res =>
        match bytes32HexToString I df.opType, bytes32HexToString I df.opCommand with
        | .ok _, .ok _ => .ok ⟨200, .dict (resultOf P.server action df res).toDict⟩
        | .error e, _ => .error e
        | .ok _, .error e => .error e

/-- What a thread replies with the variables that it is left with. -/
def Program.replyOf (q : Request) (v : ℓ) : Outcome :=
  let path := q.path.takeWhile (· ≠ 63)
  if path = js "/action" then
    if q.method = js "POST" then P.replyAction I q.body v
    else .ok ⟨405, .text (js "method not allowed")⟩
  else if path = js "/state" then
    if q.method = js "GET" then
      .ok ⟨200, .dict [(js "stateVersion", .string P.stateVersionHex),
        (js "state", .object (P.reported v))]⟩
    else .ok ⟨405, .text (js "method not allowed")⟩
  else .ok ⟨404, .text (js "not found")⟩

/-- `handle_request` with nothing in between. -/
def Program.serve (q : Request) (s : σ) : Outcome × σ :=
  handleRequest I P.server q.method q.path q.body s

/-- The steps of a thread, taken at once, are `handle_request`. -/
theorem Program.exec_critical (q : Request) (s : σ) :
    (P.replyOf I q ((P.criticalOf I q).exec s).2, ((P.criticalOf I q).exec s).1) =
      P.serve I q s := by
  unfold Program.serve handleRequest Program.replyOf Program.criticalOf Program.workOf
  simp only
  split_ifs with haction hpost hstate hget
  · unfold processAction Program.replyAction
    cases hread : readRequestBody I q.body with
    | error outcome => rfl
    | ok p =>
      obtain ⟨action, df⟩ := p
      simp only
      rw [P.lookup_eq]
      cases hlookup : P.lookup I df.opType df.opCommand with
      | error e => rfl
      | ok found =>
        cases found with
        | none => rfl
        | some code =>
          simp only [Except.map, Option.map_some, Program.critical, Section.exec]
          cases houtcome : code.outcome
              (finish (code.steps df.originalMessage) (s, code.start df.originalMessage)).2 with
          | error e =>
            rw [Code.handler_eq_error houtcome, code.unchanged _ _ _ houtcome]
          | ok res =>
            rw [Code.handler_eq_ok houtcome]
            simp only
            cases bytes32HexToString I df.opType with
            | error e => rfl
            | ok t => cases bytes32HexToString I df.opCommand <;> rfl
  · rfl
  · have hreads : (finish P.report (s, P.idle)).1 = s := finish_fst P.reads _
    simp only [Program.critical, Section.exec, hreads]
    rfl
  · rfl
  · rfl

/-! ## The shipped handlers in steps -/

/-- What a handler makes of its message before it touches a variable. -/
inductive Found
  | raised (e : Raised)
  | refused (text : JsString)
  | made (text : JsString)

structure Frame where
  found : Found
  register : ℕ
  number : ℕ
  seen : State

def Frame.initial (found : Found) : Frame := ⟨found, 0, 0, State.initial⟩

def findGreeting (msg : Value) : Found :=
  match readHello I msg with
  | .error e => .raised e
  | .ok (.error text) => .refused text
  | .ok (.ok name) => .made (greetingOf (formatted I name))

def findFarewell (msg : Value) : Found :=
  match hexToBytes I msg with
  | .error e =>
    if e.kind = .valueError then .refused (js "decoding request: invalid hex: " ++ e.text)
    else .raised e
  | .ok raw =>
    match decodeSayGoodbye I raw with
    | .error e => .refused (js "decoding request: " ++ e)
    | .ok ([], _) => .refused (js "name must not be empty")
    | .ok (u :: name, reason) => .made (farewellOf (u :: name) reason)

/-- `_greeting_count += 1`, `_last_greeting = …`, and the count once more for the reply -/
def greetSteps (greeting : JsString) : List (State × Frame → State × Frame) :=
  [fun x => (x.1, { x.2 with register := x.1.greetingCount }),
    fun x => ({ x.1 with greetingCount := x.2.register + 1 }, x.2),
    fun x => ({ x.1 with lastGreeting := greeting }, x.2),
    fun x => (x.1, { x.2 with number := x.1.greetingCount })]

def bidSteps (farewell : JsString) : List (State × Frame → State × Frame) :=
  [fun x => (x.1, { x.2 with register := x.1.farewellCount }),
    fun x => ({ x.1 with farewellCount := x.2.register + 1 }, x.2),
    fun x => ({ x.1 with lastFarewell := farewell }, x.2),
    fun x => (x.1, { x.2 with number := x.1.farewellCount })]

/-- The variables that `report_state` reads, in the order of its dict. -/
def lookSteps : List (State × Frame → State × Frame) :=
  [fun x => (x.1, { x.2 with seen := { x.2.seen with greetingCount := x.1.greetingCount } }),
    fun x => (x.1, { x.2 with seen := { x.2.seen with lastGreeting := x.1.lastGreeting } }),
    fun x => (x.1, { x.2 with seen := { x.2.seen with farewellCount := x.1.farewellCount } }),
    fun x => (x.1, { x.2 with seen := { x.2.seen with lastFarewell := x.1.lastFarewell } })]

theorem lookSteps_keep : ∀ f ∈ lookSteps, ∀ x, (f x).1 = x.1 := by
  intro f hf x
  simp only [lookSteps, List.mem_cons, List.not_mem_nil, or_false] at hf
  rcases hf with rfl | rfl | rfl | rfl <;> rfl

def stepsOf (steps : JsString → List (State × Frame → State × Frame)) :
    Found → List (State × Frame → State × Frame)
  | .made text => steps text
  | _ => []

def outcomeOf (textKey numberKey : JsString) (v : Frame) : Except Raised HandlerResult :=
  match v.found with
  | .raised e => .error e
  | .refused text => .ok (refuse text)
  | .made text => .ok ⟨some (bytesToHex (encode (numbered textKey numberKey text v.number))), 1, none⟩

theorem unchanged_of_found {steps : JsString → List (State × Frame → State × Frame)}
    {textKey numberKey : JsString} (hsteps : ∀ text x, (finish (steps text) x).2.found = x.2.found)
    (found : Found) (s : State) (e : Raised)
    (h : outcomeOf textKey numberKey
      (finish (stepsOf steps found) (s, Frame.initial found)).2 = .error e) :
    (finish (stepsOf steps found) (s, Frame.initial found)).1 = s := by
  cases found with
  | raised e => rfl
  | refused text => rfl
  | made text =>
    simp only [outcomeOf, stepsOf, hsteps, Frame.initial] at h
    cases h

def sayHello : Code State Frame where
  start msg := .initial (findGreeting I msg)
  steps msg := stepsOf greetSteps (findGreeting I msg)
  outcome := outcomeOf (js "greeting") (js "greetingNumber")
  unchanged msg := unchanged_of_found (fun _ _ => rfl) (findGreeting I msg)

def sayGoodbye : Code State Frame where
  start msg := .initial (findFarewell I msg)
  steps msg := stepsOf bidSteps (findFarewell I msg)
  outcome := outcomeOf (js "farewell") (js "farewellNumber")
  unchanged msg := unchanged_of_found (fun _ _ => rfl) (findFarewell I msg)

/-- `main.py` -/
def program : Program State Frame where
  version := version
  stateVersionHex := bytesToHex (padded version)
  codes :=
    [⟨bytesToHex (padded opTypeGreeting), bytesToHex (padded opCommandSayHello), sayHello I⟩,
      ⟨bytesToHex (padded opTypeGreeting), bytesToHex (padded opCommandSayGoodbye), sayGoodbye I⟩]
  idle := .initial (.refused [])
  report := lookSteps
  reported v := reportState v.seen
  reads := lookSteps_keep

/-- What the two handlers have in common. -/
def handlerOf (steps : JsString → List (State × Frame → State × Frame)) (textKey numberKey : JsString)
    (found : Found) (s : State) : Except Raised (HandlerResult × State) :=
  let x := finish (stepsOf steps found) (s, Frame.initial found)
  (outcomeOf textKey numberKey x.2).map fun res => (res, x.1)

theorem handler_sayHello : (sayHello I).handler = handleSayHello I := by
  funext msg s
  have hhandler : (sayHello I).handler msg s =
      handlerOf greetSteps (js "greeting") (js "greetingNumber") (findGreeting I msg) s := rfl
  rw [hhandler]
  unfold handleSayHello findGreeting
  rcases readHello I msg with e | text | name <;> rfl

theorem handler_sayGoodbye : (sayGoodbye I).handler = handleSayGoodbye I := by
  funext msg s
  have hhandler : (sayGoodbye I).handler msg s =
      handlerOf bidSteps (js "farewell") (js "farewellNumber") (findFarewell I msg) s := rfl
  rw [hhandler]
  unfold handleSayGoodbye findFarewell
  rcases hexToBytes I msg with e | raw
  · simp only
    split_ifs <;> rfl
  · simp only
    rcases decodeSayGoodbye I raw with e | ⟨_ | ⟨u, name⟩, reason⟩ <;> rfl

theorem server_program : (program I).server = shipped I := by
  simp only [Program.server, program, shipped, routes, Coded.route, List.map_cons, List.map_nil,
    handler_sayHello, handler_sayGoodbye]
  rfl

/-! ## Every interleaving -/

variable {ι : Type} {request : ι → Request} {s₀ : σ}

/-- The variables after some requests, one after the other. -/
def Program.after (request : ι → Request) (s₀ : σ) (order : List ι) : σ :=
  order.foldl (fun s i => (P.serve I (request i) s).2) s₀

theorem Program.serial_eq (order : List ι) :
    serial (fun i => P.criticalOf I (request i)) s₀ order = P.after I request s₀ order := by
  unfold serial Program.after
  congr 1
  funext s i
  exact congrArg Prod.snd (P.exec_critical I (request i) s)

/-- For the shipped handlers these are the requests as the server handles them. -/
theorem after_program (request : ι → Request) (s : State) (order : List ι) :
    (program I).after I request s order = order.foldl (fun s i =>
      (handleRequest I (shipped I) (request i).method (request i).path (request i).body s).2) s := by
  unfold Program.after Program.serve
  rw [server_program]

variable {I P} [DecidableEq ι]

/-- However threads interleave, `with self._lock` makes every handler atomic, whatever it does with
its variables: each thread is answered as if its request had been handled alone after those that
entered before it, and what was answered before another came is before it in this order. As long as
one is not answered, some thread can go on. -/
theorem threads_serialized {es : List (Event ι)} {t : Locks.State ι σ ℓ}
    (h : run (step fun i => P.criticalOf I (request i)) (.initial s₀) es = some t) :
    (entered es).Nodup ∧
    (∀ i v, t.phase i = .finished v → ∃ pre post, entered es = pre ++ i :: post ∧
      P.replyOf I (request i) v = (P.serve I (request i) (P.after I request s₀ pre)).1) ∧
    (t.holders = [] → t.shared = P.after I request s₀ (entered es)) ∧
    (∀ pre j post, es = pre ++ .arrive j :: post → ∀ i, .leave i ∈ pre →
      i ∈ entered pre ∧ j ∉ entered pre) ∧
    ∀ i, (t.phase i = .waiting ∨ ∃ rest v, t.phase i = .inside rest v) → ∃ j,
      (step (fun i => P.criticalOf I (request i)) t (.enter j)).isSome ∨
      (step (fun i => P.criticalOf I (request i)) t (.act j)).isSome ∨
      (step (fun i => P.criticalOf I (request i)) t (.leave j)).isSome := by
  have hserial := serial_run h
  refine ⟨hserial.nodup, fun i v hi => ?_, fun hholders => ?_, ?_, fun i hi => hserial.progress hi⟩
  · obtain ⟨pre, post, horder, hv⟩ := hserial.finished i v hi
    rw [P.serial_eq] at hv
    exact ⟨pre, post, horder, by rw [hv, ← P.exec_critical]⟩
  · rw [hserial.quiet fun i hi => absurd hi (hholders ▸ List.not_mem_nil), P.serial_eq]
  · rintro pre j post rfl i hi
    exact entered_of_leave h hi

/-- A greeting, and one who reads the state. -/
def visitors (i : ℕ) : Request :=
  if i = 0 then
    ⟨js "POST", js "/action", encode (Contract.posted (asValues (Contract.helloFields ++
      [(js "originalMessage", bytesToHex (encode (js "\x7b\"name\":\"Ada\"\x7d")))])))⟩
  else ⟨js "GET", js "/state", []⟩

def visits : List (Event ℕ) :=
  [.arrive 0, .arrive 1, .enter 0, .act 0, .act 0, .act 0, .act 0, .leave 0, .enter 1, .act 1,
    .act 1, .act 1, .act 1, .leave 1]

theorem threads_serialized_visits : ∃ t,
    run (step fun i => (program bare).criticalOf bare (visitors i)) (.initial State.initial)
      visits = some t ∧
    t.shared.greetingCount = 1 ∧
    t.shared = [0, 1].foldl (fun s i => (handleRequest bare (shipped bare) (visitors i).method
      (visitors i).path (visitors i).body s).2) State.initial := by
  have hruns : (run (step fun i => (program bare).criticalOf bare (visitors i))
      (.initial State.initial) visits).map (fun t => (t.holders, t.shared.greetingCount)) =
        some ([], 1) := by decide +kernel
  obtain ⟨t, ht, hpair⟩ := Option.map_eq_some_iff.mp hruns
  obtain ⟨hholders, hcount⟩ := Prod.mk.inj hpair
  obtain ⟨-, -, hshared, -, -⟩ := threads_serialized ht
  exact ⟨t, ht, hcount, (hshared hholders).trans (after_program bare visitors _ _)⟩

end StealthWage.Python
