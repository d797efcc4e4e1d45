import StealthWage.ServerReplies
import StealthWage.StatusTable

/-! # What the shipped server counts

The greetings and farewells that have been made are those asked for by the requests served so
far, in the order of arrival: they are numbered without gaps, and a report tells how many there
were and which came last. -/
namespace StealthWage.App
open Base Enclave Js Json Runs Words

/-! ## Operations -/

inductive Operation
  | sayHello
  | sayGoodbye
  | authWithdraw
  | authSettle
  deriving DecidableEq

namespace Operation

def all : List Operation := [sayHello, sayGoodbye, authWithdraw, authSettle]

/-- The identifiers on the wire. -/
def key : Operation → JsString × JsString
  | sayHello => (bytesToHex (padded opTypeGreeting), bytesToHex (padded opCommandSayHello))
  | sayGoodbye => (bytesToHex (padded opTypeGreeting), bytesToHex (padded opCommandSayGoodbye))
  | authWithdraw => (bytesToHex (padded opTypeStream), bytesToHex (padded opCommandAuthWithdraw))
  | authSettle => (bytesToHex (padded opTypeStream), bytesToHex (padded opCommandAuthSettle))

variable (H : Host)

def handler (now : Clock) : Operation → Handler State
  | sayHello => fun msg s => some (handleSayHello H msg s)
  | sayGoodbye => fun msg s => some (handleSayGoodbye H msg s)
  | authWithdraw => authorizeValue H now (Protocol.withdrawTag H.viem)
  | authSettle => authorizeValue H now (Protocol.settleTag H.viem)

def route (now : Clock) (op : Operation) : Route State :=
  ⟨op.key.1, op.key.2, op.handler H now⟩

/-- The operation with these identifiers in normal form. -/
def find (t c : JsString) : Option Operation := all.find? fun op => op.key = (t, c)

theorem key_ne_default (op : Operation) : op.key.2 ≠ emptyBytes32 := by
  cases op <;> decide

theorem routes_eq (now : Clock) : routes H now = all.map (route H now) := rfl

theorem route_find (now : Clock) (t c : JsString) :
    (routes H now).route t c = (find t c).map (route H now) := by
  have hdefault : (all.map (route H now)).find? (fun r => r.opType = t ∧ r.opCommand = emptyBytes32) =
      none := by
    rw [List.find?_eq_none]
    simp only [List.mem_map, decide_eq_true_eq, not_and]
    rintro r ⟨op, -, rfl⟩ -
    exact op.key_ne_default
  rw [routes_eq, Framework.route, hdefault, Option.or_none, List.find?_map, find]
  congr 2
  funext op
  exact decide_eq_decide.mpr (by simp [route, Prod.ext_iff])

end Operation

variable (H : Host)

/-- The operation that a DataFixed asks for. -/
def operationOf (df : Value) : Option Operation := do
  let t ← normalize H.caseMap (property df (js "opType"))
  let c ← normalize H.caseMap (some (orText (property df (js "opCommand")) []))
  Operation.find t c

theorem handlerOf_some {now : Clock} {df : Value} {handler : Handler State}
    (h : handlerOf H.toRuntime (shipped H now) df = some (some handler)) :
    ∃ op, operationOf H df = some op ∧ handler = op.handler H now := by
  unfold handlerOf Framework.lookup at h
  unfold operationOf
  cases ht : normalize H.caseMap (property df (js "opType")) with
  | none => simp [ht] at h
  | some t =>
    cases hc : normalize H.caseMap (some (orText (property df (js "opCommand")) [])) with
    | none => simp [ht, hc] at h
    | some c =>
      have hroutes : (shipped H now).framework = routes H now := rfl
      simp only [ht, hc, hroutes, Operation.route_find, Option.bind_eq_bind, Option.bind_some,
        Option.map_map, pure, Option.some.injEq, Option.map_eq_some_iff] at h
      obtain ⟨op, hop, hhandler⟩ := h
      exact ⟨op, by simpa using hop, hhandler.symm⟩

theorem steady_shipped : Steady (shipped H) where
  version _ _ := rfl
  stateVersionHex _ _ := rfl
  routes _ _ := rfl

/-! ## What one thunk does to the variables -/

/-- The greeting that a message asks for. -/
def greetingFor (msg : Value) : Option JsString :=
  (readHello H msg).toOption.map greetingOf

/-- The farewell that a message asks for. -/
def farewellFor (msg : Value) : Option JsString :=
  match (hexArg (some msg)).toOption.bind fun raw => (decodeSayGoodbye H raw).toOption with
  | some (u :: name, reason) => some (farewellOf (u :: name) reason)
  | _ => none

/-- A greeting that is made is the last one now, and its number is the new count. -/
theorem handleSayHello_cases (msg : Value) (s : State) :
    (greetingFor H msg = none ∧ (handleSayHello H msg s).1.status = 0 ∧
      (handleSayHello H msg s).2 = s) ∨
    ∃ greeting, greetingFor H msg = some greeting ∧ handleSayHello H msg s =
      (⟨some (bytesToHex (Utf8.encode (numbered (js "greeting") (js "greetingNumber") greeting
        (s.greetingCount + 1)))), 1, none⟩,
        { s with greetingCount := s.greetingCount + 1, lastGreeting := greeting }) := by
  unfold greetingFor handleSayHello
  cases readHello H msg with
  | error text => exact .inl ⟨rfl, rfl, rfl⟩
  | ok name => exact .inr ⟨_, rfl, rfl⟩

theorem handleSayGoodbye_cases (msg : Value) (s : State) :
    (farewellFor H msg = none ∧ (handleSayGoodbye H msg s).1.status = 0 ∧
      (handleSayGoodbye H msg s).2 = s) ∨
    ∃ farewell, farewellFor H msg = some farewell ∧ handleSayGoodbye H msg s =
      (⟨some (bytesToHex (Utf8.encode (numbered (js "farewell") (js "farewellNumber") farewell
        (s.farewellCount + 1)))), 1, none⟩,
        { s with farewellCount := s.farewellCount + 1, lastFarewell := farewell }) := by
  unfold farewellFor handleSayGoodbye
  cases hexArg (some msg) with
  | error e => exact .inl ⟨rfl, rfl, rfl⟩
  | ok raw =>
    simp only [Except.toOption, Option.bind_some]
    rcases decodeSayGoodbye H raw with e | ⟨_ | ⟨u, name⟩, reason⟩
    · exact .inl ⟨rfl, rfl, rfl⟩
    · exact .inl ⟨rfl, rfl, rfl⟩
    · exact .inr ⟨_, rfl, rfl⟩

/-- An authorization is counted when it is granted. -/
theorem authorizeValue_cases {now : Clock} {tag : JsString} {msg : Value} {s s' : State}
    {res : HandlerResult} (h : authorizeValue H now tag msg s = some (res, s')) :
    (res.status = 0 ∧ s' = s) ∨ (res.status = 1 ∧ ∃ enclave,
      enclave.authCount = s.enclave.authCount + 1 ∧ s' = { s with enclave := enclave }) := by
  cases msg with
  | string text =>
    simp only [authorizeValue, Option.map_eq_some_iff, Prod.mk.injEq] at h
    obtain ⟨⟨res', e⟩, hauth, rfl, rfl⟩ := h
    rcases authorize_cases hauth with ⟨text', rfl, rfl⟩ | ⟨a, p, hg⟩
    · exact .inl ⟨rfl, rfl⟩
    · obtain ⟨digest, signature, -, -, rfl, rfl⟩ := hg.signature
      exact .inr ⟨rfl, _, rfl, rfl⟩
  | _ =>
    obtain ⟨rfl, rfl⟩ := Prod.mk.inj (Option.some.inj h)
    exact .inl ⟨rfl, rfl⟩

/-! ## What the requests so far amount to -/

theorem epoch_inRange : -8640000000000 ≤ (0 : ℤ) ∧ (0 : ℤ) ≤ 8640000000000 := by decide

/-- Requests are taken apart in the same way at all times. -/
def epoch : Clock := ⟨0, epoch_inRange⟩

/-- The message of a request for an operation. -/
def asks (op : Operation) (q : HttpRequest) : Option Value :=
  match arrive H.toRuntime (shipped H epoch) q with
  | .ok (.action _ df) =>
    if operationOf H df = some op then some (orText (property df (js "originalMessage")) (js "0x"))
    else none
  | _ => none

def greetings (qs : List HttpRequest) : List JsString :=
  qs.filterMap fun q => (asks H .sayHello q).bind (greetingFor H)

def farewells (qs : List HttpRequest) : List JsString :=
  qs.filterMap fun q => (asks H .sayGoodbye q).bind (farewellFor H)

/-- An authorization was asked for and granted. -/
def authorized (turn : HttpRequest × Except Unit Outcome) : Bool :=
  match turn.2 with
  | .ok (.result res) =>
    res.status = 1 && ((asks H .authWithdraw turn.1).isSome || (asks H .authSettle turn.1).isSome)
  | _ => false

/-- The variables after these requests, with what came out of them. -/
structure Tallies (qs : List HttpRequest) (os : List (Except Unit Outcome)) (s : State) : Prop where
  greetingCount : s.greetingCount = (greetings H qs).length
  lastGreeting : s.lastGreeting = (greetings H qs).getLastD []
  farewellCount : s.farewellCount = (farewells H qs).length
  lastFarewell : s.lastFarewell = (farewells H qs).getLastD []
  authCount : s.enclave.authCount = (qs.zip os).countP (authorized H)

variable {H}

theorem tallies_initial : Tallies H [] [] State.initial := ⟨rfl, rfl, rfl, rfl, rfl⟩

theorem greetings_concat (qs : List HttpRequest) (q : HttpRequest) : greetings H (qs ++ [q]) =
    greetings H qs ++ ((asks H .sayHello q).bind (greetingFor H)).toList := by
  rw [greetings, List.filterMap_append]
  cases h : (asks H .sayHello q).bind (greetingFor H) <;> simp [greetings, h]

theorem farewells_concat (qs : List HttpRequest) (q : HttpRequest) : farewells H (qs ++ [q]) =
    farewells H qs ++ ((asks H .sayGoodbye q).bind (farewellFor H)).toList := by
  rw [farewells, List.filterMap_append]
  cases h : (asks H .sayGoodbye q).bind (farewellFor H) <;> simp [farewells, h]

theorem getLastD_append_toList {α : Type} (l : List α) (a : Option α) (d : α) :
    (l ++ a.toList).getLastD d = a.getD (l.getLastD d) := by
  cases a <;> simp

/-- One thunk adds what its request asks for. -/
structure Adds (H : Host) (q : HttpRequest) (o : Except Unit Outcome) (s s' : State) : Prop where
  greetingCount : s'.greetingCount =
    s.greetingCount + ((asks H .sayHello q).bind (greetingFor H)).toList.length
  lastGreeting : s'.lastGreeting = ((asks H .sayHello q).bind (greetingFor H)).getD s.lastGreeting
  farewellCount : s'.farewellCount =
    s.farewellCount + ((asks H .sayGoodbye q).bind (farewellFor H)).toList.length
  lastFarewell : s'.lastFarewell =
    ((asks H .sayGoodbye q).bind (farewellFor H)).getD s.lastFarewell
  authCount : s'.enclave.authCount = s.enclave.authCount + (authorized H (q, o)).toNat

theorem Tallies.concat {qs : List HttpRequest} {os : List (Except Unit Outcome)} {s s' : State}
    (h : Tallies H qs os s) (hlen : qs.length = os.length) {q : HttpRequest}
    {o : Except Unit Outcome} (ha : Adds H q o s s') : Tallies H (qs ++ [q]) (os ++ [o]) s' where
  greetingCount := by
    rw [greetings_concat, List.length_append, ← h.greetingCount, ha.greetingCount]
  lastGreeting := by
    rw [greetings_concat, getLastD_append_toList, ← h.lastGreeting, ha.lastGreeting]
  farewellCount := by
    rw [farewells_concat, List.length_append, ← h.farewellCount, ha.farewellCount]
  lastFarewell := by
    rw [farewells_concat, getLastD_append_toList, ← h.lastFarewell, ha.lastFarewell]
  authCount := by
    rw [List.zip_append hlen, List.countP_append, ← h.authCount, ha.authCount]
    cases hauth : authorized H (q, o) <;> simp [hauth]

/-! ## One thunk -/

theorem asks_action {now : Clock} {q : HttpRequest} {data df : Value}
    (h : arrive H.toRuntime (shipped H now) q = .ok (.action data df)) (op : Operation) :
    asks H op q = if operationOf H df = some op then
      some (orText (property df (js "originalMessage")) (js "0x")) else none := by
  rw [(steady_shipped H).arrive now epoch] at h
  simp only [asks, h]

theorem asks_of_not_action {now : Clock} {q : HttpRequest}
    (h : ∀ data df, arrive H.toRuntime (shipped H now) q ≠ .ok (.action data df)) (op : Operation) :
    asks H op q = none := by
  rw [(steady_shipped H).arrive now epoch] at h
  unfold asks
  split
  next data df heq => exact absurd heq (h data df)
  next => rfl

theorem Adds.of_not_action {now : Clock} {q : HttpRequest} (o : Except Unit Outcome) (s : State)
    (h : ∀ data df, arrive H.toRuntime (shipped H now) q ≠ .ok (.action data df)) :
    Adds H q o s s := by
  have hauth : authorized H (q, o) = false := by
    unfold authorized
    split <;> simp [asks_of_not_action h]
  constructor <;> simp [asks_of_not_action h, hauth]

theorem Adds.of_action {now : Clock} {q : HttpRequest} {data df : Value} (s : State)
    (h : arrive H.toRuntime (shipped H now) q = .ok (.action data df)) :
    Adds H q ((Work.action data df).run H.toRuntime (shipped H now) s).1 s
      ((Work.action data df).run H.toRuntime (shipped H now) s).2 := by
  obtain ⟨handler, hhandler⟩ := arrive_action H.toRuntime _ h
  obtain ⟨op, hop, rfl⟩ := handlerOf_some H hhandler
  have hasks := asks_action h
  simp only [hop, Option.some.injEq] at hasks
  simp only [Work.run, hhandler]
  generalize orText (property df (js "originalMessage")) (js "0x") = msg at hasks ⊢
  have hgrants : ∀ res, authorized H (q, .ok (.result res)) =
      (res.status = 1 && (op = .authWithdraw || op = .authSettle)) := by
    intro res
    cases op <;> simp [authorized, hasks]
  have hstream : ∀ tag, op = .authWithdraw ∨ op = .authSettle →
      Adds H q (outcomeOf s (authorizeValue H now tag msg s)).1 s
        (outcomeOf s (authorizeValue H now tag msg s)).2 := by
    intro tag hor
    have hgreet : op ≠ .sayHello ∧ op ≠ .sayGoodbye := by
      rcases hor with rfl | rfl <;> simp
    have hgrant : (decide (op = .authWithdraw) || decide (op = .authSettle)) = true := by
      rcases hor with rfl | rfl <;> rfl
    cases hauth : authorizeValue H now tag msg s with
    | none => constructor <;> simp [outcomeOf, hasks, authorized, hgreet]
    | some r =>
      rcases authorizeValue_cases H hauth with ⟨hzero, hs⟩ | ⟨hone, enclave, hcount, hs⟩
      · constructor <;> simp [outcomeOf, hasks, hgrants, hgreet, hzero, hs]
      · constructor <;> simp [outcomeOf, hasks, hgrants, hgreet, hone, hs, hcount, hgrant]
  cases op with
  | sayHello =>
    simp only [Operation.handler, outcomeOf]
    rcases handleSayHello_cases H msg s with ⟨hnone, -, hs⟩ | ⟨greeting, hsome, hs⟩
    · rw [hs]
      constructor <;> simp [hasks, hnone, hgrants]
    · rw [hs]
      constructor <;> simp [hasks, hsome, hgrants]
  | sayGoodbye =>
    simp only [Operation.handler, outcomeOf]
    rcases handleSayGoodbye_cases H msg s with ⟨hnone, -, hs⟩ | ⟨farewell, hsome, hs⟩
    · rw [hs]
      constructor <;> simp [hasks, hnone, hgrants]
    · rw [hs]
      constructor <;> simp [hasks, hsome, hgrants]
  | authWithdraw => exact hstream _ (.inl rfl)
  | authSettle => exact hstream _ (.inr rfl)

theorem act_adds (isAsync : HttpRequest → Bool) (q : HttpRequest) (now : Clock) (s : State) :
    Adds H q ((service H.toRuntime (shipped H) isAsync).act q now s).1 s
      ((service H.toRuntime (shipped H) isAsync).act q now s).2 := by
  simp only [service]
  have hother : (∀ data df, arrive H.toRuntime (shipped H now) q ≠ .ok (.action data df)) →
      ∀ o, Adds H q o s s := fun h o => .of_not_action o s h
  cases harrive : arrive H.toRuntime (shipped H now) q with
  | error reply => exact hother (by simp [harrive]) _
  | ok w =>
    cases w with
    | action data df => exact .of_action s harrive
    | state => exact hother (by simp [harrive]) _

theorem tallies_serial (isAsync : HttpRequest → Bool) (turns : List (HttpRequest × Clock)) :
    Tallies H (turns.map Prod.fst)
      (serial (service H.toRuntime (shipped H) isAsync) State.initial turns).1
      (serial (service H.toRuntime (shipped H) isAsync) State.initial turns).2 := by
  induction turns using List.reverseRecOn with
  | nil => exact tallies_initial
  | append_singleton turns turn ih =>
    obtain ⟨q, now⟩ := turn
    rw [serial_concat, List.map_append]
    exact ih.concat (by rw [serial_length, List.length_map]) (act_adds isAsync q now _)

/-! ## What the outcomes tell -/

/-- A report is that of the variables at its turn. -/
theorem act_state {isAsync : HttpRequest → Bool} {q : HttpRequest} {now : Clock} {s : State}
    {members : List (JsString × Value)}
    (h : ((service H.toRuntime (shipped H) isAsync).act q now s).1 = .ok (.state members)) :
    members = reportState s := by
  simp only [service] at h
  split at h
  next => cases h
  next w _ =>
    cases w with
    | state => exact (Outcome.state.inj (Except.ok.inj h)).symm
    | action data df =>
      simp only [Work.run] at h
      split at h
      next handler _ =>
        cases hrun : handler (orText (property df (js "originalMessage")) (js "0x")) s with
        | none => simp [hrun, outcomeOf] at h
        | some r => simp [hrun, outcomeOf] at h
      next => cases h

/-- A text that was made carries the next number. -/
theorem act_text {isAsync : HttpRequest → Bool} {q : HttpRequest} {now : Clock} {s : State}
    {res : HandlerResult} {msg : Value}
    (h : ((service H.toRuntime (shipped H) isAsync).act q now s).1 = .ok (.result res))
    (hone : res.status = 1) :
    (asks H .sayHello q = some msg → ∃ greeting, greetingFor H msg = some greeting ∧
      res.data = some (bytesToHex (Utf8.encode (numbered (js "greeting") (js "greetingNumber")
        greeting (s.greetingCount + 1))))) ∧
    (asks H .sayGoodbye q = some msg → ∃ farewell, farewellFor H msg = some farewell ∧
      res.data = some (bytesToHex (Utf8.encode (numbered (js "farewell") (js "farewellNumber")
        farewell (s.farewellCount + 1))))) := by
  simp only [service] at h
  cases harrive : arrive H.toRuntime (shipped H now) q with
  | error reply => simp [harrive] at h
  | ok w =>
    cases w with
    | state => simp [harrive, Work.run] at h
    | action data df =>
      obtain ⟨handler, hhandler⟩ := arrive_action H.toRuntime _ harrive
      obtain ⟨op, hop, rfl⟩ := handlerOf_some H hhandler
      have hasks := asks_action harrive
      simp only [hop, Option.some.injEq] at hasks
      simp only [harrive, Work.run, hhandler] at h
      refine ⟨fun hmsg => ?_, fun hmsg => ?_⟩
      · rw [hasks] at hmsg
        split_ifs at hmsg with hhello
        subst hhello
        obtain rfl := Option.some.inj hmsg
        simp only [Operation.handler, outcomeOf] at h
        obtain rfl := Outcome.result.inj (Except.ok.inj h)
        rcases handleSayHello_cases H _ s with ⟨-, hzero, -⟩ | ⟨greeting, hsome, hs⟩
        · rw [hzero] at hone
          cases hone
        · exact ⟨greeting, hsome, by rw [hs]⟩
      · rw [hasks] at hmsg
        split_ifs at hmsg with hgoodbye
        subst hgoodbye
        obtain rfl := Option.some.inj hmsg
        simp only [Operation.handler, outcomeOf] at h
        obtain rfl := Outcome.result.inj (Except.ok.inj h)
        rcases handleSayGoodbye_cases H _ s with ⟨-, hzero, -⟩ | ⟨farewell, hsome, hs⟩
        · rw [hzero] at hone
          cases hone
        · exact ⟨farewell, hsome, by rw [hs]⟩

/-! ## Every interleaving -/

theorem noon_inRange : -8640000000000 ≤ (1100 : ℤ) ∧ (1100 : ℤ) ≤ 8640000000000 := by decide

def noon : Clock := ⟨1100, noon_inRange⟩

def greetAda : HttpRequest :=
  ⟨js "POST", js "/action", Contract.posted (asValues (Contract.helloFields ++
    [(js "originalMessage", bytesToHex (Utf8.encode (stringify [(js "name", js "Ada")])))]))⟩

/-- A greeting and a report wait in the queue while a third request is answered at once. -/
def busyNoon : List (Turn (HttpRequest × Clock) Clock) :=
  .request (greetAda, noon) :: .request (⟨js "GET", js "/state", []⟩, noon) ::
    .request (⟨js "GET", js "/", []⟩, noon) :: List.replicate 6 (.job noon)

theorem busyNoon_run : (run (Listening.step Contract.host.toRuntime (shipped Contract.host)
    fun _ => false) (.initial State.initial) busyNoon).any (fun s =>
      s.shared.arrived.length = 2 ∧ s.atOnce.length = 1 ∧ s.shared.dispatcher.answers.length = 2 ∧
      s.shared.store.greetingCount = 1) = true := by
  decide +kernel

/-- In every interleaving the replies are those of the requests served one by one in the order of
arrival; a request that is answered at once would be answered so at any moment. -/
theorem replies_linearized (isAsync : HttpRequest → Bool)
    {turns : List (Turn (HttpRequest × Clock) Clock)} {s : Listening State}
    (hrun : run (Listening.step H.toRuntime (shipped H) isAsync) (.initial State.initial) turns =
      some s) :
    (∀ answer ∈ s.atOnce, ∀ now s', handle H.toRuntime (shipped H now) answer.1 s' =
      (answer.2, s')) ∧
    ∃ times : List Clock, times.length ≤ s.shared.arrived.length ∧
      let served := serve H.toRuntime (shipped H) State.initial (s.shared.arrived.zip times)
      s.shared.store = served.2 ∧
      s.sent H.toRuntime (shipped H) epoch <+: served.1 ∧
      (s.shared.dispatcher.machine.jobs = [] → (∀ n, ¬ Running s.shared.dispatcher n) →
        times.length = s.shared.arrived.length ∧
        s.sent H.toRuntime (shipped H) epoch = served.1) := by
  have hs := Faithful.run (steady_shipped H) hrun
  exact ⟨hs.atOnce, hs.replies (steady_shipped H) epoch⟩

theorem replies_linearized_noon : ∃ s, run (Listening.step Contract.host.toRuntime
      (shipped Contract.host) fun _ => false) (.initial State.initial) busyNoon = some s ∧
    s.shared.arrived.length = 2 ∧ s.atOnce.length = 1 ∧ ∃ times : List Clock,
      s.sent Contract.host.toRuntime (shipped Contract.host) epoch <+:
        (serve Contract.host.toRuntime (shipped Contract.host) State.initial
          (s.shared.arrived.zip times)).1 := by
  obtain ⟨s, hrun, hs⟩ := (Option.any_eq_true _ _).mp busyNoon_run
  obtain ⟨harrived, hatOnce, -, -⟩ := of_decide_eq_true hs
  obtain ⟨-, times, -, -, hsent, -⟩ := replies_linearized (fun _ => false) hrun
  exact ⟨s, hrun, harrived, hatOnce, times, hsent⟩

theorem map_fst_take_zip {α β : Type} {as : List α} {bs : List β} {n : ℕ} (hn : n ≤ bs.length) :
    ((as.zip bs).take n).map Prod.fst = as.take n := by
  rw [List.zip_eq_zipWith, List.take_zipWith, ← List.zip_eq_zipWith, List.map_fst_zip]
  simp only [List.length_take]
  omega

/-- In every interleaving the texts are numbered in the order of arrival, and a report counts
the requests that arrived before it. -/
theorem requests_counted (isAsync : HttpRequest → Bool)
    {turns : List (Turn (HttpRequest × Clock) Clock)} {s : Listening State}
    (hrun : run (Listening.step H.toRuntime (shipped H) isAsync) (.initial State.initial) turns =
      some s) :
    ∃ os : List (Except Unit Outcome), os.length ≤ s.shared.arrived.length ∧
      s.shared.dispatcher.answers <+: answersOf os ∧
      Tallies H (s.shared.arrived.take os.length) os s.shared.store ∧
      ∀ n q o, s.shared.arrived[n]? = some q → os[n]? = some o →
        (∀ members, o = .ok (.state members) → ∃ earlier,
          Tallies H (s.shared.arrived.take n) (os.take n) earlier ∧
          members = reportState earlier) ∧
        ∀ res, o = .ok (.result res) → res.status = 1 → ∀ msg,
          (asks H .sayHello q = some msg → ∃ greeting, greetingFor H msg = some greeting ∧
            res.data = some (bytesToHex (Utf8.encode (numbered (js "greeting")
              (js "greetingNumber") greeting
              ((greetings H (s.shared.arrived.take n)).length + 1))))) ∧
          (asks H .sayGoodbye q = some msg → ∃ farewell, farewellFor H msg = some farewell ∧
            res.data = some (bytesToHex (Utf8.encode (numbered (js "farewell")
              (js "farewellNumber") farewell
              ((farewells H (s.shared.arrived.take n)).length + 1))))) := by
  obtain ⟨ds, hle, hstore, hanswers, -⟩ := (Faithful.run (steady_shipped H) hrun).linear.answers
  generalize hturns : s.shared.arrived.zip ds = zipped at hstore hanswers
  have hzipped : zipped.length = ds.length := by
    rw [← hturns, List.length_zip, Nat.min_eq_right hle]
  have hfirst : ∀ n ≤ zipped.length, (zipped.take n).map Prod.fst = s.shared.arrived.take n :=
    fun n hn => hturns ▸ map_fst_take_zip (hzipped ▸ hn)
  have hlen := serial_length (service H.toRuntime (shipped H) isAsync) State.initial zipped
  refine ⟨_, by omega, hanswers, ?_, fun n q o hq ho => ?_⟩
  · have hall := tallies_serial (H := H) isAsync zipped
    rwa [← hstore, ← List.take_length (l := zipped), hfirst _ le_rfl, List.take_length,
      ← hlen] at hall
  · obtain ⟨hget, htake⟩ := serial_getElem? (service H.toRuntime (shipped H) isAsync)
      State.initial zipped n
    rw [hget, Option.map_eq_some_iff] at ho
    obtain ⟨⟨q', now⟩, hturn, rfl⟩ := ho
    obtain ⟨hn, hturn⟩ := List.getElem?_eq_some_iff.mp hturn
    have hearlier := tallies_serial (H := H) isAsync (zipped.take n)
    rw [hfirst n hn.le, htake] at hearlier
    obtain rfl : q' = q := by
      subst hturns
      rw [List.getElem_zip, Prod.mk.injEq] at hturn
      rw [← hturn.1]
      exact Option.some.inj ((List.getElem?_eq_getElem _).symm.trans hq)
    refine ⟨fun members hmembers => ⟨_, hearlier, act_state hmembers⟩, fun res hres hone msg => ?_⟩
    rw [← hearlier.greetingCount, ← hearlier.farewellCount]
    exact act_text hres hone

theorem requests_counted_noon : ∃ s, run (Listening.step Contract.host.toRuntime
      (shipped Contract.host) fun _ => false) (.initial State.initial) busyNoon = some s ∧
    ∃ os, Tallies Contract.host (s.shared.arrived.take os.length) os s.shared.store ∧
      (greetings Contract.host (s.shared.arrived.take os.length)).length = 1 := by
  obtain ⟨s, hrun, hs⟩ := (Option.any_eq_true _ _).mp busyNoon_run
  obtain ⟨-, -, -, hone⟩ := of_decide_eq_true hs
  obtain ⟨os, -, -, htallies, -⟩ := requests_counted (fun _ => false) hrun
  exact ⟨s, hrun, os, htallies, htallies.greetingCount.symm.trans hone⟩

end StealthWage.App
