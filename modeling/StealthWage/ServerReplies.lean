import StealthWage.Server
import StealthWage.ServerLinear

/-! # The server under load

`handleRequest` answers at once, or it puts work into the queue and goes on when the work has
come out. Requests interleave in every way that the queue allows; the replies are those of a
server that serves the requests one after the other. -/
namespace StealthWage.Base
open Enclave Js Json Runs Words

structure HttpRequest where
  method : JsString
  path : JsString
  body : JsString

/-- What the queue is asked for: to call the handler of an action, or to report the state. -/
inductive Work
  | action (data df : Value)
  | state

/-- What comes out: the three values of a handler, or a report. -/
inductive Outcome
  | result (res : HandlerResult)
  | state (members : List (JsString × Value))

section work

variable {σ : Type} (R : Runtime) (srv : Server σ)

def handlerOf (df : Value) : Option (Option (Handler σ)) :=
  srv.framework.lookup R.caseMap (property df (js "opType"))
    (some (orText (property df (js "opCommand")) []))

def arriveAction (body : JsString) : Except (Option Reply) Work :=
  match readRequestBody R body with
  | .error reply => .error (some reply)
  | .ok (data, df) =>
    match handlerOf R srv df with
    | none => .error none
    | some none => .error (some ⟨501, .text (js "unsupported op type")⟩)
    | some (some _) => .ok (.action data df)

/-- The part of `handleRequest` before `serialize`; an error is the reply that is sent at once. -/
def arrive (q : HttpRequest) : Except (Option Reply) Work :=
  let clean := q.path.takeWhile (· ≠ 63)
  if clean = js "/action" then
    if q.method = js "POST" then arriveAction R srv q.body
    else .error (some ⟨405, .text (js "method not allowed")⟩)
  else if clean = js "/state" then
    if q.method = js "GET" then .ok .state
    else .error (some ⟨405, .text (js "method not allowed")⟩)
  else .error (some ⟨404, .text (js "not found")⟩)

/-- What comes out of a call of a handler; one that throws has changed nothing. -/
def outcomeOf (s : σ) : Option (HandlerResult × σ) → Except Unit Outcome × σ
  | some (res, s') => (.ok (.result res), s')
  | none => (.error (), s)

/-- The thunk that `serialize` is given. -/
def Work.run : Work → σ → Except Unit Outcome × σ
  | .action _ df, s =>
    match handlerOf R srv df with
    | some (some handler) =>
      outcomeOf s (handler (orText (property df (js "originalMessage")) (js "0x")) s)
    | _ => (.error (), s)
  | .state, s => (.ok (.state (srv.reportState s)), s)

/-- What follows `await this.serialize`. -/
def Work.finish : Work → Except Unit (Option Outcome) → Option Reply
  | .action data df, .ok (some (.result res)) =>
    if (property data (js "id")).all prints then
      some ⟨200, .json (resultOf srv data df res).members⟩
    else none
  | .state, .ok (some (.state members)) =>
    some ⟨200, .json [(js "stateVersion", some (.string srv.stateVersionHex)),
      (js "state", some (.object members))]⟩
  | _, _ => none

def handle (q : HttpRequest) (s : σ) : Option Reply × σ :=
  handleRequest R srv q.method q.path q.body s

/-- Work is taken in only where there is a handler. -/
theorem arrive_action {q : HttpRequest} {data df : Value}
    (h : arrive R srv q = .ok (.action data df)) :
    ∃ handler, handlerOf R srv df = some (some handler) := by
  have haction : arriveAction R srv q.body = .ok (.action data df) := by
    simp only [arrive] at h
    split_ifs at h
    · exact h
    · cases Except.ok.inj h
  unfold arriveAction at haction
  split at haction
  next => cases haction
  next data' df' _ =>
    split at haction
    next => cases haction
    next => cases haction
    next handler hhandler =>
      obtain ⟨rfl, rfl⟩ := Work.action.inj (Except.ok.inj haction)
      exact ⟨handler, hhandler⟩

/-- The reply and the variables, in the three parts. -/
def served (arrival : Except (Option Reply) Work) (s : σ) : Option Reply × σ :=
  match arrival with
  | .error reply => (reply, s)
  | .ok w => (w.finish srv ((w.run R srv s).1.map some), (w.run R srv s).2)

theorem processAction_eq (body : JsString) (s : σ) :
    processAction R srv body s = served R srv (arriveAction R srv body) s := by
  unfold processAction arriveAction
  cases readRequestBody R body with
  | error reply => rfl
  | ok r =>
    obtain ⟨data, df⟩ := r
    have hlookup : srv.framework.lookup R.caseMap (property df (js "opType"))
        (some (orText (property df (js "opCommand")) [])) = handlerOf R srv df := rfl
    simp only [hlookup]
    cases hhandler : handlerOf R srv df with
    | none => rfl
    | some h =>
      cases h with
      | none => rfl
      | some handler =>
        simp only [served, Work.run, hhandler]
        cases handler (orText (property df (js "originalMessage")) (js "0x")) s with
        | none => rfl
        | some r =>
          simp only [outcomeOf, Work.finish, Except.map]
          split_ifs <;> rfl

theorem handle_eq (q : HttpRequest) (s : σ) : handle R srv q s =
    served R srv (arrive R srv q) s := by
  simp only [handle, handleRequest, arrive, processAction_eq]
  split_ifs <;> rfl

end work

/-! ## A server at its times -/

/-- One server at all times: only what the handlers do may differ. -/
structure Steady {δ σ : Type} (srv : δ → Server σ) : Prop where
  version : ∀ d d', (srv d).version = (srv d').version
  stateVersionHex : ∀ d d', (srv d).stateVersionHex = (srv d').stateVersionHex
  routes : ∀ d d', (srv d).framework.map (fun r => (r.opType, r.opCommand)) =
    (srv d').framework.map fun r => (r.opType, r.opCommand)

section times

variable {δ σ : Type} {R : Runtime} {srv : δ → Server σ}

theorem find?_isSome_congr {f g : Framework σ}
    (h : f.map (fun r => (r.opType, r.opCommand)) = g.map fun r => (r.opType, r.opCommand))
    (p : JsString × JsString → Bool) : (f.find? fun r => p (r.opType, r.opCommand)).isSome =
      (g.find? fun r => p (r.opType, r.opCommand)).isSome := by
  have hany := congrArg (List.any · p) h
  simpa only [List.any_map, List.isSome_find?, Function.comp_def] using hany

theorem route_isSome_congr {f g : Framework σ}
    (h : f.map (fun r => (r.opType, r.opCommand)) = g.map fun r => (r.opType, r.opCommand))
    (t c : JsString) : (f.route t c).isSome = (g.route t c).isSome := by
  simp only [Framework.route, Option.isSome_or]
  have hexact := find?_isSome_congr h fun k => k.1 = t ∧ k.2 = c
  have hdefault := find?_isSome_congr h fun k => k.1 = t ∧ k.2 = emptyBytes32
  rw [hexact, hdefault]

namespace Steady

variable (h : Steady srv)
include h

theorem handlerOf_isSome (d d' : δ) (df : Value) :
    (handlerOf R (srv d) df).map Option.isSome = (handlerOf R (srv d') df).map Option.isSome := by
  unfold handlerOf Framework.lookup
  cases normalize R.caseMap (property df (js "opType")) with
  | none => rfl
  | some t =>
    cases normalize R.caseMap (some (orText (property df (js "opCommand")) [])) with
    | none => rfl
    | some c =>
      have hroute := route_isSome_congr (h.routes d d') t c
      simpa using hroute

theorem arriveAction (d d' : δ) (body : JsString) :
    arriveAction R (srv d) body = Base.arriveAction R (srv d') body := by
  unfold Base.arriveAction
  cases readRequestBody R body with
  | error reply => rfl
  | ok r =>
    obtain ⟨data, df⟩ := r
    have hsame := h.handlerOf_isSome (R := R) d d' df
    simp only
    generalize handlerOf R (srv d) df = a at hsame ⊢
    generalize handlerOf R (srv d') df = b at hsame ⊢
    rcases a with _ | _ | a <;> rcases b with _ | _ | b <;> simp at hsame ⊢

theorem arrive (d d' : δ) (q : HttpRequest) : arrive R (srv d) q = Base.arrive R (srv d') q := by
  unfold Base.arrive
  rw [h.arriveAction d d']

theorem finish (d d' : δ) (w : Work) (o : Except Unit (Option Outcome)) :
    w.finish (srv d) o = w.finish (srv d') o := by
  unfold Work.finish resultOf
  rw [h.version d d', h.stateVersionHex d d']

end Steady

/-! ## One request after the other -/

variable (R srv)

/-- The replies to requests that are served alone, each at its own time. -/
def serve (s : σ) : List (HttpRequest × δ) → List (Option Reply) × σ
  | [] => ([], s)
  | (q, d) :: turns =>
    ((handle R (srv d) q s).1 :: (serve (handle R (srv d) q s).2 turns).1,
      (serve (handle R (srv d) q s).2 turns).2)

/-- The work of the queue, with whichever handlers asynchronous. -/
def service (isAsync : HttpRequest → Bool) : Service HttpRequest δ σ Outcome Unit where
  isAsync := isAsync
  act q d s :=
    match arrive R (srv d) q with
    | .error _ => (.error (), s)
    | .ok w => w.run R (srv d) s

/-- What is sent when the work of a request has come out. -/
def replyTo (d : δ) (q : HttpRequest) (o : Except Unit (Option Outcome)) : Option Reply :=
  match arrive R (srv d) q with
  | .error reply => reply
  | .ok w => w.finish (srv d) o

variable {R srv}

theorem handle_replyTo (isAsync : HttpRequest → Bool) (d : δ) (q : HttpRequest) (s : σ) :
    handle R (srv d) q s = (replyTo R srv d q (((service R srv isAsync).act q d s).1.map some),
      ((service R srv isAsync).act q d s).2) := by
  rw [handle_eq]
  simp only [served, service, replyTo]
  cases arrive R (srv d) q <;> rfl

theorem Steady.replyTo (h : Steady srv) (d d' : δ) (q : HttpRequest)
    (o : Except Unit (Option Outcome)) : replyTo R srv d q o = Base.replyTo R srv d' q o := by
  unfold Base.replyTo
  rw [h.arrive d d']
  cases Base.arrive R (srv d') q with
  | error reply => rfl
  | ok w => exact h.finish d d' w o

/-- `serve` is `serial`, and the reply to each outcome. -/
theorem serve_eq (h : Steady srv) (isAsync : HttpRequest → Bool) (d₀ : δ) (s : σ)
    (turns : List (HttpRequest × δ)) : serve R srv s turns =
      (List.zipWith (fun turn o => replyTo R srv d₀ turn.1 (o.map some)) turns
        (serial (service R srv isAsync) s turns).1, (serial (service R srv isAsync) s turns).2) := by
  induction turns generalizing s with
  | nil => rfl
  | cons turn turns ih =>
    obtain ⟨q, d⟩ := turn
    simp only [serve, serial, handle_replyTo isAsync, ih, List.zipWith_cons_cons]
    rw [h.replyTo d d₀]

/-! ## Every interleaving -/

/-- The requests that wait in the queue or have waited there, and the replies sent at once. -/
structure Listening (σ : Type) where
  shared : Shared HttpRequest σ Outcome Unit
  atOnce : List (HttpRequest × Option Reply)

variable (R srv)

namespace Listening

def initial (store : σ) : Listening σ := ⟨.initial store, []⟩

/-- A request comes with the time of its arrival. -/
def step (isAsync : HttpRequest → Bool) (s : Listening σ) :
    Turn (HttpRequest × δ) δ → Option (Listening σ)
  | .request (q, d) =>
    match arrive R (srv d) q with
    | .error reply => some { s with atOnce := s.atOnce ++ [(q, reply)] }
    | .ok _ => (s.shared.step (service R srv isAsync) (.request q)).map ({ s with shared := · })
  | .job d => (s.shared.step (service R srv isAsync) (.job d)).map ({ s with shared := · })
  | .settle n d => (s.shared.step (service R srv isAsync) (.settle n d)).map ({ s with shared := · })

/-- The replies to the work that has come out, in the order in which they were sent. -/
def sent (d₀ : δ) (s : Listening σ) : List (Option Reply) :=
  s.shared.dispatcher.answers.map fun answer =>
    s.shared.arrived[answer.1]?.bind fun q => replyTo R srv d₀ q answer.2

end Listening

variable {R srv}

/-- What holds in every state of the server. -/
structure Faithful (R : Runtime) (srv : δ → Server σ) (isAsync : HttpRequest → Bool) (store : σ)
    (s : Listening σ) : Prop where
  linear : Linear (service R srv isAsync) store s.shared
  atOnce : ∀ answer ∈ s.atOnce, ∀ d s', handle R (srv d) answer.1 s' = (answer.2, s')

theorem Faithful.step (h : Steady srv) {isAsync : HttpRequest → Bool} {store : σ}
    {s t : Listening σ} (hs : Faithful R srv isAsync store s) {turn : Turn (HttpRequest × δ) δ}
    (hstep : s.step R srv isAsync turn = some t) : Faithful R srv isAsync store t := by
  cases turn with
  | request r =>
    obtain ⟨q, d⟩ := r
    simp only [Listening.step] at hstep
    cases harrive : arrive R (srv d) q with
    | error reply =>
      simp only [harrive, Option.some.injEq] at hstep
      subst hstep
      refine ⟨hs.linear, ?_⟩
      simp only [List.mem_append, List.mem_singleton]
      rintro answer (hold | rfl) d' s'
      · exact hs.atOnce answer hold d' s'
      · rw [handle_eq, h.arrive d' d, harrive]
        rfl
    | ok w =>
      simp only [harrive, Option.map_eq_some_iff] at hstep
      obtain ⟨u, hu, rfl⟩ := hstep
      exact ⟨hs.linear.step hu, hs.atOnce⟩
  | job d =>
    simp only [Listening.step, Option.map_eq_some_iff] at hstep
    obtain ⟨u, hu, rfl⟩ := hstep
    exact ⟨hs.linear.step hu, hs.atOnce⟩
  | settle n d =>
    simp only [Listening.step, Option.map_eq_some_iff] at hstep
    obtain ⟨u, hu, rfl⟩ := hstep
    exact ⟨hs.linear.step hu, hs.atOnce⟩

theorem Faithful.run (h : Steady srv) {isAsync : HttpRequest → Bool} {store : σ}
    {turns : List (Turn (HttpRequest × δ) δ)} {s : Listening σ}
    (hrun : run (Listening.step R srv isAsync) (.initial store) turns = some s) :
    Faithful R srv isAsync store s :=
  invariant_run (P := Faithful R srv isAsync store) (fun _ _ _ hs hstep => hs.step h hstep)
    ⟨Linear.initial store, by simp [Listening.initial]⟩ hrun

variable (R srv) in
/-- The replies to all outcomes of the queue, in order. -/
theorem map_answersOf (d₀ : δ) {arrived : List HttpRequest} {ds : List δ}
    (hle : ds.length ≤ arrived.length) {outcomes : List (Except Unit Outcome)}
    (hlen : outcomes.length = ds.length) :
    (answersOf outcomes).map (fun answer =>
      arrived[answer.1]?.bind fun q => replyTo R srv d₀ q answer.2) =
    List.zipWith (fun turn o => replyTo R srv d₀ turn.1 (o.map some)) (arrived.zip ds) outcomes := by
  apply List.ext_getElem
  · simp [answersOf, hlen, hle]
  · intro n hn hn'
    have hlt : n < outcomes.length := by simpa [answersOf] using hn
    have harrived : n < arrived.length := by omega
    simp [answersOf, List.getElem?_eq_getElem harrived]

/-- The replies are those of the requests served one by one in the order of arrival. -/
theorem Faithful.replies (h : Steady srv) {isAsync : HttpRequest → Bool} {store : σ} (d₀ : δ)
    {s : Listening σ} (hs : Faithful R srv isAsync store s) :
    ∃ ds : List δ, ds.length ≤ s.shared.arrived.length ∧
      s.shared.store = (serve R srv store (s.shared.arrived.zip ds)).2 ∧
      s.sent R srv d₀ <+: (serve R srv store (s.shared.arrived.zip ds)).1 ∧
      (s.shared.dispatcher.machine.jobs = [] → (∀ n, ¬ Running s.shared.dispatcher n) →
        ds.length = s.shared.arrived.length ∧
        s.sent R srv d₀ = (serve R srv store (s.shared.arrived.zip ds)).1) := by
  obtain ⟨ds, hle, hstore, hprefix, hrest⟩ := hs.linear.answers
  have hlen : (serial (service R srv isAsync) store (s.shared.arrived.zip ds)).1.length =
      ds.length := by
    rw [serial_length, List.length_zip, Nat.min_eq_right hle]
  have hsent := map_answersOf R srv d₀ hle hlen
  refine ⟨ds, hle, ?_⟩
  rw [serve_eq h isAsync d₀, ← hsent]
  refine ⟨hstore, hprefix.map _, fun hjobs hnone => ?_⟩
  obtain ⟨hall, hanswers⟩ := hrest hjobs hnone
  exact ⟨hall, by rw [Listening.sent, hanswers]⟩

end times

end StealthWage.Base
