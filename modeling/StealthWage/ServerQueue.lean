import StealthWage.Promises
import StealthWage.Runs

/-! # The queue of the server

`Server.serialize` chains every piece of work to the promise of the one before. A thunk is a
handler or `reportState`; it may return, throw, or return a promise that settles whenever it
likes. The promise machine refines a queue that runs one thunk at a time, in the order of
arrival. -/
namespace StealthWage.Base
open Promises Runs

/-- The promises around the `n`-th request: `this.queue` when it arrives, `run`, and the one that
an asynchronous thunk returns. -/
inductive PromiseId
  | queue (n : ℕ)
  | run (n : ℕ)
  | returned (n : ℕ)
  deriving DecidableEq

/-- `fn`, `() => undefined`, and what follows `await this.serialize(fn)`. -/
inductive Closure
  | fn (n : ℕ)
  | undefined
  | continuation (n : ℕ)
  deriving DecidableEq

/-- What is seen of the thunks. -/
inductive Note (α ε : Type*)
  | started (n : ℕ)
  | settled (n : ℕ) (outcome : Except ε α)
  deriving DecidableEq

/-- The value `none` is `undefined`. The log and the answers are observations. -/
structure Dispatcher (α ε : Type*) where
  machine : Machine PromiseId Closure (Option α) ε
  queue : PromiseId
  requests : ℕ
  log : List (Note α ε)
  answers : List (ℕ × Except ε (Option α))

/-- What a thunk does when it is called. -/
inductive Call (α ε : Type*)
  | completes (outcome : Except ε α)
  | awaits

inductive Event (α ε : Type*)
  | request
  | job (call : Call α ε)
  | settle (n : ℕ) (outcome : Except ε α)

namespace Dispatcher

variable {α ε : Type*}

/-- `queue = Promise.resolve()`. -/
def initial : Dispatcher α ε where
  machine := ⟨fun p => if p = .queue 0 then some (.settled (.ok none)) else none, []⟩
  queue := .queue 0
  requests := 0
  log := []
  answers := []

/-- `serialize`, and the `await` of its caller. -/
def serialize (s : Dispatcher α ε) : Dispatcher α ε :=
  let n := s.requests
  let m := s.machine.andThen s.queue (.fn n) (.fn n) (.run n)
  let m := m.andThen (.run n) .undefined .undefined (.queue (n + 1))
  { s with
    machine := m.subscribe (.run n) ⟨some (.continuation n), some (.continuation n), none⟩
    queue := .queue (n + 1)
    requests := n + 1 }

/-- The call of a handler, with the job that calls it already taken from the queue. -/
def call (s : Dispatcher α ε) (handler : Closure) (o : Except ε (Option α)) (derived : Option PromiseId)
    (c : Call α ε) : Dispatcher α ε :=
  match handler with
  | .fn n =>
    match c with
    | .completes r =>
      { s with
        machine := s.machine.resolve derived (.settles (r.map some))
        log := s.log ++ [.started n, .settled n r] }
    | .awaits =>
      { s with
        machine := (s.machine.allocate (.returned n)).resolve derived (.follows (.returned n))
        log := s.log ++ [.started n] }
  | .undefined => { s with machine := s.machine.resolve derived (.settles (.ok none)) }
  | .continuation n =>
    { s with
      machine := s.machine.resolve derived (.settles (.ok none))
      answers := s.answers ++ [(n, o)] }

def runJob (s : Dispatcher α ε) (j : Job PromiseId Closure (Option α) ε) (c : Call α ε) :
    Dispatcher α ε :=
  match j with
  | .follow p derived => { s with machine := s.machine.subscribe p (.forward derived) }
  | .react r o =>
    match r.handler o with
    | none => { s with machine := s.machine.resolve r.derived (.settles o) }
    | some handler => s.call handler o r.derived c

/-- A request arrives at any time, the first job runs, or the promise of a thunk settles. -/
def step (s : Dispatcher α ε) : Event α ε → Option (Dispatcher α ε)
  | .request => some s.serialize
  | .job c =>
    match s.machine.jobs with
    | [] => none
    | j :: js => some (runJob { s with machine := { s.machine with jobs := js } } j c)
  | .settle n o =>
    match s.machine.cells (.returned n) with
    | some (.pending _) => some
      { s with
        machine := s.machine.settle (.returned n) (o.map some)
        log := s.log ++ [.settled n o] }
    | _ => none

end Dispatcher

end StealthWage.Base
