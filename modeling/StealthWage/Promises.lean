import Mathlib

/-! # Promises and jobs

The part of the ECMAScript job machinery that a chain of `then` calls rests on. A promise is
pending with reactions, or settled for good; settling it queues a job for each reaction, and a
promise that is resolved with another one follows it through a job of its own. Closures are
labels: what a call of one does is up to the program that the machine belongs to. -/
namespace StealthWage.Promises

variable {ι κ ν ε : Type*}

/-- Two handlers and the promise that their result settles, if anyone holds it. -/
structure Reaction (ι κ : Type*) where
  onFulfilled : Option κ
  onRejected : Option κ
  derived : Option ι
  deriving DecidableEq

/-- Without a handler the outcome is passed on. -/
def Reaction.handler (r : Reaction ι κ) : Except ε ν → Option κ
  | .ok _ => r.onFulfilled
  | .error _ => r.onRejected

def Reaction.forward (derived : ι) : Reaction ι κ := ⟨none, none, some derived⟩

inductive Cell (ι κ ν ε : Type*)
  | pending (reactions : List (Reaction ι κ))
  | settled (outcome : Except ε ν)

inductive Job (ι κ ν ε : Type*)
  | react (reaction : Reaction ι κ) (outcome : Except ε ν)
  | follow (promise derived : ι)

/-- What the call of a handler gives: it returns a value or throws, or it returns a promise. -/
inductive Completion (ι ν ε : Type*)
  | settles (outcome : Except ε ν)
  | follows (promise : ι)

structure Machine (ι κ ν ε : Type*) where
  cells : ι → Option (Cell ι κ ν ε)
  jobs : List (Job ι κ ν ε)

namespace Machine

def addJobs (m : Machine ι κ ν ε) (js : List (Job ι κ ν ε)) : Machine ι κ ν ε :=
  { m with jobs := m.jobs ++ js }

@[simp] theorem addJobs_cells (m : Machine ι κ ν ε) (js : List (Job ι κ ν ε)) :
    (m.addJobs js).cells = m.cells := rfl

@[simp] theorem addJobs_jobs (m : Machine ι κ ν ε) (js : List (Job ι κ ν ε)) :
    (m.addJobs js).jobs = m.jobs ++ js := rfl

variable [DecidableEq ι] {m : Machine ι κ ν ε} {p : ι} {rs : List (Reaction ι κ)}
  {r : Reaction ι κ} {o : Except ε ν}

def setCell (m : Machine ι κ ν ε) (p : ι) (c : Cell ι κ ν ε) : Machine ι κ ν ε :=
  { m with cells := Function.update m.cells p (some c) }

def allocate (m : Machine ι κ ν ε) (p : ι) : Machine ι κ ν ε := m.setCell p (.pending [])

/-- Only the first settlement counts. -/
def settle (m : Machine ι κ ν ε) (p : ι) (o : Except ε ν) : Machine ι κ ν ε :=
  match m.cells p with
  | some (.pending rs) => (m.setCell p (.settled o)).addJobs (rs.map (.react · o))
  | _ => m

def subscribe (m : Machine ι κ ν ε) (p : ι) (r : Reaction ι κ) : Machine ι κ ν ε :=
  match m.cells p with
  | some (.pending rs) => m.setCell p (.pending (rs ++ [r]))
  | some (.settled o) => m.addJobs [.react r o]
  | none => m

/-- `p.then(f, g)`, which returns the promise `derived`. -/
def andThen (m : Machine ι κ ν ε) (p : ι) (f g : κ) (derived : ι) : Machine ι κ ν ε :=
  (m.allocate derived).subscribe p ⟨some f, some g, some derived⟩

def resolve (m : Machine ι κ ν ε) : Option ι → Completion ι ν ε → Machine ι κ ν ε
  | none, _ => m
  | some d, .settles o => m.settle d o
  | some d, .follows p => m.addJobs [.follow p d]

@[simp] theorem setCell_cells (m : Machine ι κ ν ε) (p : ι) (c : Cell ι κ ν ε) :
    (m.setCell p c).cells = Function.update m.cells p (some c) := rfl

@[simp] theorem setCell_jobs (m : Machine ι κ ν ε) (p : ι) (c : Cell ι κ ν ε) :
    (m.setCell p c).jobs = m.jobs := rfl

theorem settle_of_pending (h : m.cells p = some (.pending rs)) (o : Except ε ν) :
    m.settle p o = (m.setCell p (.settled o)).addJobs (rs.map (.react · o)) := by
  simp only [settle, h]

theorem subscribe_of_pending (h : m.cells p = some (.pending rs)) (r : Reaction ι κ) :
    m.subscribe p r = m.setCell p (.pending (rs ++ [r])) := by
  simp only [subscribe, h]

theorem subscribe_of_settled (h : m.cells p = some (.settled o)) (r : Reaction ι κ) :
    m.subscribe p r = m.addJobs [.react r o] := by
  simp only [subscribe, h]

@[simp] theorem resolve_none (m : Machine ι κ ν ε) (c : Completion ι ν ε) :
    m.resolve none c = m := rfl

@[simp] theorem resolve_settles (m : Machine ι κ ν ε) (d : ι) (o : Except ε ν) :
    m.resolve (some d) (.settles o) = m.settle d o := rfl

@[simp] theorem resolve_follows (m : Machine ι κ ν ε) (d p : ι) :
    m.resolve (some d) (.follows p) = m.addJobs [.follow p d] := rfl

end Machine

end StealthWage.Promises
