import StealthWage.ServerQueueOrder

/-! # Thunks that share variables

The thunks of the queue read and write the variables of the module. Whatever the interleaving,
they come out as if each had run alone, in the order of arrival. An asynchronous thunk touches
the variables after its last `await`, so together with the settlement of its promise. -/
namespace StealthWage.Base
open Promises Runs

variable {ρ δ σ α ε : Type*}

/-- What the thunk of a request does; `δ` is what it learns from outside, such as the time. -/
structure Service (ρ δ σ α ε : Type*) where
  isAsync : ρ → Bool
  act : ρ → δ → σ → Except ε α × σ

structure Shared (ρ σ α ε : Type*) where
  dispatcher : Dispatcher α ε
  arrived : List ρ
  store : σ

inductive Turn (ρ δ : Type*)
  | request (r : ρ)
  | job (d : δ)
  | settle (n : ℕ) (d : δ)

/-- The thunk that the next job calls. -/
def Dispatcher.due (s : Dispatcher α ε) : Option ℕ :=
  match s.machine.jobs with
  | .react r o :: _ =>
    match r.handler o with
    | some (.fn n) => some n
    | _ => none
  | _ => none

namespace Shared

variable (S : Service ρ δ σ α ε)

def initial (store : σ) : Shared ρ σ α ε := ⟨.initial, [], store⟩

/-- The dispatcher moves on, and the variables are those that the thunk has left. -/
def advance (s : Shared ρ σ α ε) (e : Event α ε) (store : σ) : Option (Shared ρ σ α ε) :=
  (s.dispatcher.step e).map fun t => { s with dispatcher := t, store := store }

def step (s : Shared ρ σ α ε) : Turn ρ δ → Option (Shared ρ σ α ε)
  | .request r => (s.dispatcher.step .request).map fun t =>
    { s with dispatcher := t, arrived := s.arrived ++ [r] }
  | .job d =>
    match s.dispatcher.due with
    | none => s.advance (.job .awaits) s.store
    | some n => s.arrived[n]?.bind fun r =>
      if S.isAsync r then s.advance (.job .awaits) s.store
      else s.advance (.job (.completes (S.act r d s.store).1)) (S.act r d s.store).2
  | .settle n d => s.arrived[n]?.bind fun r =>
    s.advance (.settle n (S.act r d s.store).1) (S.act r d s.store).2

end Shared

/-- One request after the other, and nothing in between. -/
def serial (S : Service ρ δ σ α ε) (s : σ) : List (ρ × δ) → List (Except ε α) × σ
  | [] => ([], s)
  | (r, d) :: turns =>
    ((S.act r d s).1 :: (serial S (S.act r d s).2 turns).1, (serial S (S.act r d s).2 turns).2)

theorem serial_concat (S : Service ρ δ σ α ε) (s : σ) (turns : List (ρ × δ)) (r : ρ) (d : δ) :
    serial S s (turns ++ [(r, d)]) =
      ((serial S s turns).1 ++ [(S.act r d (serial S s turns).2).1],
        (S.act r d (serial S s turns).2).2) := by
  induction turns generalizing s with
  | nil => rfl
  | cons turn turns ih => simp only [List.cons_append, serial, ih]

theorem serial_length (S : Service ρ δ σ α ε) (s : σ) (turns : List (ρ × δ)) :
    (serial S s turns).1.length = turns.length := by
  induction turns generalizing s with
  | nil => rfl
  | cons turn turns ih => simp only [serial, List.length_cons, ih]

/-- Each turn finds the variables as the turns before it have left them. -/
theorem serial_getElem? (S : Service ρ δ σ α ε) (s : σ) (turns : List (ρ × δ)) (n : ℕ) :
    (serial S s turns).1[n]? = turns[n]?.map (fun turn =>
        (S.act turn.1 turn.2 (serial S s (turns.take n)).2).1) ∧
      (serial S s (turns.take n)).1 = (serial S s turns).1.take n := by
  induction turns generalizing s n with
  | nil => simp [serial]
  | cons turn turns ih =>
    cases n with
    | zero => simp [serial]
    | succ n =>
      obtain ⟨hget, htake⟩ := ih (S.act turn.1 turn.2 s).2 n
      simp only [serial, List.getElem?_cons_succ, List.take_succ_cons, hget, htake, and_self]

/-! ## What the log says about the outcomes -/

def outcomesOf (log : List (Note α ε)) : List (Except ε α) :=
  log.filterMap fun
    | .settled _ o => some o
    | .started _ => none

theorem outcomesOf_append (log more : List (Note α ε)) :
    outcomesOf (log ++ more) = outcomesOf log ++ outcomesOf more := List.filterMap_append

theorem outcomesOf_settledHistory (outcomes : List (Except ε α)) :
    outcomesOf (settledHistory outcomes) = outcomes := by
  induction outcomes using List.reverseRecOn with
  | nil => rfl
  | append_singleton outcomes o ih =>
    rw [settledHistory_concat, outcomesOf_append, ih]
    rfl

theorem outcomesOf_history (outcomes : List (Except ε α)) (running : Bool) :
    outcomesOf (history outcomes running) = outcomes := by
  rw [history, outcomesOf_append, outcomesOf_settledHistory]
  cases running <;> simp [outcomesOf]

/-- What comes out of a thunk before it returns. -/
def Call.outcomes : Call α ε → List (Except ε α)
  | .completes o => [o]
  | .awaits => []

/-- What the next job adds to the log. -/
theorem job_log {s t : Dispatcher α ε} {c : Call α ε} (h : s.step (.job c) = some t) :
    (s.due = none → outcomesOf t.log = outcomesOf s.log) ∧
    ∀ n, s.due = some n → outcomesOf t.log = outcomesOf s.log ++ c.outcomes := by
  simp only [Dispatcher.step] at h
  unfold Dispatcher.due
  split at h
  next => cases h
  next j js hj =>
    obtain rfl := Option.some.inj h
    rw [hj]
    cases j with
    | follow p d => exact ⟨fun _ => rfl, fun n hn => (by simp at hn)⟩
    | react r o =>
      simp only [Dispatcher.runJob]
      cases r.handler o with
      | none => exact ⟨fun _ => rfl, fun n hn => (by simp at hn)⟩
      | some f =>
        cases f with
        | fn n =>
          refine ⟨fun hn => (by simp at hn), fun _ _ => ?_⟩
          cases c with
          | completes r => exact outcomesOf_append _ _
          | awaits => exact outcomesOf_append _ _
        | undefined => exact ⟨fun _ => rfl, fun n hn => (by simp at hn)⟩
        | continuation n => exact ⟨fun _ => rfl, fun n hn => (by simp at hn)⟩

namespace Chain

variable {s : Dispatcher α ε} {closed : List (Except ε α)} {ph : Phase α ε}

/-- The thunk that is called next is that of the first request without an outcome. -/
theorem due_eq (h : Chain s closed ph) {n : ℕ} (hd : s.due = some n) :
    n = (outcomesOf s.log).length ∧ n < s.requests := by
  unfold Dispatcher.due at hd
  cases hj : s.machine.jobs with
  | nil => simp [hj] at hd
  | cons j js =>
    rw [hj] at hd
    rcases h.first_job hj with ⟨k, o, rfl, -, -⟩ | ⟨hph, -, -⟩
    · cases o <;> simp [continuationReaction, Reaction.handler] at hd
    · cases ph with
      | ready =>
        simp only [Phase.jobs] at hph
        split_ifs at hph with hdue
        obtain rfl := List.singleton_inj.mp hph
        obtain rfl : closed.length = n := by simpa [fnReaction, Reaction.handler] using hd
        rw [h.log, outcomesOf_history]
        exact ⟨rfl, hdue⟩
      | opened r =>
        obtain rfl := List.singleton_inj.mp hph
        simp at hd
      | waiting => cases hph
      | arrived o =>
        obtain rfl := List.singleton_inj.mp hph
        cases o <;> simp [Reaction.forward, Reaction.handler, Except.map] at hd
      | closing o =>
        obtain rfl := List.singleton_inj.mp hph
        cases o <;> simp [undefinedReaction, Reaction.handler, Except.map] at hd

/-- So is the one whose promise can settle. -/
theorem pending_eq (h : Chain s closed ph) {n : ℕ} {rs : List (Reaction PromiseId Closure)}
    (hc : s.machine.cells (.returned n) = some (.pending rs)) :
    n = (outcomesOf s.log).length ∧ n < s.requests := by
  obtain ⟨rfl, hret⟩ := h.quiet n rs hc
  have hbound := h.bound
  rw [h.log, outcomesOf_history]
  cases ph with
  | opened r =>
    cases r with
    | none => exact ⟨rfl, hbound⟩
    | some o => cases hret
  | waiting => exact ⟨rfl, hbound⟩
  | ready => cases hret
  | arrived o => cases hret
  | closing o => cases hret

theorem outcomes_le (h : Chain s closed ph) : (outcomesOf s.log).length ≤ s.requests := by
  have hbound := h.bound
  rw [h.log, outcomesOf_history]
  cases ph with
  | opened r =>
    have hlt : closed.length + 1 ≤ s.requests := hbound
    cases r with
    | none => exact (Nat.le_succ _).trans hlt
    | some o => simpa using hlt
  | waiting => exact (Nat.le_succ _).trans hbound
  | arrived o => simpa using hbound
  | ready => exact hbound
  | closing o => exact hbound

/-- An answer is what came out of the thunk of its request. -/
theorem answers_prefix (h : Chain s closed ph) : s.answers <+: answersOf (outcomesOf s.log) := by
  have hclosed : s.answers <+: answersOf closed := ⟨_, h.answers⟩
  rw [h.log, outcomesOf_history]
  refine hclosed.trans ?_
  cases ph with
  | opened r =>
    cases r with
    | none => exact List.prefix_refl _
    | some o => exact ⟨_, (answersOf_concat closed o).symm⟩
  | arrived o => exact ⟨_, (answersOf_concat closed o).symm⟩
  | _ => exact List.prefix_refl _

/-- Nothing is left to do. -/
theorem rest (h : Chain s closed ph) (hjobs : s.machine.jobs = [])
    (hnone : ∀ n, ¬ Running s n) : (outcomesOf s.log).length = s.requests ∧
      s.answers = answersOf (outcomesOf s.log) := by
  obtain ⟨hlog, hanswers⟩ := h.idle_log hjobs
  rcases h.idle hjobs with rfl | ⟨rfl, hall⟩
  · exact absurd (h.running_iff.mpr ⟨rfl, rfl⟩) (hnone _)
  · rw [h.log, outcomesOf_history]
    exact ⟨hall, hanswers⟩

end Chain

/-! ## Every run -/

/-- So far the server has done what `serial` does with the requests that have an outcome. -/
structure Linear (S : Service ρ δ σ α ε) (store : σ) (s : Shared ρ σ α ε) : Prop where
  chain : ∃ closed ph, Chain s.dispatcher closed ph
  arrived : s.arrived.length = s.dispatcher.requests
  trace : ∃ ds : List δ, ds.length = (outcomesOf s.dispatcher.log).length ∧
    serial S store (s.arrived.zip ds) = (outcomesOf s.dispatcher.log, s.store)

theorem zip_concat_left {β γ : Type*} {bs : List β} {cs : List γ} (h : cs.length ≤ bs.length)
    (b : β) : (bs ++ [b]).zip cs = bs.zip cs := by
  induction bs generalizing cs with
  | nil =>
    obtain rfl := List.length_eq_zero_iff.mp (Nat.le_zero.mp h)
    rfl
  | cons b' bs ih =>
    cases cs with
    | nil => rfl
    | cons c cs =>
      rw [List.cons_append, List.zip_cons_cons, ih (Nat.le_of_succ_le_succ h), List.zip_cons_cons]

theorem zip_concat_right {β γ : Type*} {bs : List β} {cs : List γ} {b : β}
    (h : bs[cs.length]? = some b) (c : γ) : bs.zip (cs ++ [c]) = bs.zip cs ++ [(b, c)] := by
  induction bs generalizing cs with
  | nil => simp at h
  | cons b' bs ih =>
    cases cs with
    | nil =>
      obtain rfl := Option.some.inj h
      simp
    | cons c' cs =>
      rw [List.cons_append, List.zip_cons_cons, ih h, List.zip_cons_cons]
      rfl

namespace Linear

variable {S : Service ρ δ σ α ε} {store : σ} {s t : Shared ρ σ α ε}

/-- The dispatcher moves and nothing comes out. -/
theorem silent (h : Linear S store s) {u : Dispatcher α ε} (hchain : ∃ closed ph, Chain u closed ph)
    (hrequests : u.requests = s.dispatcher.requests)
    (hlog : outcomesOf u.log = outcomesOf s.dispatcher.log) :
    Linear S store { s with dispatcher := u } := by
  obtain ⟨ds, hlen, hserial⟩ := h.trace
  exact ⟨hchain, h.arrived.trans hrequests.symm, ds, hlen.trans (by rw [hlog]),
    hserial.trans (by rw [hlog])⟩

/-- The thunk whose turn it is leaves an outcome. -/
theorem settles (h : Linear S store s) {u : Dispatcher α ε} (hchain : ∃ closed ph, Chain u closed ph)
    (hrequests : u.requests = s.dispatcher.requests) {r : ρ} {d : δ}
    (hr : s.arrived[(outcomesOf s.dispatcher.log).length]? = some r)
    (hlog : outcomesOf u.log = outcomesOf s.dispatcher.log ++ [(S.act r d s.store).1]) :
    Linear S store { s with dispatcher := u, store := (S.act r d s.store).2 } := by
  obtain ⟨ds, hlen, hserial⟩ := h.trace
  refine ⟨hchain, h.arrived.trans hrequests.symm, ds ++ [d], ?_, ?_⟩
  · rw [hlog, List.length_append, List.length_append, hlen]
    rfl
  · rw [zip_concat_right (by rw [hlen]; exact hr), serial_concat, hserial, hlog]

theorem step (h : Linear S store s) {turn : Turn ρ δ} (hs : Shared.step S s turn = some t) :
    Linear S store t := by
  obtain ⟨closed, ph, hchain⟩ := h.chain
  have hnext : ∀ {e : Event α ε} {u : Dispatcher α ε}, s.dispatcher.step e = some u →
      (∃ closed ph, Chain u closed ph) ∧ u.requests = s.dispatcher.requests + e.isRequest.toNat := by
    intro e u hu
    obtain ⟨closed', ph', hchain', -, hrequests⟩ := chain_step hchain hu
    exact ⟨⟨closed', ph', hchain'⟩, hrequests⟩
  cases turn with
  | request r =>
    simp only [Shared.step, Option.map_eq_some_iff] at hs
    obtain ⟨u, hu, rfl⟩ := hs
    obtain ⟨hchain', hrequests⟩ := hnext hu
    obtain ⟨ds, hlen, hserial⟩ := h.trace
    have hlog : u.log = s.dispatcher.log := by
      obtain rfl := Option.some.inj hu
      rfl
    have hle : ds.length ≤ s.arrived.length := by
      rw [hlen, h.arrived]
      exact hchain.outcomes_le
    refine ⟨hchain', ?_, ds, by rw [hlen, hlog], ?_⟩
    · rw [List.length_append, h.arrived, hrequests]
      rfl
    · rw [zip_concat_left hle, hserial, hlog]
  | job d =>
    simp only [Shared.step] at hs
    cases hdue : s.dispatcher.due with
    | none =>
      simp only [hdue, Shared.advance, Option.map_eq_some_iff] at hs
      obtain ⟨u, hu, rfl⟩ := hs
      obtain ⟨hchain', hrequests⟩ := hnext hu
      exact h.silent hchain' hrequests ((job_log hu).1 hdue)
    | some n =>
      obtain ⟨rfl, -⟩ := hchain.due_eq hdue
      simp only [hdue, Option.bind_eq_some_iff] at hs
      obtain ⟨r, hr, hs⟩ := hs
      split_ifs at hs with hasync
      · simp only [Shared.advance, Option.map_eq_some_iff] at hs
        obtain ⟨u, hu, rfl⟩ := hs
        obtain ⟨hchain', hrequests⟩ := hnext hu
        have hlog := (job_log hu).2 _ hdue
        exact h.silent hchain' hrequests (hlog.trans (List.append_nil _))
      · simp only [Shared.advance, Option.map_eq_some_iff] at hs
        obtain ⟨u, hu, rfl⟩ := hs
        obtain ⟨hchain', hrequests⟩ := hnext hu
        exact h.settles hchain' hrequests hr ((job_log hu).2 _ hdue)
  | settle n d =>
    simp only [Shared.step, Option.bind_eq_some_iff, Shared.advance, Option.map_eq_some_iff] at hs
    obtain ⟨r, hr, u, hu, rfl⟩ := hs
    obtain ⟨hchain', hrequests⟩ := hnext hu
    simp only [Dispatcher.step] at hu
    split at hu
    next rs hc =>
      obtain ⟨rfl, -⟩ := hchain.pending_eq hc
      obtain rfl := Option.some.inj hu
      exact h.settles hchain' hrequests hr (outcomesOf_append _ _)
    next => cases hu

theorem initial (store : σ) : Linear S store (.initial store) where
  chain := ⟨[], .ready, chain_initial⟩
  arrived := rfl
  trace := ⟨[], rfl, by simp [Shared.initial, Dispatcher.initial, serial, outcomesOf]⟩

end Linear

/-- The answers so far are the outcomes of one request after the other, the variables are what
these leave, and when nothing is left to do every request has its answer. -/
theorem Linear.answers {S : Service ρ δ σ α ε} {store : σ} {s : Shared ρ σ α ε}
    (h : Linear S store s) :
    ∃ ds : List δ, ds.length ≤ s.arrived.length ∧
      s.store = (serial S store (s.arrived.zip ds)).2 ∧
      s.dispatcher.answers <+: answersOf (serial S store (s.arrived.zip ds)).1 ∧
      (s.dispatcher.machine.jobs = [] → (∀ n, ¬ Running s.dispatcher n) →
        ds.length = s.arrived.length ∧
        s.dispatcher.answers = answersOf (serial S store (s.arrived.zip ds)).1) := by
  obtain ⟨closed, ph, hchain⟩ := h.chain
  obtain ⟨ds, hlen, hserial⟩ := h.trace
  have hle : ds.length ≤ s.arrived.length := by
    rw [hlen, h.arrived]
    exact hchain.outcomes_le
  refine ⟨ds, hle, by rw [hserial], by rw [hserial]; exact hchain.answers_prefix, ?_⟩
  intro hjobs hnone
  obtain ⟨hall, hanswers⟩ := hchain.rest hjobs hnone
  exact ⟨hlen.trans (hall.trans h.arrived.symm), by rw [hserial]; exact hanswers⟩

end StealthWage.Base
