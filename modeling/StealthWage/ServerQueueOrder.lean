import StealthWage.ServerQueue

/-! # One thunk at a time, in the order of arrival

At every moment one link of the promise chain is active. The invariant says which one: all
before it have settled, and all behind it wait for it. -/
namespace StealthWage.Base
open Promises Runs

variable {α ε : Type*}

/-! ## What a serial history looks like -/

/-- Each thunk settles before the next one starts. -/
def settledHistory (outcomes : List (Except ε α)) : List (Note α ε) :=
  (outcomes.mapIdx fun n o => [.started n, .settled n o]).flatten

/-- With the thunk that has started last still running, or not. -/
def history (outcomes : List (Except ε α)) (running : Bool) : List (Note α ε) :=
  settledHistory outcomes ++ if running then [.started outcomes.length] else []

def starts (log : List (Note α ε)) : List ℕ :=
  log.filterMap fun
    | .started n => some n
    | .settled _ _ => none

/-- A thunk starts only after the one before it has settled. -/
def InTurn (log : List (Note α ε)) : Prop :=
  ∀ l r n, log = l ++ .started (n + 1) :: r → ∃ o, .settled n o ∈ l

theorem settledHistory_concat (outcomes : List (Except ε α)) (o : Except ε α) :
    settledHistory (outcomes ++ [o]) = settledHistory outcomes ++
      [.started outcomes.length, .settled outcomes.length o] := by
  simp [settledHistory, List.mapIdx_concat]

theorem history_concat (outcomes : List (Except ε α)) (o : Except ε α) :
    history (outcomes ++ [o]) false = history outcomes true ++ [.settled outcomes.length o] := by
  simp [history, settledHistory_concat]

theorem history_started (outcomes : List (Except ε α)) :
    history outcomes true = history outcomes false ++ [.started outcomes.length] := by
  simp [history]

theorem mem_settledHistory_started {outcomes : List (Except ε α)} {n : ℕ} :
    .started n ∈ settledHistory outcomes ↔ n < outcomes.length := by
  induction outcomes using List.reverseRecOn with
  | nil => simp [settledHistory]
  | append_singleton outcomes o ih =>
    rw [settledHistory_concat]
    simp only [List.mem_append, ih, List.mem_cons, Note.started.injEq, reduceCtorEq, List.not_mem_nil,
      or_false, List.length_append, List.length_singleton]
    omega

theorem mem_settledHistory_settled {outcomes : List (Except ε α)} {n : ℕ} {o : Except ε α} :
    .settled n o ∈ settledHistory outcomes ↔ outcomes[n]? = some o := by
  induction outcomes using List.reverseRecOn with
  | nil => simp [settledHistory]
  | append_singleton outcomes o' ih =>
    rw [settledHistory_concat]
    simp only [List.mem_append, ih, List.mem_cons, reduceCtorEq, Note.settled.injEq, List.not_mem_nil,
      or_false, false_or]
    rcases lt_trichotomy n outcomes.length with hlt | rfl | hgt
    · rw [List.getElem?_append_left hlt]
      simp [hlt.ne]
    · simp [eq_comm]
    · rw [List.getElem?_eq_none hgt.le, List.getElem?_eq_none (by simp; omega)]
      simp [hgt.ne']

theorem mem_history_started {outcomes : List (Except ε α)} {running : Bool} {n : ℕ} :
    .started n ∈ history outcomes running ↔
      n < outcomes.length ∨ (running = true ∧ n = outcomes.length) := by
  cases running <;> simp [history, mem_settledHistory_started]

theorem mem_history_settled {outcomes : List (Except ε α)} {running : Bool} {n : ℕ}
    {o : Except ε α} : .settled n o ∈ history outcomes running ↔ outcomes[n]? = some o := by
  cases running <;> simp [history, mem_settledHistory_settled]

theorem starts_settledHistory (outcomes : List (Except ε α)) :
    starts (settledHistory outcomes) = List.range outcomes.length := by
  induction outcomes using List.reverseRecOn with
  | nil => rfl
  | append_singleton outcomes o ih =>
    have hstarts : starts (settledHistory (outcomes ++ [o])) =
        starts (settledHistory outcomes) ++ [outcomes.length] := by
      simp [starts, settledHistory_concat]
    rw [hstarts, ih, List.length_append, List.length_singleton, List.range_succ]

theorem starts_history (outcomes : List (Except ε α)) (running : Bool) :
    starts (history outcomes running) = List.range (outcomes.length + running.toNat) := by
  cases running with
  | false => simpa [history] using starts_settledHistory outcomes
  | true =>
    have hstarts : starts (history outcomes true) =
        starts (settledHistory outcomes) ++ [outcomes.length] := by
      simp [starts, history]
    rw [hstarts, starts_settledHistory, Bool.toNat_true, List.range_succ]

theorem inTurn_nil : InTurn ([] : List (Note α ε)) := by
  intro l r n h
  simp at h

theorem inTurn_concat {log : List (Note α ε)} {e : Note α ε} (h : InTurn log)
    (he : ∀ n, e = .started (n + 1) → ∃ o, .settled n o ∈ log) : InTurn (log ++ [e]) := by
  intro l r n heq
  rcases List.eq_nil_or_concat r with rfl | ⟨r', e', rfl⟩
  · obtain ⟨rfl, hlast⟩ := List.append_inj' heq rfl
    exact he n (by simpa using hlast)
  · have hassoc : log ++ [e] = (l ++ .started (n + 1) :: r') ++ [e'] := by
      simpa using heq
    obtain ⟨rfl, -⟩ := List.append_inj' hassoc rfl
    exact h l r' n rfl

theorem inTurn_history (outcomes : List (Except ε α)) (running : Bool) :
    InTurn (history outcomes running) := by
  have hstart : ∀ outcomes : List (Except ε α), InTurn (history outcomes false) →
      InTurn (history outcomes true) := by
    intro outcomes h
    rw [history_started]
    refine inTurn_concat h fun n hn => ?_
    have hlen : outcomes.length = n + 1 := Note.started.inj hn
    exact ⟨_, mem_history_settled.mpr (List.getElem?_eq_getElem (by omega))⟩
  have hsettled : InTurn (history outcomes false) := by
    induction outcomes using List.reverseRecOn with
    | nil => simpa [history, settledHistory] using (inTurn_nil (α := α) (ε := ε))
    | append_singleton outcomes o ih =>
      rw [history_concat]
      exact inTurn_concat (hstart outcomes ih) fun n hn => by cases hn
  cases running with
  | false => exact hsettled
  | true => exact hstart outcomes hsettled

/-! ## The chain -/

abbrev ServerCell (α ε : Type*) := Cell PromiseId Closure (Option α) ε
abbrev ServerJob (α ε : Type*) := Job PromiseId Closure (Option α) ε

/-- How far the active link is: its thunk is due or nothing has arrived; the thunk has returned a
promise, perhaps settled by now; that promise is waited for; it has settled; `run` has settled. -/
inductive Phase (α ε : Type*)
  | ready
  | opened (outcome : Option (Except ε α))
  | waiting
  | arrived (outcome : Except ε α)
  | closing (outcome : Except ε α)

def fnReaction (n : ℕ) : Reaction PromiseId Closure := ⟨some (.fn n), some (.fn n), some (.run n)⟩

def undefinedReaction (n : ℕ) : Reaction PromiseId Closure :=
  ⟨some .undefined, some .undefined, some (.queue n)⟩

def continuationReaction (n : ℕ) : Reaction PromiseId Closure :=
  ⟨some (.continuation n), some (.continuation n), none⟩

/-- The request that a job answers. -/
def answered : ServerJob α ε → Option (ℕ × Except ε (Option α))
  | .react r o =>
    match r.onFulfilled with
    | some (.continuation n) => if r = continuationReaction n then some (n, o) else none
    | _ => none
  | .follow _ _ => none

@[simp] theorem answered_fn (n : ℕ) (o : Except ε (Option α)) :
    answered (.react (fnReaction n) o) = none := rfl

@[simp] theorem answered_undefined (n : ℕ) (o : Except ε (Option α)) :
    answered (.react (undefinedReaction n) o) = none := rfl

@[simp] theorem answered_forward (p : PromiseId) (o : Except ε (Option α)) :
    answered (.react (.forward p) o) = none := rfl

@[simp] theorem answered_follow (p d : PromiseId) :
    answered (.follow p d : ServerJob α ε) = none := rfl

@[simp] theorem answered_continuation (n : ℕ) (o : Except ε (Option α)) :
    answered (.react (continuationReaction n) o) = some (n, o) := by
  simp [answered, continuationReaction]

theorem answered_eq_some {j : ServerJob α ε} {n : ℕ} {o : Except ε (Option α)} :
    answered j = some (n, o) ↔ j = .react (continuationReaction n) o := by
  constructor
  · intro h
    cases j with
    | follow p d => simp [answered] at h
    | react r o' =>
      simp only [answered] at h
      split at h
      next n' _ =>
        obtain ⟨rfl, hp⟩ := Option.ite_none_right_eq_some.mp h
        obtain ⟨rfl, rfl⟩ := Prod.mk.inj (Option.some.inj hp)
        rfl
      next => cases h
  · rintro rfl
    exact answered_continuation n o

namespace Phase

/-- The job that moves the chain on, where `k` links are closed. -/
@[simp] def jobs (requests k : ℕ) : Phase α ε → List (ServerJob α ε)
  | ready => if k < requests then [.react (fnReaction k) (.ok none)] else []
  | opened _ => [.follow (.returned k) (.run k)]
  | waiting => []
  | arrived o => [.react (.forward (.run k)) (o.map some)]
  | closing o => [.react (undefinedReaction k) (o.map some)]

/-- The promise that the active thunk has returned. -/
@[simp] def returned (k : ℕ) : Phase α ε → Option (ServerCell α ε)
  | opened none => some (.pending [])
  | opened (some o) => some (.settled (o.map some))
  | waiting => some (.pending [.forward (.run k)])
  | _ => none

/-- Whether the active thunk has started, and is not closed. -/
@[simp] def busy : Phase α ε → Bool
  | opened _ | waiting | arrived _ => true
  | ready | closing _ => false

@[simp] def running : Phase α ε → Bool
  | opened none | waiting => true
  | _ => false

/-- What has come out of the thunks so far. -/
@[simp] def outcomes (closed : List (Except ε α)) : Phase α ε → List (Except ε α)
  | opened (some o) | arrived o => closed ++ [o]
  | _ => closed

/-- How many of the promises of the queue have settled. -/
@[simp] def cleared (k : ℕ) : Phase α ε → ℕ
  | closing _ => k
  | _ => k + 1

/-- How many jobs of the active link are done, at least, and one more. -/
@[simp] def progress : Phase α ε → ℕ
  | closing _ => 0
  | ready => 1
  | opened _ => 2
  | waiting | arrived _ => 3

end Phase

def queueCell (requests cleared n : ℕ) : Option (ServerCell α ε) :=
  if n < cleared then some (.settled (.ok none))
  else if n < requests then some (.pending [fnReaction n])
  else if n = requests then some (.pending [])
  else none

theorem queueCell_succ (requests k n : ℕ) : (queueCell requests (k + 1) n : Option (ServerCell α ε)) =
    if n = k then some (.settled (.ok none)) else queueCell requests k n := by
  unfold queueCell
  rcases lt_trichotomy n k with hlt | rfl | hgt
  · rw [if_pos (by omega), if_neg hlt.ne, if_pos hlt]
  · rw [if_pos (by omega), if_pos rfl]
  · rw [if_neg (by omega), if_neg hgt.ne', if_neg hgt.asymm]

def runCell (requests : ℕ) (closed : List (Except ε α)) (n : ℕ) : Option (ServerCell α ε) :=
  match closed[n]? with
  | some o => some (.settled (o.map some))
  | none =>
    if n < requests then some (.pending [undefinedReaction (n + 1), continuationReaction n])
    else none

def answersOf (closed : List (Except ε α)) : List (ℕ × Except ε (Option α)) :=
  closed.mapIdx fun n o => (n, o.map some)

structure Chain (s : Dispatcher α ε) (closed : List (Except ε α)) (ph : Phase α ε) : Prop where
  queue : s.queue = .queue s.requests
  bound : closed.length + ph.busy.toNat ≤ s.requests
  queues : ∀ n, s.machine.cells (.queue n) = queueCell s.requests (ph.cleared closed.length) n
  runs : ∀ n, s.machine.cells (.run n) = runCell s.requests closed n
  returned : ∀ c, ph.returned closed.length = some c →
    s.machine.cells (.returned closed.length) = some c
  quiet : ∀ n rs, s.machine.cells (.returned n) = some (.pending rs) →
    n = closed.length ∧ ph.returned closed.length = some (.pending rs)
  jobs : s.machine.jobs.filter (fun j => (answered j).isNone) = ph.jobs s.requests closed.length
  answers : s.answers ++ s.machine.jobs.filterMap answered = answersOf closed
  log : s.log = history (ph.outcomes closed) ph.running

theorem chain_initial : Chain (Dispatcher.initial : Dispatcher α ε) [] .ready where
  queue := rfl
  bound := le_rfl
  queues n := by
    cases n <;> simp [Dispatcher.initial, queueCell, Phase.cleared]
  runs n := by simp [Dispatcher.initial, runCell]
  returned c hc := by simp [Phase.returned] at hc
  quiet n rs h := by simp [Dispatcher.initial] at h
  jobs := by simp [Dispatcher.initial, Phase.jobs]
  answers := by simp [Dispatcher.initial, answersOf]
  log := by simp [Dispatcher.initial, history, settledHistory, Phase.outcomes, Phase.running]

theorem answersOf_concat (closed : List (Except ε α)) (o : Except ε α) :
    answersOf (closed ++ [o]) = answersOf closed ++ [(closed.length, o.map some)] := by
  simp [answersOf, List.mapIdx_concat]

theorem runCell_open {requests : ℕ} {closed : List (Except ε α)} {n : ℕ} (h : closed.length ≤ n)
    (hn : n < requests) : runCell requests closed n =
      some (.pending [undefinedReaction (n + 1), continuationReaction n]) := by
  simp [runCell, List.getElem?_eq_none h, hn]

theorem runCell_concat {requests : ℕ} {closed : List (Except ε α)} (o : Except ε α) {n : ℕ} :
    runCell requests (closed ++ [o]) n =
      if n = closed.length then some (.settled (o.map some)) else runCell requests closed n := by
  rcases eq_or_ne n closed.length with rfl | h
  · simp [runCell]
  · rw [if_neg h, runCell, runCell]
    rcases lt_or_gt_of_ne h with hlt | hgt
    · rw [List.getElem?_append_left hlt]
    · rw [List.getElem?_eq_none hgt.le, List.getElem?_eq_none (by simp; omega)]

/-! ## What each event does to the chain -/

namespace Chain

variable {s : Dispatcher α ε} {closed : List (Except ε α)} {ph : Phase α ε}

theorem cleared_le (ph : Phase α ε) (k : ℕ) : k ≤ ph.cleared k ∧ ph.cleared k ≤ k + 1 := by
  cases ph <;> simp [Phase.cleared]

/-- What `then` and `await` leave behind for the new `run`. -/
theorem serialize_machine (h : Chain s closed ph) {m : Machine PromiseId Closure (Option α) ε}
    (hm : (s.machine.allocate (.run s.requests)).subscribe (.queue s.requests)
      (fnReaction s.requests) = m) (hrun : m.cells (.run s.requests) = some (.pending [])) :
    s.serialize.machine = ((m.allocate (.queue (s.requests + 1))).setCell (.run s.requests)
      (.pending [undefinedReaction (s.requests + 1)])).setCell (.run s.requests)
      (.pending [undefinedReaction (s.requests + 1), continuationReaction s.requests]) := by
  simp only [Dispatcher.serialize, Machine.andThen, h.queue]
  have hfirst : ((m.allocate (.queue (s.requests + 1))).cells (.run s.requests)) =
      some (.pending []) := by
    simpa [Machine.allocate] using hrun
  rw [show (s.machine.allocate (.run s.requests)).subscribe (.queue s.requests)
    ⟨some (.fn s.requests), some (.fn s.requests), some (.run s.requests)⟩ = m from hm,
    Machine.subscribe_of_pending hfirst, Machine.subscribe_of_pending (by simp; rfl)]
  rfl

/-- `run` is pending with its two reactions; `fn` is called at once if the queue has settled. -/
theorem serialize_spec (h : Chain s closed ph) :
    (∀ p, s.serialize.machine.cells p =
      if p = .run s.requests then
        some (.pending [undefinedReaction (s.requests + 1), continuationReaction s.requests])
      else if p = .queue (s.requests + 1) then some (.pending [])
      else if p = .queue s.requests then
        some (if s.requests < ph.cleared closed.length then .settled (.ok none)
          else .pending [fnReaction s.requests])
      else s.machine.cells p) ∧
    s.serialize.machine.jobs = s.machine.jobs ++
      if s.requests < ph.cleared closed.length then [.react (fnReaction s.requests) (.ok none)]
      else [] := by
  have hcell : (s.machine.allocate (.run s.requests)).cells (.queue s.requests) =
      queueCell s.requests (ph.cleared closed.length) s.requests := by
    simpa [Machine.allocate] using h.queues s.requests
  have hqueue := h.queues s.requests
  rcases lt_or_ge s.requests (ph.cleared closed.length) with hclear | hblocked
  · rw [queueCell, if_pos hclear] at hcell hqueue
    rw [serialize_machine h (Machine.subscribe_of_settled hcell _) (by simp [Machine.allocate]),
      if_pos hclear, if_pos hclear]
    refine ⟨fun p => ?_, rfl⟩
    simp only [Machine.allocate, Machine.setCell_cells, Machine.addJobs_cells,
      Function.update_apply]
    split_ifs with h1 h2 h3
    · rfl
    · rfl
    · rw [h3, hqueue]
    · rfl
  · rw [queueCell, if_neg (not_lt.mpr hblocked), if_neg (lt_irrefl _), if_pos rfl] at hcell
    rw [serialize_machine h (Machine.subscribe_of_pending hcell _) (by simp [Machine.allocate]),
      if_neg (not_lt.mpr hblocked), if_neg (not_lt.mpr hblocked)]
    refine ⟨fun p => ?_, (List.append_nil _).symm⟩
    simp only [Machine.allocate, Machine.setCell_cells, Function.update_apply, List.nil_append]
    split_ifs <;> rfl

theorem jobs_succ {requests : ℕ} (h : closed.length + ph.busy.toNat ≤ requests) :
    ph.jobs (requests + 1) closed.length = ph.jobs requests closed.length ++
      if requests < ph.cleared closed.length then [.react (fnReaction requests) (.ok none)]
      else [] := by
  cases ph with
  | ready =>
    have hle : closed.length ≤ requests := h
    rcases hle.lt_or_eq with hlt | heq
    · rw [if_neg (by simp only [Phase.cleared]; omega), List.append_nil, Phase.jobs, Phase.jobs,
        if_pos hlt, if_pos (by omega)]
    · rw [if_pos (by simp only [Phase.cleared]; omega), Phase.jobs, Phase.jobs, if_pos (by omega),
        if_neg (by omega), List.nil_append, heq]
  | opened r =>
    have hlt : closed.length + 1 ≤ requests := h
    rw [if_neg (by simp only [Phase.cleared]; omega), List.append_nil]
    rfl
  | waiting =>
    have hlt : closed.length + 1 ≤ requests := h
    rw [if_neg (by simp only [Phase.cleared]; omega), List.append_nil]
    rfl
  | arrived r =>
    have hlt : closed.length + 1 ≤ requests := h
    rw [if_neg (by simp only [Phase.cleared]; omega), List.append_nil]
    rfl
  | closing r =>
    have hle : closed.length ≤ requests := h
    rw [if_neg (by simp only [Phase.cleared]; omega), List.append_nil]
    rfl

/-- A request that finds the queue settled is due at once; any other waits for it. -/
theorem serialize (h : Chain s closed ph) : Chain s.serialize closed ph := by
  obtain ⟨hlow, hhigh⟩ := cleared_le ph closed.length
  have hbound := h.bound
  have hlow' : closed.length ≤ s.requests := (Nat.le_add_right _ _).trans hbound
  have hrequests : s.serialize.requests = s.requests + 1 := rfl
  obtain ⟨hcells, hjobs⟩ := serialize_spec h
  refine ⟨rfl, hbound.trans (Nat.le_succ _), fun n => ?_, fun n => ?_, fun c hc => ?_,
    fun n rs hc => ?_, ?_, ?_, h.log⟩
  · rw [hcells, h.queues, hrequests]
    simp only [queueCell, reduceCtorEq, if_false, PromiseId.queue.injEq]
    rcases lt_trichotomy n s.requests with hlt | rfl | hgt
    · simp only [hlt, hlt.ne, (Nat.lt_succ_of_lt hlt).ne, Nat.lt_succ_of_lt hlt, if_true, if_false]
    · simp only [Nat.lt_succ_self, (Nat.lt_succ_self _).ne, if_true, if_false]
      split_ifs <;> rfl
    · simp only [hgt.ne', not_lt.mpr hgt.le, not_lt.mpr (Nat.succ_le_of_lt hgt),
        not_lt.mpr (hhigh.trans ((Nat.succ_le_succ hlow').trans hgt)), if_false]
  · rw [hcells, h.runs, hrequests]
    simp only [PromiseId.run.injEq, reduceCtorEq, if_false]
    rcases lt_trichotomy n s.requests with hlt | rfl | hgt
    · simp only [hlt.ne, runCell, hlt, Nat.lt_succ_of_lt hlt, if_true, if_false]
    · rw [if_pos rfl, runCell_open hlow' (Nat.lt_succ_self _)]
    · simp only [hgt.ne', runCell, not_lt.mpr hgt.le, not_lt.mpr (Nat.succ_le_of_lt hgt), if_false]
  · rw [hcells]
    simpa using h.returned c hc
  · rw [hcells] at hc
    exact h.quiet n rs (by simpa using hc)
  · rw [hjobs, List.filter_append, h.jobs]
    refine Eq.trans ?_ (jobs_succ hbound).symm
    congr 1
    split_ifs <;> rfl
  · rw [hjobs, List.filterMap_append, ← h.answers]
    have hnone : (if s.requests < ph.cleared closed.length then
        [.react (fnReaction s.requests) (.ok none)] else []).filterMap
        (answered : ServerJob α ε → _) = [] := by
      split_ifs <;> rfl
    rw [hnone, List.append_nil]
    rfl

/-- The promise of a thunk settles, before or after it is waited for. -/
theorem settle (h : Chain s closed ph) {n : ℕ} {rs : List (Reaction PromiseId Closure)}
    (hc : s.machine.cells (.returned n) = some (.pending rs)) (o : Except ε α) :
    ∃ ph', Chain { s with
        machine := s.machine.settle (.returned n) (o.map some)
        log := s.log ++ [.settled n o] } closed ph' ∧ ph'.progress = ph.progress := by
  obtain ⟨rfl, hret⟩ := h.quiet n rs hc
  rw [Machine.settle_of_pending hc]
  have hquiet : ∀ n' rs', Function.update s.machine.cells (.returned closed.length)
      (some (.settled (o.map some))) (.returned n') ≠ some (.pending rs') := by
    intro n' rs' hn'
    rw [Function.update_apply] at hn'
    split_ifs at hn' with heq
    · cases hn'
    · exact heq (congrArg _ (h.quiet n' rs' hn').1)
  have hlog : ph.running = true → ph.outcomes closed = closed →
      s.log ++ [.settled closed.length o] = history (closed ++ [o]) false := by
    intro hrun hout
    rw [h.log, hrun, hout, history_concat]
  cases ph with
  | opened r =>
    cases r with
    | none =>
      obtain rfl : [] = rs := Cell.pending.inj (Option.some.inj hret)
      refine ⟨.opened (some o), ⟨h.queue, h.bound, by simpa using h.queues,
        by simpa using h.runs, fun c hcell => ?_, fun n' rs' hn' => absurd hn' (hquiet n' rs'),
        by simpa using h.jobs, by simpa using h.answers, hlog rfl rfl⟩, rfl⟩
      simpa [Phase.returned] using hcell
    | some r => cases hret
  | waiting =>
    obtain rfl : [.forward (.run closed.length)] = rs := Cell.pending.inj (Option.some.inj hret)
    refine ⟨.arrived o, ⟨h.queue, h.bound, by simpa using h.queues, by simpa using h.runs,
      fun c hcell => (nomatch hcell), fun n' rs' hn' => absurd hn' (hquiet n' rs'), ?_, ?_,
      hlog rfl rfl⟩, rfl⟩
    · simp [List.filter_append, h.jobs]
    · simpa [List.filterMap_append, List.filterMap_cons] using h.answers
  | ready => cases hret
  | arrived r => cases hret
  | closing r => cases hret

/-- `run` settles with the outcome of its thunk. -/
theorem close {o : Except ε α} (hqueue : s.queue = .queue s.requests)
    (hbound : closed.length < s.requests)
    (hqueues : ∀ n, s.machine.cells (.queue n) = queueCell s.requests (closed.length + 1) n)
    (hruns : ∀ n, s.machine.cells (.run n) = runCell s.requests closed n)
    (hquiet : ∀ n rs, s.machine.cells (.returned n) ≠ some (.pending rs))
    (hjobs : s.machine.jobs.filter (fun j => (answered j).isNone) = [])
    (hanswers : s.answers ++ s.machine.jobs.filterMap answered = answersOf closed)
    (hlog : s.log = history (closed ++ [o]) false) :
    Chain { s with machine := s.machine.settle (.run closed.length) (o.map some) }
      (closed ++ [o]) (.closing o) := by
  have hrun := (hruns closed.length).trans (runCell_open le_rfl hbound)
  rw [Machine.settle_of_pending hrun]
  have hlen : (closed ++ [o]).length = closed.length + 1 := by simp
  refine ⟨hqueue, ?_, ?_, fun n => ?_, fun c hc => (nomatch hc), fun n rs hc => ?_, ?_, ?_, hlog⟩
  · rw [hlen]
    exact hbound
  · rw [hlen]
    simpa using hqueues
  · simp only [Machine.addJobs_cells, Machine.setCell_cells, Function.update_apply,
      PromiseId.run.injEq, runCell_concat, hruns]
  · exact absurd (by simpa using hc) (hquiet n rs)
  · rw [hlen]
    simp only [Machine.addJobs_jobs, Machine.setCell_jobs, List.filter_append, hjobs]
    simp [List.filter_cons]
  · rw [answersOf_concat, ← hanswers]
    simp [List.filterMap_cons]

/-- The event loop without its first job. -/
def popped (s : Dispatcher α ε) (js : List (ServerJob α ε)) : Dispatcher α ε :=
  { s with machine := { s.machine with jobs := js } }

/-- The first job answers a request, or it is the one that moves the chain on. -/
theorem first_job (h : Chain s closed ph) {j : ServerJob α ε} {js : List (ServerJob α ε)}
    (hj : s.machine.jobs = j :: js) :
    (∃ n o, j = .react (continuationReaction n) o ∧
      js.filter (fun j => (answered j).isNone) = ph.jobs s.requests closed.length ∧
      s.answers ++ (n, o) :: js.filterMap answered = answersOf closed) ∨
    (ph.jobs s.requests closed.length = [j] ∧ js.filter (fun j => (answered j).isNone) = [] ∧
      s.answers ++ js.filterMap answered = answersOf closed) := by
  have hjobs := h.jobs
  have hanswers := h.answers
  rw [hj] at hjobs hanswers
  cases ha : answered j with
  | some a =>
    obtain ⟨n, o⟩ := a
    rw [List.filter_cons, ha] at hjobs
    rw [List.filterMap_cons, ha] at hanswers
    exact .inl ⟨n, o, answered_eq_some.mp ha, by simpa using hjobs, by simpa using hanswers⟩
  | none =>
    rw [List.filter_cons, ha] at hjobs
    rw [List.filterMap_cons, ha] at hanswers
    have hshort : (ph.jobs s.requests closed.length).length ≤ 1 := by
      cases ph <;> simp
      split_ifs <;> simp
    have hcons : j :: js.filter (fun j => (answered j).isNone) =
        ph.jobs s.requests closed.length := by
      simpa using hjobs
    rw [← hcons, List.length_cons] at hshort
    have hnil := List.length_eq_zero_iff.mp (Nat.le_zero.mp (Nat.le_of_succ_le_succ hshort))
    rw [hnil] at hcons
    exact .inr ⟨hcons.symm, hnil, by simpa using hanswers⟩

/-- The due thunk is called. -/
theorem call (h : Chain s closed .ready) (hdue : closed.length < s.requests)
    {js : List (ServerJob α ε)} (hjs : js.filter (fun j => (answered j).isNone) = [])
    (hanswers : s.answers ++ js.filterMap answered = answersOf closed) (c : Call α ε) :
    ∃ closed' ph', Chain ((popped s js).runJob (.react (fnReaction closed.length) (.ok none)) c)
        closed' ph' ∧
      4 * closed.length + 2 ≤ 4 * closed'.length + ph'.progress := by
  cases c with
  | completes r =>
    refine ⟨closed ++ [r], .closing r, close (s := { popped s js with
      log := s.log ++ [.started closed.length, .settled closed.length r] }) h.queue hdue h.queues
      h.runs (fun n rs hn => ?_) hjs hanswers ?_, by simp; omega⟩
    · cases (h.quiet n rs hn).2
    · rw [history_concat, history_started, h.log]
      simp
  | awaits =>
    have hstate : (popped s js).runJob (.react (fnReaction closed.length) (.ok none)) .awaits =
        { popped s js with
          machine := ((popped s js).machine.allocate (.returned closed.length)).addJobs
            [.follow (.returned closed.length) (.run closed.length)]
          log := s.log ++ [.started closed.length] } := rfl
    rw [hstate]
    refine ⟨closed, .opened none, ⟨h.queue, hdue, by simpa [popped, Machine.allocate] using h.queues,
      by simpa [popped, Machine.allocate] using h.runs, fun c hc => ?_, fun n rs hn => ?_, ?_, ?_,
      ?_⟩, le_rfl⟩
    · simpa [popped, Machine.allocate] using hc
    · simp only [popped, Machine.allocate, Machine.addJobs_cells, Machine.setCell_cells,
        Function.update_apply, PromiseId.returned.injEq] at hn
      split_ifs at hn with heq
      · exact ⟨heq, hn⟩
      · exact absurd (h.quiet n rs hn).1 heq
    · simp [popped, Machine.allocate, List.filter_append, hjs, List.filter_cons]
    · simpa [popped, Machine.allocate, List.filterMap_append, List.filterMap_cons] using hanswers
    · simp [h.log, history_started]

/-- What the promise of the thunk has to pass on. -/
theorem follow {r : Option (Except ε α)} (h : Chain s closed (.opened r))
    {js : List (ServerJob α ε)} (hjs : js.filter (fun j => (answered j).isNone) = [])
    (hanswers : s.answers ++ js.filterMap answered = answersOf closed) (c : Call α ε) :
    ∃ ph', Chain ((popped s js).runJob (.follow (.returned closed.length) (.run closed.length)) c)
      closed ph' ∧ ph'.progress = 3 := by
  cases r with
  | none =>
    have hcell := h.returned _ rfl
    have hstate : (popped s js).runJob (.follow (.returned closed.length) (.run closed.length)) c =
        { popped s js with
          machine := (popped s js).machine.setCell (.returned closed.length)
            (.pending [.forward (.run closed.length)]) } :=
      congrArg (fun m => { popped s js with machine := m })
        (Machine.subscribe_of_pending (m := (popped s js).machine) hcell _)
    rw [hstate]
    refine ⟨.waiting, ⟨h.queue, h.bound, by simpa [popped] using h.queues,
      by simpa [popped] using h.runs, fun c hc => ?_, fun n rs hn => ?_, hjs, hanswers, h.log⟩, rfl⟩
    · simpa [popped] using hc
    · simp only [popped, Machine.setCell_cells, Function.update_apply,
        PromiseId.returned.injEq] at hn
      split_ifs at hn with heq
      · exact ⟨heq, hn⟩
      · exact absurd (h.quiet n rs hn).1 heq
  | some o =>
    have hcell := h.returned _ rfl
    have hstate : (popped s js).runJob (.follow (.returned closed.length) (.run closed.length)) c =
        { popped s js with
          machine := (popped s js).machine.addJobs
            [.react (.forward (.run closed.length)) (o.map some)] } :=
      congrArg (fun m => { popped s js with machine := m })
        (Machine.subscribe_of_settled (m := (popped s js).machine) hcell _)
    rw [hstate]
    refine ⟨.arrived o, ⟨h.queue, h.bound, h.queues, h.runs, fun c hc => (nomatch hc),
      fun n rs hn => ?_, ?_, ?_, h.log⟩, rfl⟩
    · cases (h.quiet n rs hn).2
    · simp [popped, List.filter_append, hjs, List.filter_cons]
    · simpa [popped, List.filterMap_append, List.filterMap_cons] using hanswers

/-- The promise that the next request waits for settles, whatever came out. -/
theorem clear {o : Except ε α} (h : Chain s closed (.closing o)) {js : List (ServerJob α ε)}
    (hjs : js.filter (fun j => (answered j).isNone) = [])
    (hanswers : s.answers ++ js.filterMap answered = answersOf closed) (c : Call α ε) :
    Chain ((popped s js).runJob (.react (undefinedReaction closed.length) (o.map some)) c) closed
      .ready := by
  have hstate : (popped s js).runJob (.react (undefinedReaction closed.length) (o.map some)) c =
      { popped s js with
        machine := (popped s js).machine.settle (.queue closed.length) (.ok none) } := by
    cases o <;> rfl
  have hbound : closed.length ≤ s.requests := h.bound
  have hcell : (popped s js).machine.cells (.queue closed.length) =
      some (.pending (if closed.length < s.requests then [fnReaction closed.length] else [])) := by
    refine (h.queues closed.length).trans ?_
    simp only [queueCell, Phase.cleared, lt_irrefl, if_false]
    split_ifs with hlt heq
    · rfl
    · rfl
    · exact absurd (hbound.lt_or_eq) (not_or.mpr ⟨hlt, heq⟩)
  rw [hstate, Machine.settle_of_pending hcell]
  refine ⟨h.queue, h.bound, fun n => ?_, by simpa [popped] using h.runs, fun c hc => (nomatch hc),
    fun n rs hn => ?_, ?_, ?_, h.log⟩
  · refine Eq.trans ?_ (queueCell_succ s.requests closed.length n).symm
    simp only [popped, Machine.addJobs_cells, Machine.setCell_cells, Function.update_apply,
      PromiseId.queue.injEq, h.queues, Phase.cleared]
  · cases (h.quiet n rs (by simpa [popped] using hn)).2
  · simp only [popped, Machine.addJobs_jobs, Machine.setCell_jobs, List.filter_append, hjs]
    split_ifs with hlt <;> simp [hlt, List.filter_cons]
  · simp only [popped, Machine.addJobs_jobs, Machine.setCell_jobs, List.filterMap_append]
    rw [← hanswers]
    split_ifs <;> simp [List.filterMap_cons]

/-- The bound on the jobs that have run, for a chain with `answers` answered requests. -/
def work (closed : List (Except ε α)) (ph : Phase α ε) (answers : ℕ) : ℕ :=
  4 * closed.length + ph.progress + answers

/-- A job moves the chain on, or it answers a request. -/
theorem job (h : Chain s closed ph) {j : ServerJob α ε} {js : List (ServerJob α ε)}
    (hj : s.machine.jobs = j :: js) (c : Call α ε) :
    ∃ closed' ph', Chain ((popped s js).runJob j c) closed' ph' ∧
      work closed ph s.answers.length + 1 ≤
        work closed' ph' ((popped s js).runJob j c).answers.length := by
  rcases h.first_job hj with ⟨n, o, rfl, hjs, hanswers⟩ | ⟨hph, hjs, hanswers⟩
  · have hstate : (popped s js).runJob (.react (continuationReaction n) o) c =
        { popped s js with answers := s.answers ++ [(n, o)] } := by
      cases o <;> rfl
    rw [hstate]
    refine ⟨closed, ph, ⟨h.queue, h.bound, h.queues, h.runs, h.returned, h.quiet, hjs, ?_, h.log⟩,
      ?_⟩
    · simpa [popped] using hanswers
    · simp only [work, List.length_append, List.length_singleton]
      omega
  · cases ph with
    | ready =>
      simp only [Phase.jobs] at hph
      split_ifs at hph with hdue
      obtain rfl := List.singleton_inj.mp hph
      obtain ⟨closed', ph', hchain, hwork⟩ := h.call hdue hjs hanswers c
      refine ⟨closed', ph', hchain, ?_⟩
      have hsame : ((popped s js).runJob (.react (fnReaction closed.length) (.ok none)) c).answers =
          s.answers := by
        cases c <;> rfl
      have hready : (Phase.ready : Phase α ε).progress = 1 := rfl
      rw [hsame, work, work, hready]
      omega
    | opened r =>
      obtain rfl := List.singleton_inj.mp hph
      obtain ⟨ph', hchain, hwork⟩ := h.follow hjs hanswers c
      have hopened : (Phase.opened r).progress = 2 := rfl
      refine ⟨closed, ph', hchain, ?_⟩
      rw [work, work, hwork, hopened]
      simp only [Dispatcher.runJob, popped]
      omega
    | waiting => cases hph
    | arrived o =>
      obtain rfl := List.singleton_inj.mp hph
      have hstate : (popped s js).runJob (.react (.forward (.run closed.length)) (o.map some)) c =
          { popped s js with
            machine := (popped s js).machine.settle (.run closed.length) (o.map some) } := by
        cases o <;> rfl
      rw [hstate]
      refine ⟨closed ++ [o], .closing o, close h.queue h.bound h.queues h.runs (fun n rs hn => ?_)
        hjs hanswers h.log, ?_⟩
      · cases (h.quiet n rs hn).2
      · simp only [work, Phase.progress, List.length_append, List.length_singleton]
        exact le_of_eq (by simp only [popped]; omega)
    | closing o =>
      obtain rfl := List.singleton_inj.mp hph
      refine ⟨closed, .ready, h.clear hjs hanswers c, ?_⟩
      have hsame : ((popped s js).runJob (.react (undefinedReaction closed.length) (o.map some))
          c).answers = s.answers := by
        cases o <;> rfl
      rw [hsame]
      simp only [work, Phase.progress]
      omega

end Chain

/-! ## Runs -/

def Event.isRequest : Event α ε → Bool
  | .request => true
  | _ => false

def Event.isJob : Event α ε → Bool
  | .job _ => true
  | _ => false

theorem chain_step {s t : Dispatcher α ε} {closed : List (Except ε α)} {ph : Phase α ε}
    (h : Chain s closed ph) {e : Event α ε} (hs : s.step e = some t) :
    ∃ closed' ph', Chain t closed' ph' ∧
      Chain.work closed ph s.answers.length + e.isJob.toNat ≤
        Chain.work closed' ph' t.answers.length ∧
      t.requests = s.requests + e.isRequest.toNat := by
  cases e with
  | request =>
    obtain rfl := Option.some.inj hs
    exact ⟨closed, ph, h.serialize, le_rfl, rfl⟩
  | job c =>
    simp only [Dispatcher.step] at hs
    split at hs
    next => cases hs
    next j js hj =>
      obtain rfl := Option.some.inj hs
      obtain ⟨closed', ph', hchain, hwork⟩ := h.job hj c
      refine ⟨closed', ph', hchain, hwork, ?_⟩
      cases j with
      | follow p d => rfl
      | react r o =>
        simp only [Dispatcher.runJob]
        cases r.handler o with
        | none => rfl
        | some f =>
          cases f with
          | fn n => cases c <;> rfl
          | undefined => rfl
          | continuation n => rfl
  | settle n o =>
    simp only [Dispatcher.step] at hs
    split at hs
    next rs hc =>
      obtain rfl := Option.some.inj hs
      obtain ⟨ph', hchain, hsame⟩ := h.settle hc o
      refine ⟨closed, ph', hchain, ?_, rfl⟩
      rw [Chain.work, Chain.work, hsame]
      exact le_rfl
    next => cases hs

theorem chain_run {s t : Dispatcher α ε} {closed : List (Except ε α)} {ph : Phase α ε}
    (h : Chain s closed ph) {events : List (Event α ε)}
    (hrun : run Dispatcher.step s events = some t) :
    ∃ closed' ph', Chain t closed' ph' ∧
      Chain.work closed ph s.answers.length + events.countP Event.isJob ≤
        Chain.work closed' ph' t.answers.length ∧
      t.requests = s.requests + events.countP Event.isRequest := by
  induction events generalizing s closed ph with
  | nil =>
    obtain rfl := Option.some.inj hrun
    exact ⟨closed, ph, h, le_rfl, rfl⟩
  | cons e events ih =>
    obtain ⟨u, hs, hrest⟩ := run_cons_eq_some.mp hrun
    obtain ⟨closed₁, ph₁, h₁, hwork₁, hrequests₁⟩ := chain_step h hs
    obtain ⟨closed₂, ph₂, h₂, hwork₂, hrequests₂⟩ := ih h₁ hrest
    have hcount : ∀ p : Event α ε → Bool,
        (e :: events).countP p = events.countP p + (p e).toNat := by
      intro p
      cases hp : p e <;> simp [hp]
    refine ⟨closed₂, ph₂, h₂, ?_, ?_⟩
    · rw [hcount]
      omega
    · rw [hcount]
      omega

/-! ## The guarantee -/

def Running (s : Dispatcher α ε) (n : ℕ) : Prop :=
  .started n ∈ s.log ∧ ∀ o, .settled n o ∉ s.log

/-- What the server promises about its handlers and state reads. -/
structure Serialized (s : Dispatcher α ε) : Prop where
  /-- At most one thunk is running. -/
  exclusive : ∀ i j, Running s i → Running s j → i = j
  /-- They start in the order of arrival, each once. -/
  ordered : ∃ n ≤ s.requests, starts s.log = List.range n
  inTurn : InTurn s.log
  /-- The promise of a request settles with what came out of its own thunk. -/
  own : ∀ n o, s.machine.cells (.run n) = some (.settled o) →
    ∃ r, o = r.map some ∧ ∀ r', .settled n r' ∈ s.log ↔ r' = r
  answers : (∃ n, s.answers.map Prod.fst = List.range n) ∧
    ∀ n o, (n, o) ∈ s.answers → s.machine.cells (.run n) = some (.settled o)
  /-- While jobs are left, the next one can run, whatever its handler does. -/
  runs : s.machine.jobs ≠ [] → ∀ c, (s.step (.job c)).isSome
  /-- When none are left, a thunk whose predecessor has settled has started. -/
  first : s.machine.jobs = [] → 0 < s.requests → .started 0 ∈ s.log
  next : s.machine.jobs = [] → ∀ n o, .settled n o ∈ s.log → n + 1 < s.requests →
    .started (n + 1) ∈ s.log
  answered : s.machine.jobs = [] → ∀ n o, .settled n o ∈ s.log → (n, o.map some) ∈ s.answers
  /-- And the one that runs may settle in any way. -/
  settles : s.machine.jobs = [] → ∀ n, Running s n → ∀ o, (s.step (.settle n o)).isSome

namespace Chain

variable {s : Dispatcher α ε} {closed : List (Except ε α)} {ph : Phase α ε}

theorem running_iff (h : Chain s closed ph) {n : ℕ} :
    Running s n ↔ ph.running = true ∧ n = closed.length := by
  have hlen : ph.running = true → ph.outcomes closed = closed := by
    cases ph with
    | opened r => cases r <;> simp
    | _ => simp
  rw [Running, h.log]
  simp only [mem_history_started, mem_history_settled]
  constructor
  · rintro ⟨hlt | ⟨hrun, hn⟩, hnone⟩
    · exact absurd (List.getElem?_eq_getElem hlt) (hnone _)
    · exact ⟨hrun, hn.trans (congrArg _ (hlen hrun))⟩
  · rintro ⟨hrun, rfl⟩
    rw [hlen hrun]
    refine ⟨.inr ⟨hrun, rfl⟩, fun o ho => ?_⟩
    rw [List.getElem?_eq_none le_rfl] at ho
    cases ho

/-- Without jobs the chain waits for a thunk, or for a request. -/
theorem idle (h : Chain s closed ph) (hjobs : s.machine.jobs = []) :
    ph = .waiting ∨ (ph = .ready ∧ closed.length = s.requests) := by
  have hnone := h.jobs
  rw [hjobs] at hnone
  cases ph with
  | waiting => exact .inl rfl
  | ready =>
    simp only [Phase.jobs, List.filter_nil] at hnone
    split_ifs at hnone with hdue
    exact .inr ⟨rfl, le_antisymm h.bound (not_lt.mp hdue)⟩
  | opened r => cases hnone
  | arrived o => cases hnone
  | closing o => cases hnone

theorem idle_log (h : Chain s closed ph) (hjobs : s.machine.jobs = []) :
    (s.log = history closed true ∨ s.log = history closed false ∧ closed.length = s.requests) ∧
      s.answers = answersOf closed := by
  have hanswers := h.answers
  rw [hjobs, List.filterMap_nil, List.append_nil] at hanswers
  refine ⟨?_, hanswers⟩
  rcases h.idle hjobs with rfl | ⟨rfl, hall⟩
  · exact .inl h.log
  · exact .inr ⟨h.log, hall⟩

theorem run_settled (h : Chain s closed ph) {n : ℕ} {o : Except ε (Option α)} :
    s.machine.cells (.run n) = some (.settled o) ↔ ∃ r, closed[n]? = some r ∧ o = r.map some := by
  rw [h.runs, runCell]
  cases hr : closed[n]? with
  | some r => simp [eq_comm]
  | none =>
    simp only [reduceCtorEq, false_and, exists_false, iff_false]
    split_ifs <;> simp

theorem outcomes_getElem? (ph : Phase α ε) {n : ℕ} {r : Except ε α} (h : closed[n]? = some r) :
    (ph.outcomes closed)[n]? = some r := by
  have hlt := (List.getElem?_eq_some_iff.mp h).1
  cases ph with
  | opened o => cases o <;> simp [List.getElem?_append_left hlt, h]
  | arrived o => simp [List.getElem?_append_left hlt, h]
  | _ => exact h

theorem mem_answersOf {n : ℕ} {o : Except ε (Option α)} :
    (n, o) ∈ answersOf closed ↔ ∃ r, closed[n]? = some r ∧ o = r.map some := by
  simp only [answersOf, List.mem_mapIdx, Prod.mk.injEq, List.getElem?_eq_some_iff]
  constructor
  · rintro ⟨i, hi, rfl, rfl⟩
    exact ⟨_, ⟨hi, rfl⟩, rfl⟩
  · rintro ⟨r, ⟨hi, rfl⟩, rfl⟩
    exact ⟨n, hi, rfl, rfl⟩

theorem fst_answersOf (closed : List (Except ε α)) :
    (answersOf closed).map Prod.fst = List.range closed.length := by
  apply List.ext_getElem
  · simp [answersOf]
  · simp [answersOf]

theorem inOrder (h : Chain s closed ph) : Serialized s where
  exclusive i j hi hj := (h.running_iff.mp hi).2.trans (h.running_iff.mp hj).2.symm
  ordered := by
    refine ⟨(ph.outcomes closed).length + ph.running.toNat, ?_, ?_⟩
    · have hbound := h.bound
      cases ph with
      | opened o => cases o <;> simpa using hbound
      | _ => simpa using hbound
    · rw [h.log, starts_history]
  inTurn := by
    rw [h.log]
    exact inTurn_history _ _
  own n o hn := by
    obtain ⟨r, hr, rfl⟩ := h.run_settled.mp hn
    refine ⟨r, rfl, fun r' => ?_⟩
    rw [h.log, mem_history_settled, outcomes_getElem? ph hr, Option.some.injEq, eq_comm]
  answers := by
    have hfst := congrArg (List.map Prod.fst) h.answers
    rw [List.map_append, fst_answersOf] at hfst
    refine ⟨⟨s.answers.length, ?_⟩, fun n o hmem => ?_⟩
    · have htake := congrArg (List.take s.answers.length) hfst
      have hle := congrArg List.length hfst
      rw [List.take_append_of_le_length (by simp), List.take_of_length_le (by simp),
        List.take_range] at htake
      rw [htake]
      congr 1
      simp only [List.length_append, List.length_map, List.length_range] at hle
      omega
    · have hall := List.mem_append_left (s.machine.jobs.filterMap answered) hmem
      rw [h.answers] at hall
      exact h.run_settled.mpr (mem_answersOf.mp hall)
  runs hjobs c := by
    obtain ⟨j, js, hj⟩ := List.exists_cons_of_ne_nil hjobs
    simp [Dispatcher.step, hj]
  first hjobs hpos := by
    rcases (h.idle_log hjobs).1 with hlog | ⟨hlog, hall⟩
    · rw [hlog, mem_history_started]
      exact (Nat.eq_zero_or_pos _).elim (fun hz => .inr ⟨rfl, hz.symm⟩) .inl
    · rw [hlog, mem_history_started]
      exact .inl (by omega)
  next hjobs n o hsettled hn := by
    rcases (h.idle_log hjobs).1 with hlog | ⟨hlog, hall⟩
    · rw [hlog, mem_history_settled] at hsettled
      have hlt := (List.getElem?_eq_some_iff.mp hsettled).1
      rw [hlog, mem_history_started]
      exact (Nat.succ_le_of_lt hlt).lt_or_eq.imp_right fun heq => ⟨rfl, heq⟩
    · rw [hlog, mem_history_started]
      exact .inl (by omega)
  answered hjobs n o hsettled := by
    obtain ⟨hlog, hanswers⟩ := h.idle_log hjobs
    rw [hanswers, mem_answersOf]
    refine ⟨o, ?_, rfl⟩
    rcases hlog with hlog | ⟨hlog, -⟩
    · rwa [hlog, mem_history_settled] at hsettled
    · rwa [hlog, mem_history_settled] at hsettled
  settles hjobs n hrunning o := by
    obtain ⟨hrun, rfl⟩ := h.running_iff.mp hrunning
    rcases h.idle hjobs with rfl | ⟨rfl, -⟩
    · simp [Dispatcher.step, h.returned _ rfl]
    · cases hrun

/-- Every request costs the event loop at most five jobs. -/
theorem work_le (h : Chain s closed ph) : work closed ph s.answers.length ≤ 5 * s.requests + 1 := by
  have hanswers : s.answers.length ≤ closed.length := by
    have hlen := congrArg List.length h.answers
    simp only [List.length_append, answersOf, List.length_mapIdx] at hlen
    omega
  have hbound := h.bound
  have hprogress : ph.progress ≤ 1 + 2 * ph.busy.toNat := by
    cases ph <;> simp
  unfold work
  omega

end Chain

/-- The promise chain runs one thunk at a time, in order, and never stops: it gets stuck neither
on an error nor on a thunk that settles late. -/
theorem serialized {events : List (Event α ε)} {s : Dispatcher α ε}
    (h : run Dispatcher.step .initial events = some s) :
    Serialized s ∧ s.requests = events.countP Event.isRequest ∧
      events.countP Event.isJob ≤ 5 * s.requests := by
  obtain ⟨closed, ph, hchain, hwork, hrequests⟩ := chain_run chain_initial h
  have hle := hchain.work_le
  have hinitial : Chain.work ([] : List (Except ε α)) .ready
      (Dispatcher.initial : Dispatcher α ε).answers.length = 1 := rfl
  refine ⟨hchain.inOrder, ?_, by omega⟩
  rw [hrequests]
  exact Nat.zero_add _

/-- The first handler awaits and rejects with 7 while the second request waits; its handler
returns at once. -/
def rejecting : List (Event ℕ ℕ) :=
  [.request, .job .awaits, .request, .job .awaits, .settle 0 (.error 7), .job .awaits, .job .awaits,
    .job .awaits, .job (.completes (.ok 3)), .job .awaits, .job .awaits]

theorem serialized_rejecting : ∃ s : Dispatcher ℕ ℕ,
    run Dispatcher.step .initial rejecting = some s ∧ Serialized s ∧
      s.log = [.started 0, .settled 0 (.error 7), .started 1, .settled 1 (.ok 3)] ∧
      s.answers = [(0, .error 7), (1, .ok (some 3))] := by
  have hrun : (run Dispatcher.step (.initial : Dispatcher ℕ ℕ) rejecting).any (fun s =>
      s.log = [.started 0, .settled 0 (.error 7), .started 1, .settled 1 (.ok 3)] ∧
      s.answers = [(0, .error 7), (1, .ok (some 3))]) = true := by decide
  obtain ⟨s, hs, hseen⟩ := (Option.any_eq_true _ _).mp hrun
  exact ⟨s, hs, (serialized hs).1, of_decide_eq_true hseen⟩

end StealthWage.Base
