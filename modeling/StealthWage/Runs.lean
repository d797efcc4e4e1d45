import Mathlib

/-! # Runs of a step function

A system is a step function `σ → ε → Option σ`; an event that is not enabled gives
`none`. `run` folds it over a list of events and `Along` states a side condition at
every state a run passes through. One induction here gives the invariant rule that
every result about whole runs uses. -/
namespace StealthWage.Runs

variable {σ ε : Type*} {step : σ → ε → Option σ}

/-- The state after a list of events, if each of them is enabled in its turn. -/
def run (step : σ → ε → Option σ) : σ → List ε → Option σ
  | s, [] => some s
  | s, e :: es => (step s e).bind fun s' => run step s' es

/-- `Q` holds of every event of the run and the state it meets. -/
def Along (step : σ → ε → Option σ) (Q : σ → ε → Prop) : σ → List ε → Prop
  | _, [] => True
  | s, e :: es => Q s e ∧ ((step s e).elim True fun s' => Along step Q s' es)

instance Along.decidable {Q : σ → ε → Prop} [∀ s e, Decidable (Q s e)] :
    (s : σ) → (es : List ε) → Decidable (Along step Q s es)
  | _, [] => inferInstanceAs (Decidable True)
  | s, e :: es =>
    have : Decidable ((step s e).elim True fun s' => Along step Q s' es) :=
      match step s e with
      | none => inferInstanceAs (Decidable True)
      | some s' => Along.decidable s' es
    inferInstanceAs (Decidable (_ ∧ _))

@[simp] theorem run_nil (s : σ) : run step s [] = some s := rfl

theorem run_cons_eq_some {s t : σ} {e : ε} {es : List ε} :
    run step s (e :: es) = some t ↔ ∃ s', step s e = some s' ∧ run step s' es = some t := by
  simp [run, Option.bind_eq_some_iff]

theorem run_append (s : σ) (es fs : List ε) :
    run step s (es ++ fs) = (run step s es).bind fun s' => run step s' fs := by
  induction es generalizing s with
  | nil => rfl
  | cons e es ih =>
    simp only [List.cons_append, run, Option.bind_assoc]
    congr 1
    funext s'
    exact ih s'

theorem run_append_eq_some {s t : σ} {es fs : List ε} :
    run step s (es ++ fs) = some t ↔ ∃ s', run step s es = some s' ∧ run step s' fs = some t := by
  rw [run_append, Option.bind_eq_some_iff]

theorem run_singleton (s : σ) (e : ε) : run step s [e] = step s e := by
  simp [run]

theorem along_cons {Q : σ → ε → Prop} {s s' : σ} {e : ε} {es : List ε}
    (h : Along step Q s (e :: es)) (hs : step s e = some s') : Q s e ∧ Along step Q s' es := by
  simpa [Along, hs] using h

theorem along_append {Q : σ → ε → Prop} {s : σ} {es fs : List ε}
    (h : Along step Q s (es ++ fs)) :
    Along step Q s es ∧ ∀ s', run step s es = some s' → Along step Q s' fs := by
  induction es generalizing s with
  | nil =>
    refine ⟨trivial, fun s' hs => ?_⟩
    rwa [← Option.some.inj hs]
  | cons e es ih =>
    cases hs : step s e with
    | none => exact ⟨⟨h.1, by simp [hs]⟩, fun s' hrun => by simp [run, hs] at hrun⟩
    | some t =>
      obtain ⟨hQ, hrest⟩ := along_cons h hs
      obtain ⟨hes, hfs⟩ := ih hrest
      exact ⟨⟨hQ, by simpa [hs] using hes⟩, fun s' hrun => hfs s' (by simpa [run, hs] using hrun)⟩

theorem Along.imp {Q Q' : σ → ε → Prop} (hQ : ∀ s e, Q s e → Q' s e) {s : σ} {es : List ε}
    (h : Along step Q s es) : Along step Q' s es := by
  induction es generalizing s with
  | nil => trivial
  | cons e es ih =>
    refine ⟨hQ s e h.1, ?_⟩
    cases hs : step s e with
    | none => trivial
    | some s' => exact ih (along_cons h hs).2

theorem Along.and {Q Q' : σ → ε → Prop} {s : σ} {es : List ε}
    (h : Along step Q s es) (h' : Along step Q' s es) :
    Along step (fun s e => Q s e ∧ Q' s e) s es := by
  induction es generalizing s with
  | nil => trivial
  | cons e es ih =>
    refine ⟨⟨h.1, h'.1⟩, ?_⟩
    cases hs : step s e with
    | none => trivial
    | some s' => exact ih (along_cons h hs).2 (along_cons h' hs).2

/-- The invariant rule, with a side condition on the events that were taken. -/
theorem invariant_along {P : σ → Prop} {Q : σ → ε → Prop}
    (hstep : ∀ s e s', P s → Q s e → step s e = some s' → P s')
    {s t : σ} {es : List ε} (hP : P s) (hQ : Along step Q s es)
    (hrun : run step s es = some t) : P t := by
  induction es generalizing s with
  | nil =>
    obtain rfl := Option.some.inj hrun
    exact hP
  | cons e es ih =>
    obtain ⟨s', hs, hrest⟩ := run_cons_eq_some.mp hrun
    obtain ⟨hq, hQ'⟩ := along_cons hQ hs
    exact ih (hstep s e s' hP hq hs) hQ' hrest

/-- What each event guarantees in whatever state it is met. -/
theorem along_of_mem {Q : σ → ε → Prop} {es : List ε} (h : ∀ e ∈ es, ∀ s, Q s e) (s : σ) :
    Along step Q s es := by
  induction es generalizing s with
  | nil => trivial
  | cons e es ih =>
    refine ⟨h e List.mem_cons_self s, ?_⟩
    cases step s e with
    | none => trivial
    | some s' => exact ih (fun e' he' => h e' (List.mem_cons_of_mem e he')) s'

theorem along_true (s : σ) (es : List ε) : Along step (fun _ _ => True) s es :=
  along_of_mem (fun _ _ _ => trivial) s

/-- An invariant holds at every state that a run passes through. -/
theorem along_of_invariant {P : σ → Prop} {Q : σ → ε → Prop} (hPQ : ∀ s e, P s → Q s e)
    (hstep : ∀ s e s', P s → step s e = some s' → P s') {s : σ} (es : List ε) (hP : P s) :
    Along step Q s es := by
  induction es generalizing s with
  | nil => trivial
  | cons e es ih =>
    refine ⟨hPQ s e hP, ?_⟩
    cases hs : step s e with
    | none => trivial
    | some s' => exact ih (hstep s e s' hP hs)

/-- What every step preserves, every run preserves. -/
theorem invariant_run {P : σ → Prop} (hstep : ∀ s e s', P s → step s e = some s' → P s')
    {s t : σ} {es : List ε} (hP : P s) (hrun : run step s es = some t) : P t :=
  invariant_along (fun s e s' hs _ h => hstep s e s' hs h) hP (along_true s es) hrun

end StealthWage.Runs
