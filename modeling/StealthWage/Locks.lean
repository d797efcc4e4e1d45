import StealthWage.Runs

/-! # A lock around a shared state

Threads that run one section each, in atomic steps. A section takes no lock, or takes it along
with others that only read, or has it alone. Whatever the order of all these steps, each section
runs as if at once when it is entered. -/
namespace StealthWage.Locks
open Runs

/-! ## Sections -/

inductive Kind
  | free
  | read
  | write
  deriving DecidableEq

variable {ι σ ℓ : Type*}

/-- A step changes the shared state and the variables of its thread. -/
structure Section (σ ℓ : Type*) where
  kind : Kind
  start : ℓ
  steps : List (σ × ℓ → σ × ℓ)
  keeps : kind ≠ .write → ∀ f ∈ steps, ∀ x, (f x).1 = x.1
  still : kind = .free → steps = []

def finish (fs : List (σ × ℓ → σ × ℓ)) (x : σ × ℓ) : σ × ℓ := fs.foldl (fun x f => f x) x

@[simp] theorem finish_nil (x : σ × ℓ) : finish [] x = x := rfl

@[simp] theorem finish_cons (f : σ × ℓ → σ × ℓ) (fs : List (σ × ℓ → σ × ℓ)) (x : σ × ℓ) :
    finish (f :: fs) x = finish fs (f x) := rfl

theorem finish_fst {fs : List (σ × ℓ → σ × ℓ)} (h : ∀ f ∈ fs, ∀ x, (f x).1 = x.1) (x : σ × ℓ) :
    (finish fs x).1 = x.1 := by
  induction fs generalizing x with
  | nil => rfl
  | cons f fs ih =>
    rw [finish_cons, ih fun g hg => h g (List.mem_cons_of_mem f hg)]
    exact h f List.mem_cons_self x

/-- The section without anything in between. -/
def Section.exec (c : Section σ ℓ) (s : σ) : σ × ℓ := finish c.steps (s, c.start)

theorem Section.exec_fst {c : Section σ ℓ} (h : c.kind ≠ .write) (s : σ) : (c.exec s).1 = s :=
  finish_fst (c.keeps h) _

/-! ## The machine -/

inductive Phase (σ ℓ : Type*)
  | absent
  | waiting
  | inside (rest : List (σ × ℓ → σ × ℓ)) (own : ℓ)
  | finished (own : ℓ)

def Phase.entered : Phase σ ℓ → Bool
  | .inside _ _ | .finished _ => true
  | _ => false

structure State (ι σ ℓ : Type*) where
  shared : σ
  holders : List ι
  phase : ι → Phase σ ℓ

def State.initial (s : σ) : State ι σ ℓ := ⟨s, [], fun _ => .absent⟩

inductive Event (ι : Type*)
  | arrive (i : ι)
  | enter (i : ι)
  | act (i : ι)
  | leave (i : ι)

/-- The sections in the order in which they were entered. -/
def entered (es : List (Event ι)) : List ι :=
  es.filterMap fun e =>
    match e with
    | .enter i => some i
    | _ => none

variable (job : ι → Section σ ℓ)

/-- Whether a section of this kind may be entered beside the holders of the lock. -/
def admits (holders : List ι) : Kind → Bool
  | .free => true
  | .read => holders.all fun j => (job j).kind = .read
  | .write => holders.isEmpty

/-- The state after the sections, one after the other. -/
def serial (s : σ) (order : List ι) : σ := order.foldl (fun s i => ((job i).exec s).1) s

variable {job} {s₀ : σ} {order : List ι} {i : ι}

theorem serial_append (s : σ) (order : List ι) (i : ι) :
    serial job s (order ++ [i]) = ((job i).exec (serial job s order)).1 :=
  List.foldl_append

/-- A section that does not write leaves no trace in the serial order. -/
theorem serial_append_of_ne (h : (job i).kind ≠ .write) (s : σ) (order : List ι) :
    serial job s (order ++ [i]) = serial job s order := by
  rw [serial_append, Section.exec_fst h]

/-- The variables of a thread are those that the section leaves when it runs in its place. -/
def Placed (job : ι → Section σ ℓ) (s₀ : σ) (order : List ι) (i : ι) (own : ℓ) : Prop :=
  ∃ pre post, order = pre ++ i :: post ∧ own = ((job i).exec (serial job s₀ pre)).2

theorem Placed.append {own : ℓ} (h : Placed job s₀ order i own) (j : ι) :
    Placed job s₀ (order ++ [j]) i own := by
  obtain ⟨pre, post, rfl, hown⟩ := h
  exact ⟨pre, post ++ [j], by rw [List.append_assoc, List.cons_append], hown⟩

/-- Who is inside, who holds the lock, and what the threads have still to do. -/
structure Serial (job : ι → Section σ ℓ) (s₀ : σ) (order : List ι) (t : State ι σ ℓ) : Prop where
  nodup : order.Nodup
  mem : ∀ i, i ∈ order ↔ (t.phase i).entered = true
  holds : ∀ i rest own, t.phase i = .inside rest own → (job i).kind ≠ .free → i ∈ t.holders
  held : ∀ i ∈ t.holders, ∃ rest own, t.phase i = .inside rest own
  alone : ∀ i ∈ t.holders, (job i).kind = .write → t.holders = [i]
  quiet : (∀ i ∈ t.holders, (job i).kind ≠ .write) → t.shared = serial job s₀ order
  steps : ∀ i rest own, t.phase i = .inside rest own → rest <:+ (job i).steps
  written : ∀ i rest own, t.phase i = .inside rest own → (job i).kind = .write →
    (finish rest (t.shared, own)).1 = serial job s₀ order
  placed : ∀ i rest own, t.phase i = .inside rest own →
    Placed job s₀ order i (finish rest (t.shared, own)).2
  finished : ∀ i own, t.phase i = .finished own → Placed job s₀ order i own

theorem Serial.initial (s₀ : σ) : Serial job s₀ [] (State.initial s₀ : State ι σ ℓ) where
  nodup := List.nodup_nil
  mem i := by simp [State.initial, Phase.entered]
  holds i rest own h := by cases h
  held i hi := by cases hi
  alone i hi := by cases hi
  quiet _ := rfl
  steps i rest own h := by cases h
  written i rest own h := by cases h
  placed i rest own h := by cases h
  finished i own h := by cases h

/-- Beside a writer that holds the lock there is room only for those that take none. -/
theorem free_of_admits {holders : List ι} (h : admits job holders (job i).kind = true) {j : ι}
    (hj : j ∈ holders) (hwrite : (job j).kind = .write) : (job i).kind = .free := by
  cases hkind : (job i).kind with
  | free => rfl
  | read =>
    rw [hkind, admits, List.all_eq_true] at h
    have hread := h j hj
    rw [decide_eq_true_eq, hwrite] at hread
    cases hread
  | write =>
    rw [hkind, admits, List.isEmpty_iff] at h
    rw [h] at hj
    cases hj

/-- Before a section that reads or writes, the state is that of the serial order. -/
theorem Serial.shared_of_admits {t : State ι σ ℓ} (h : Serial job s₀ order t)
    (hne : (job i).kind ≠ .free) (hadmits : admits job t.holders (job i).kind = true) :
    t.shared = serial job s₀ order :=
  h.quiet fun _ hj hwrite => hne (free_of_admits hadmits hj hwrite)

/-- A thread outside does not hold the lock. -/
theorem Serial.ne_of_held {t : State ι σ ℓ} (h : Serial job s₀ order t) (hphase : (t.phase i).entered = false) {j : ι}
    (hj : j ∈ t.holders) : j ≠ i := by
  rintro rfl
  obtain ⟨rest, own, hinside⟩ := h.held j hj
  rw [hinside] at hphase
  cases hphase

/-! ## Steps -/

variable [DecidableEq ι]

variable (job) in
def step (t : State ι σ ℓ) : Event ι → Option (State ι σ ℓ)
  | .arrive i =>
    match t.phase i with
    | .absent => some { t with phase := Function.update t.phase i .waiting }
    | _ => none
  | .enter i =>
    match t.phase i with
    | .waiting =>
      if admits job t.holders (job i).kind then
        some { t with
          holders := if (job i).kind = .free then t.holders else i :: t.holders
          phase := Function.update t.phase i (.inside (job i).steps (job i).start) }
      else none
    | _ => none
  | .act i =>
    match t.phase i with
    | .inside (f :: rest) own =>
      some { t with
        shared := (f (t.shared, own)).1
        phase := Function.update t.phase i (.inside rest (f (t.shared, own)).2) }
    | _ => none
  | .leave i =>
    match t.phase i with
    | .inside [] own =>
      some { t with
        holders := t.holders.filter (· ≠ i)
        phase := Function.update t.phase i (.finished own) }
    | _ => none

variable {t t' : State ι σ ℓ}

theorem arrive_eq_some (h : step job t (.arrive i) = some t') :
    t.phase i = .absent ∧ t' = { t with phase := Function.update t.phase i .waiting } := by
  rw [step] at h
  split at h
  next hphase => exact ⟨hphase, (Option.some.inj h).symm⟩
  next => cases h

theorem enter_eq_some (h : step job t (.enter i) = some t') :
    t.phase i = .waiting ∧ admits job t.holders (job i).kind = true ∧
      t' = { t with
        holders := if (job i).kind = .free then t.holders else i :: t.holders
        phase := Function.update t.phase i (.inside (job i).steps (job i).start) } := by
  rw [step] at h
  split at h
  next hphase =>
    by_cases hadmits : admits job t.holders (job i).kind = true
    · rw [if_pos hadmits] at h
      exact ⟨hphase, hadmits, (Option.some.inj h).symm⟩
    · rw [if_neg hadmits] at h
      cases h
  next => cases h

theorem act_eq_some (h : step job t (.act i) = some t') : ∃ f rest own,
    t.phase i = .inside (f :: rest) own ∧
      t' = { t with
        shared := (f (t.shared, own)).1
        phase := Function.update t.phase i (.inside rest (f (t.shared, own)).2) } := by
  rw [step] at h
  split at h
  next f rest own hphase => exact ⟨f, rest, own, hphase, (Option.some.inj h).symm⟩
  next => cases h

theorem leave_eq_some (h : step job t (.leave i) = some t') : ∃ own,
    t.phase i = .inside [] own ∧
      t' = { t with
        holders := t.holders.filter (· ≠ i)
        phase := Function.update t.phase i (.finished own) } := by
  rw [step] at h
  split at h
  next own hphase => exact ⟨own, hphase, (Option.some.inj h).symm⟩
  next => cases h

/-! ## What a step keeps -/

theorem phase_update {φ : ι → Phase σ ℓ} {p q : Phase σ ℓ} {j : ι}
    (h : Function.update φ i p j = q) : j = i ∧ p = q ∨ j ≠ i ∧ φ j = q := by
  by_cases hji : j = i
  · subst hji
    rw [Function.update_self] at h
    exact .inl ⟨rfl, h⟩
  · rw [Function.update_of_ne hji] at h
    exact .inr ⟨hji, h⟩

namespace Serial

theorem arrive (h : Serial job s₀ order t) (hphase : t.phase i = .absent) :
    Serial job s₀ order { t with phase := Function.update t.phase i .waiting } := by
  have hother : ∀ {j p}, Function.update t.phase i .waiting j = p → p.entered = true →
      t.phase j = p := by
    intro j p hj hp
    rcases phase_update hj with ⟨-, rfl⟩ | ⟨-, hj⟩
    · cases hp
    · exact hj
  have houtside : (t.phase i).entered = false := by
    rw [hphase]
    rfl
  refine ⟨h.nodup, fun j => ?_, fun j rest own hj => h.holds j rest own (hother hj rfl),
    fun j hj => ?_, h.alone, h.quiet, fun j rest own hj => h.steps j rest own (hother hj rfl),
    fun j rest own hj => h.written j rest own (hother hj rfl),
    fun j rest own hj => h.placed j rest own (hother hj rfl),
    fun j own hj => h.finished j own (hother hj rfl)⟩
  · rw [h.mem]
    by_cases hji : j = i
    · subst hji
      simp only [hphase, Function.update_self, Phase.entered]
    · simp only [Function.update_of_ne hji]
  · simp only [Function.update_of_ne (h.ne_of_held houtside hj)]
    exact h.held j hj

theorem enter (h : Serial job s₀ order t) (hphase : t.phase i = .waiting)
    (hadmits : admits job t.holders (job i).kind = true) :
    Serial job s₀ (order ++ [i]) { t with
      holders := if (job i).kind = .free then t.holders else i :: t.holders
      phase := Function.update t.phase i (.inside (job i).steps (job i).start) } := by
  have houtside : (t.phase i).entered = false := by
    rw [hphase]
    rfl
  have hholder : ∀ {j}, j ∈ (if (job i).kind = .free then t.holders else i :: t.holders) →
      (j = i ∧ (job i).kind ≠ .free) ∨ j ∈ t.holders := by
    intro j hj
    split_ifs at hj with hfree
    · exact .inr hj
    · rcases List.mem_cons.mp hj with rfl | hj
      · exact .inl ⟨rfl, hfree⟩
      · exact .inr hj
  have hmore : ∀ {j}, j ∈ t.holders →
      j ∈ (if (job i).kind = .free then t.holders else i :: t.holders) := by
    intro j hj
    split_ifs
    · exact hj
    · exact List.mem_cons_of_mem i hj
  have hwriter : ∀ {j}, j ∈ t.holders → (job j).kind = .write → (job i).kind = .free :=
    free_of_admits hadmits
  refine ⟨?_, fun j => ?_, fun j rest own hj hne => ?_, fun j hj => ?_, fun j hj hwrite => ?_,
    fun hquiet => ?_, fun j rest own hj => ?_, fun j rest own hj hwrite => ?_,
    fun j rest own hj => ?_, fun j own hj => ?_⟩
  · refine List.nodup_append.mpr ⟨h.nodup, List.nodup_singleton i, ?_⟩
    rintro j hj k hk rfl
    obtain rfl := List.mem_singleton.mp hk
    rw [h.mem, houtside] at hj
    cases hj
  · rw [List.mem_append, List.mem_singleton, h.mem]
    by_cases hji : j = i
    · subst hji
      simp only [Function.update_self, Phase.entered, or_true]
    · simp only [Function.update_of_ne hji, hji, or_false]
  · rcases phase_update hj with ⟨rfl, -⟩ | ⟨-, hj⟩
    · rw [if_neg hne]
      exact List.mem_cons_self
    · exact hmore (h.holds j rest own hj hne)
  · rcases hholder hj with ⟨rfl, -⟩ | hj
    · exact ⟨_, _, Function.update_self ..⟩
    · simp only [Function.update_of_ne (h.ne_of_held houtside hj)]
      exact h.held j hj
  · rcases hholder hj with ⟨rfl, hne⟩ | hj
    · rw [hwrite, admits, List.isEmpty_iff] at hadmits
      rw [if_neg hne, hadmits]
    · rw [if_pos (hwriter hj hwrite)]
      exact h.alone j hj hwrite
  · have hne : (job i).kind ≠ .write := by
      intro hwrite
      refine hquiet i ?_ hwrite
      rw [if_neg (by rw [hwrite]; exact nofun)]
      exact List.mem_cons_self
    rw [serial_append_of_ne hne]
    exact h.quiet fun j hj => hquiet j (hmore hj)
  · rcases phase_update hj with ⟨rfl, hinside⟩ | ⟨-, hj⟩
    · obtain ⟨rfl, -⟩ := Phase.inside.inj hinside
      exact List.suffix_rfl
    · exact h.steps j rest own hj
  · rcases phase_update hj with ⟨rfl, hinside⟩ | ⟨-, hj⟩
    · obtain ⟨rfl, rfl⟩ := Phase.inside.inj hinside
      rw [serial_append, h.shared_of_admits (by rw [hwrite]; exact nofun) hadmits]
      rfl
    · have hfree := hwriter (h.holds j rest own hj (by rw [hwrite]; exact nofun)) hwrite
      rw [serial_append_of_ne (by rw [hfree]; exact nofun)]
      exact h.written j rest own hj hwrite
  · rcases phase_update hj with ⟨rfl, hinside⟩ | ⟨-, hj⟩
    · obtain ⟨rfl, rfl⟩ := Phase.inside.inj hinside
      refine ⟨order, [], rfl, ?_⟩
      by_cases hfree : (job j).kind = .free
      · rw [Section.exec, (job j).still hfree]
        rfl
      · rw [h.shared_of_admits hfree hadmits]
        rfl
    · exact (h.placed j rest own hj).append i
  · rcases phase_update hj with ⟨-, hfinished⟩ | ⟨-, hj⟩
    · cases hfinished
    · exact (h.finished j own hj).append i

theorem act (h : Serial job s₀ order t) {f : σ × ℓ → σ × ℓ} {rest : List (σ × ℓ → σ × ℓ)} {own : ℓ}
    (hphase : t.phase i = .inside (f :: rest) own) :
    Serial job s₀ order { t with
      shared := (f (t.shared, own)).1
      phase := Function.update t.phase i (.inside rest (f (t.shared, own)).2) } := by
  have hsuffix := h.steps i _ _ hphase
  have hnotFree : (job i).kind ≠ .free := by
    intro hfree
    rw [(job i).still hfree, List.suffix_nil] at hsuffix
    cases hsuffix
  have hholds := h.holds i _ _ hphase hnotFree
  have hkeeps : (job i).kind ≠ .write → (f (t.shared, own)).1 = t.shared := fun hne =>
    (job i).keeps hne f (hsuffix.subset List.mem_cons_self) _
  -- what another thread inside sees of the step
  have hother : ∀ {j rest' own'}, j ≠ i → t.phase j = .inside rest' own' →
      (f (t.shared, own)).1 = t.shared ∨ rest' = [] ∧ (job j).kind ≠ .write := by
    intro j rest' own' hji hj
    by_cases hwrite : (job i).kind = .write
    · have hfree : (job j).kind = .free := by
        by_contra hne
        have hmem := h.holds j _ _ hj hne
        rw [h.alone i hholds hwrite, List.mem_singleton] at hmem
        exact hji hmem
      have hrest := h.steps j _ _ hj
      rw [(job j).still hfree, List.suffix_nil] at hrest
      exact .inr ⟨hrest, by rw [hfree]; exact nofun⟩
    · exact .inl (hkeeps hwrite)
  refine ⟨h.nodup, fun j => ?_, fun j rest' own' hj hne => ?_, fun j hj => ?_, h.alone,
    fun hquiet => ?_, fun j rest' own' hj => ?_, fun j rest' own' hj hwrite => ?_,
    fun j rest' own' hj => ?_, fun j own' hj => ?_⟩
  · rw [h.mem]
    by_cases hji : j = i
    · subst hji
      simp only [hphase, Function.update_self, Phase.entered]
    · simp only [Function.update_of_ne hji]
  · rcases phase_update hj with ⟨rfl, -⟩ | ⟨-, hj⟩
    · exact hholds
    · exact h.holds j rest' own' hj hne
  · by_cases hji : j = i
    · subst hji
      exact ⟨_, _, Function.update_self ..⟩
    · simp only [Function.update_of_ne hji]
      exact h.held j hj
  · rw [hkeeps (hquiet i hholds)]
    exact h.quiet hquiet
  · rcases phase_update hj with ⟨rfl, hinside⟩ | ⟨-, hj⟩
    · obtain ⟨rfl, -⟩ := Phase.inside.inj hinside
      exact (List.suffix_cons f rest).trans hsuffix
    · exact h.steps j rest' own' hj
  · rcases phase_update hj with ⟨rfl, hinside⟩ | ⟨hji, hj⟩
    · obtain ⟨rfl, rfl⟩ := Phase.inside.inj hinside
      exact h.written j _ _ hphase hwrite
    · rcases hother hji hj with hsame | ⟨-, hne⟩
      · rw [hsame]
        exact h.written j rest' own' hj hwrite
      · exact absurd hwrite hne
  · rcases phase_update hj with ⟨rfl, hinside⟩ | ⟨hji, hj⟩
    · obtain ⟨rfl, rfl⟩ := Phase.inside.inj hinside
      exact h.placed j _ _ hphase
    · rcases hother hji hj with hsame | ⟨rfl, -⟩
      · rw [hsame]
        exact h.placed j rest' own' hj
      · exact h.placed j [] own' hj
  · rcases phase_update hj with ⟨-, hfinished⟩ | ⟨-, hj⟩
    · cases hfinished
    · exact h.finished j own' hj

theorem leave (h : Serial job s₀ order t) {own : ℓ} (hphase : t.phase i = .inside [] own) :
    Serial job s₀ order { t with
      holders := t.holders.filter (· ≠ i)
      phase := Function.update t.phase i (.finished own) } := by
  have hother : ∀ {j rest' own'},
      Function.update t.phase i (.finished own) j = .inside rest' own' →
        j ≠ i ∧ t.phase j = .inside rest' own' := by
    intro j rest' own' hj
    rcases phase_update hj with ⟨-, hinside⟩ | hj
    · cases hinside
    · exact hj
  refine ⟨h.nodup, fun j => ?_, fun j rest' own' hj hne => ?_, fun j hj => ?_,
    fun j hj hwrite => ?_, fun hquiet => ?_, fun j rest' own' hj => ?_,
    fun j rest' own' hj hwrite => ?_, fun j rest' own' hj => ?_, fun j own' hj => ?_⟩
  · rw [h.mem]
    by_cases hji : j = i
    · subst hji
      simp only [hphase, Function.update_self, Phase.entered]
    · simp only [Function.update_of_ne hji]
  · obtain ⟨hji, hj⟩ := hother hj
    exact List.mem_filter.mpr ⟨h.holds j rest' own' hj hne, decide_eq_true hji⟩
  · obtain ⟨hj, hji⟩ := List.mem_filter.mp hj
    simp only [Function.update_of_ne (of_decide_eq_true hji)]
    exact h.held j hj
  · obtain ⟨hj, hji⟩ := List.mem_filter.mp hj
    simp only [h.alone j hj hwrite]
    exact List.filter_cons_of_pos hji
  · by_cases hwrite : (job i).kind = .write
    · exact h.written i [] own hphase hwrite
    · refine h.quiet fun j hj => ?_
      by_cases hji : j = i
      · rwa [hji]
      · exact hquiet j (List.mem_filter.mpr ⟨hj, decide_eq_true hji⟩)
  · exact h.steps j rest' own' (hother hj).2
  · exact h.written j rest' own' (hother hj).2 hwrite
  · exact h.placed j rest' own' (hother hj).2
  · rcases phase_update hj with ⟨rfl, hfinished⟩ | ⟨-, hj⟩
    · obtain rfl := Phase.finished.inj hfinished
      exact h.placed j [] own hphase
    · exact h.finished j own' hj

end Serial

/-! ## Whole runs -/

theorem serial_run {es : List (Event ι)} (h : run (step job) (State.initial s₀) es = some t) :
    Serial job s₀ (entered es) t := by
  induction es using List.reverseRecOn generalizing t with
  | nil =>
    obtain rfl := Option.some.inj h
    exact Serial.initial s₀
  | append_singleton es e ih =>
    obtain ⟨s, hrun, hstep⟩ := run_append_eq_some.mp h
    rw [run_singleton] at hstep
    have hs := ih hrun
    rw [entered, List.filterMap_append]
    cases e with
    | arrive i =>
      obtain ⟨hphase, rfl⟩ := arrive_eq_some hstep
      rw [List.filterMap_cons_none rfl, List.filterMap_nil, List.append_nil]
      exact hs.arrive hphase
    | enter i =>
      obtain ⟨hphase, hadmits, rfl⟩ := enter_eq_some hstep
      exact hs.enter hphase hadmits
    | act i =>
      obtain ⟨f, rest, own, hphase, rfl⟩ := act_eq_some hstep
      rw [List.filterMap_cons_none rfl, List.filterMap_nil, List.append_nil]
      exact hs.act hphase
    | leave i =>
      obtain ⟨own, hphase, rfl⟩ := leave_eq_some hstep
      rw [List.filterMap_cons_none rfl, List.filterMap_nil, List.append_nil]
      exact hs.leave hphase

/-- What has left before another arrives has been entered before it. -/
theorem entered_of_leave {pre post : List (Event ι)} {j : ι}
    (h : run (step job) (State.initial s₀) (pre ++ .arrive j :: post) = some t)
    (hi : .leave i ∈ pre) : i ∈ entered pre ∧ j ∉ entered pre := by
  obtain ⟨s, hrun, hrest⟩ := run_append_eq_some.mp h
  obtain ⟨s', hstep, -⟩ := run_cons_eq_some.mp hrest
  constructor
  · obtain ⟨a, b, rfl⟩ := List.append_of_mem hi
    obtain ⟨u, hu, hmore⟩ := run_append_eq_some.mp hrun
    obtain ⟨u', hleave, -⟩ := run_cons_eq_some.mp hmore
    obtain ⟨own, hphase, -⟩ := leave_eq_some hleave
    have hentered : i ∈ entered a := by
      rw [(serial_run hu).mem, hphase]
      rfl
    rw [entered, List.filterMap_append]
    exact List.mem_append_left _ hentered
  · obtain ⟨hphase, -⟩ := arrive_eq_some hstep
    rw [(serial_run hrun).mem, hphase]
    exact Bool.false_ne_true

/-- While a section is not finished, a thread can take a step. -/
theorem Serial.progress (h : Serial job s₀ order t)
    (hi : t.phase i = .waiting ∨ ∃ rest own, t.phase i = .inside rest own) :
    ∃ j, (step job t (.enter j)).isSome ∨ (step job t (.act j)).isSome ∨
      (step job t (.leave j)).isSome := by
  have hinside : ∀ {j rest own}, t.phase j = .inside rest own →
      (step job t (.act j)).isSome ∨ (step job t (.leave j)).isSome := by
    intro j rest own hj
    cases rest with
    | nil => exact .inr (by simp only [step, hj, Option.isSome_some])
    | cons f rest => exact .inl (by simp only [step, hj, Option.isSome_some])
  by_cases hholder : ∃ j, j ∈ t.holders
  · obtain ⟨j, hj⟩ := hholder
    obtain ⟨rest, own, hphase⟩ := h.held j hj
    exact ⟨j, .inr (hinside hphase)⟩
  · rcases hi with hwaiting | ⟨rest, own, hphase⟩
    · have hnone : t.holders = [] := List.eq_nil_iff_forall_not_mem.mpr fun j hj => hholder ⟨j, hj⟩
      have hadmits : admits job t.holders (job i).kind = true := by
        rw [hnone]
        cases (job i).kind <;> rfl
      exact ⟨i, .inl (by simp only [step, hwaiting, hadmits, if_true, Option.isSome_some])⟩
    · exact ⟨i, .inr (hinside hphase)⟩

end StealthWage.Locks
