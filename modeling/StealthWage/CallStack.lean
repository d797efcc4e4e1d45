import StealthWage.Runs

/-! # A contract that makes external calls

`Contract` describes code that may stop in the middle of a call to ask for an external
call, and goes on when that call answers. `step` is the machine around it: between two
answers the outside may enter the contract again, at any depth, open and close frames of
its own, and undo any frame it opened, and a call that reverts restores the world it was
entered in. Events are data, so a strategy of the outside is a list of events.

`Guarded` is the proof obligation for a contract whose external calls stand behind a
reentrancy lock; `covers_run` turns it into an invariant of every run. -/
namespace StealthWage.CallStack
open Runs

variable {S M C K R E : Type*}

/-- How a piece of the contract's code ends: it returns, or it asks for an external call. -/
inductive Progress (S C K : Type*)
  | done (state : S)
  | call (state : S) (request : C) (cont : K)

/-- Entry points and the code after each external call; `R` is what a revert reports. -/
structure Contract (S M C K R : Type*) where
  enter : M → S → Except R (Progress S C K)
  resume : K → Bool → S → Except R (Progress S C K)

/-- What lies outside: the effect of an answered call, and the moves made by others. -/
structure Outside (C E : Type*) where
  answer : C → Bool → E → Option E
  drift : E → E → Bool

/-- Everything a revert rolls back. `issued` and `returned` record the external calls made
and the calls that returned, in order. -/
structure World (S M C E : Type*) where
  state : S
  outside : E
  issued : List C
  returned : List M

def World.finish (w : World S M C E) (m : M) (s : S) : World S M C E :=
  { w with state := s, returned := w.returned ++ [m] }

def World.request (w : World S M C E) (c : C) (s : S) : World S M C E :=
  { w with state := s, issued := w.issued ++ [c] }

def World.move (w : World S M C E) (e : E) : World S M C E := { w with outside := e }

@[simp] theorem World.finish_state (w : World S M C E) (m : M) (s : S) :
    (w.finish m s).state = s := rfl
@[simp] theorem World.finish_outside (w : World S M C E) (m : M) (s : S) :
    (w.finish m s).outside = w.outside := rfl
@[simp] theorem World.finish_issued (w : World S M C E) (m : M) (s : S) :
    (w.finish m s).issued = w.issued := rfl
@[simp] theorem World.finish_returned (w : World S M C E) (m : M) (s : S) :
    (w.finish m s).returned = w.returned ++ [m] := rfl
@[simp] theorem World.request_state (w : World S M C E) (c : C) (s : S) :
    (w.request c s).state = s := rfl
@[simp] theorem World.request_outside (w : World S M C E) (c : C) (s : S) :
    (w.request c s).outside = w.outside := rfl
@[simp] theorem World.request_issued (w : World S M C E) (c : C) (s : S) :
    (w.request c s).issued = w.issued ++ [c] := rfl
@[simp] theorem World.request_returned (w : World S M C E) (c : C) (s : S) :
    (w.request c s).returned = w.returned := rfl
@[simp] theorem World.move_state (w : World S M C E) (e : E) : (w.move e).state = w.state := rfl
@[simp] theorem World.move_outside (w : World S M C E) (e : E) : (w.move e).outside = e := rfl
@[simp] theorem World.move_issued (w : World S M C E) (e : E) : (w.move e).issued = w.issued := rfl
@[simp] theorem World.move_returned (w : World S M C E) (e : E) :
    (w.move e).returned = w.returned := rfl

/-- A call of the contract that waits for an external call to answer. -/
structure Pending (S M C K E : Type*) where
  saved : World S M C E
  msg : M
  request : C
  cont : K

/-- A frame of the call stack: suspended contract code, or code of the outside. -/
inductive Frame (S M C K E : Type*)
  | pending (p : Pending S M C K E)
  | foreign (saved : World S M C E)

structure Config (S M C K E : Type*) where
  world : World S M C E
  stack : List (Frame S M C K E)

inductive Event (M E : Type*)
  | call (m : M)
  | answer (ok : Bool)
  | fail
  | drift (e : E)
  | openFrame
  | closeFrame
  | undoFrame

/-- Where a call entered in `saved` stands, once its code has run up to `r`. -/
def proceed (saved w : World S M C E) (m : M) (rest : List (Frame S M C K E)) :
    Progress S C K → Config S M C K E
  | .done s => ⟨w.finish m s, rest⟩
  | .call s c k => ⟨w.request c s, .pending ⟨saved, m, c, k⟩ :: rest⟩

/-- A call that reverts leaves no trace, and an external call that reverts takes the
contract call that made it down with it. -/
def step (con : Contract S M C K R) (out : Outside C E) (c : Config S M C K E) :
    Event M E → Option (Config S M C K E)
  | .call m =>
    match con.enter m c.world.state with
    | .error _ => some c
    | .ok r => some (proceed c.world c.world m c.stack r)
  | .answer ok =>
    match c.stack with
    | .pending p :: rest =>
      (out.answer p.request ok c.world.outside).map fun e =>
        match con.resume p.cont ok c.world.state with
        | .error _ => ⟨p.saved, rest⟩
        | .ok r => proceed p.saved (c.world.move e) p.msg rest r
    | _ => none
  | .fail =>
    match c.stack with
    | .pending p :: rest => some ⟨p.saved, rest⟩
    | _ => none
  | .drift e => if out.drift c.world.outside e then some ⟨c.world.move e, c.stack⟩ else none
  | .openFrame => some ⟨c.world, .foreign c.world :: c.stack⟩
  | .closeFrame =>
    match c.stack with
    | .foreign _ :: rest => some ⟨c.world, rest⟩
    | _ => none
  | .undoFrame =>
    match c.stack with
    | .foreign saved :: rest => some ⟨saved, rest⟩
    | _ => none

/-- What a step can do, with what has to be so for it. -/
inductive Transition (con : Contract S M C K R) (out : Outside C E) :
    Config S M C K E → Event M E → Config S M C K E → Prop
  | reverted {w : World S M C E} {stack : List (Frame S M C K E)} {m : M} {error : R}
      (ran : con.enter m w.state = .error error) :
      Transition con out ⟨w, stack⟩ (.call m) ⟨w, stack⟩
  | entered {w : World S M C E} {stack : List (Frame S M C K E)} {m : M} {r : Progress S C K}
      (ran : con.enter m w.state = .ok r) :
      Transition con out ⟨w, stack⟩ (.call m) (proceed w w m stack r)
  | failed {w : World S M C E} {p : Pending S M C K E} {rest : List (Frame S M C K E)} {ok : Bool}
      {error : R} (ran : con.resume p.cont ok w.state = .error error) :
      Transition con out ⟨w, .pending p :: rest⟩ (.answer ok) ⟨p.saved, rest⟩
  | resumed {w : World S M C E} {p : Pending S M C K E} {rest : List (Frame S M C K E)} {ok : Bool}
      {e : E} {r : Progress S C K} (answered : out.answer p.request ok w.outside = some e)
      (ran : con.resume p.cont ok w.state = .ok r) :
      Transition con out ⟨w, .pending p :: rest⟩ (.answer ok)
        (proceed p.saved (w.move e) p.msg rest r)
  | undone {w : World S M C E} {p : Pending S M C K E} {rest : List (Frame S M C K E)} :
      Transition con out ⟨w, .pending p :: rest⟩ .fail ⟨p.saved, rest⟩
  | drifted {w : World S M C E} {stack : List (Frame S M C K E)} {e : E}
      (allowed : out.drift w.outside e = true) :
      Transition con out ⟨w, stack⟩ (.drift e) ⟨w.move e, stack⟩
  | opened {w : World S M C E} {stack : List (Frame S M C K E)} :
      Transition con out ⟨w, stack⟩ .openFrame ⟨w, .foreign w :: stack⟩
  | closed {w saved : World S M C E} {rest : List (Frame S M C K E)} :
      Transition con out ⟨w, .foreign saved :: rest⟩ .closeFrame ⟨w, rest⟩
  | rewound {w saved : World S M C E} {rest : List (Frame S M C K E)} :
      Transition con out ⟨w, .foreign saved :: rest⟩ .undoFrame ⟨saved, rest⟩

/-- The rules below take a step apart only here. -/
theorem step_transition {con : Contract S M C K R} {out : Outside C E} {c c' : Config S M C K E}
    {ev : Event M E} (hs : step con out c ev = some c') : Transition con out c ev c' := by
  obtain ⟨w, stack⟩ := c
  cases ev with
  | call m =>
    simp only [step] at hs
    cases hr : con.enter m w.state with
    | error e =>
      simp only [hr, Option.some.injEq] at hs
      exact hs ▸ .reverted hr
    | ok r =>
      simp only [hr, Option.some.injEq] at hs
      exact hs ▸ .entered hr
  | answer ok =>
    rcases stack with _ | ⟨f, rest⟩
    · simp [step] at hs
    cases f with
    | foreign saved => simp [step] at hs
    | pending p =>
      simp only [step, Option.map_eq_some_iff] at hs
      obtain ⟨e, he, hs⟩ := hs
      cases hr : con.resume p.cont ok w.state with
      | error err =>
        simp only [hr] at hs
        exact hs ▸ .failed hr
      | ok r =>
        simp only [hr] at hs
        exact hs ▸ .resumed he hr
  | fail =>
    rcases stack with _ | ⟨f, rest⟩
    · simp [step] at hs
    cases f with
    | foreign saved => simp [step] at hs
    | pending p => exact Option.some.inj hs ▸ .undone
  | drift e =>
    simp only [step, Option.ite_none_right_eq_some, Option.some.injEq] at hs
    obtain ⟨hd, rfl⟩ := hs
    exact .drifted hd
  | openFrame => exact Option.some.inj hs ▸ .opened
  | closeFrame =>
    rcases stack with _ | ⟨f, rest⟩
    · simp [step] at hs
    cases f with
    | pending p => simp [step] at hs
    | foreign saved => exact Option.some.inj hs ▸ .closed
  | undoFrame =>
    rcases stack with _ | ⟨f, rest⟩
    · simp [step] at hs
    cases f with
    | pending p => simp [step] at hs
    | foreign saved => exact Option.some.inj hs ▸ .rewound

/-- The suspended call nearest to the top of the stack. -/
def pendingOf : List (Frame S M C K E) → Option (Pending S M C K E)
  | [] => none
  | .pending p :: _ => some p
  | .foreign _ :: rest => pendingOf rest

/-- `I` holds of the current world and of every world that a revert could bring back, each
with the call that is suspended there; at most one call is suspended. -/
def Covers (I : Option (Pending S M C K E) → World S M C E → Prop) :
    World S M C E → List (Frame S M C K E) → Prop
  | w, [] => I none w
  | w, .pending p :: rest => I (some p) w ∧ pendingOf rest = none ∧ Covers I p.saved rest
  | w, .foreign saved :: rest => I (pendingOf rest) w ∧ Covers I saved rest

/-- What a contract has to preserve for `Covers I` to be an invariant. `admits` restricts
the calls that are considered, by the world they are made in. -/
structure Guarded (con : Contract S M C K R) (out : Outside C E)
    (admits : World S M C E → M → Prop)
    (I : Option (Pending S M C K E) → World S M C E → Prop) : Prop where
  enter_done : ∀ p w m s, I p w → admits w m → con.enter m w.state = .ok (.done s) →
    I p (w.finish m s)
  enter_call : ∀ p w m s c k, I p w → admits w m → con.enter m w.state = .ok (.call s c k) →
    p = none ∧ I (some ⟨w, m, c, k⟩) (w.request c s)
  resume_done : ∀ p w ok e s, I (some p) w → I none p.saved →
    out.answer p.request ok w.outside = some e → con.resume p.cont ok w.state = .ok (.done s) →
    I none ((w.move e).finish p.msg s)
  resume_call : ∀ p w ok e s c k, I (some p) w → I none p.saved →
    out.answer p.request ok w.outside = some e →
    con.resume p.cont ok w.state = .ok (.call s c k) →
    I (some ⟨p.saved, p.msg, c, k⟩) ((w.move e).request c s)
  drift : ∀ p w e, I p w → out.drift w.outside e = true → I p (w.move e)

section rules

variable {I : Option (Pending S M C K E) → World S M C E → Prop}
  {w w' : World S M C E} {stack rest : List (Frame S M C K E)}

theorem Covers.head (h : Covers I w stack) : I (pendingOf stack) w := by
  cases stack with
  | nil => exact h
  | cons f rest =>
    cases f with
    | pending p => exact h.1
    | foreign saved => exact h.1

theorem Covers.replace (h : Covers I w stack) (hw : I (pendingOf stack) w') :
    Covers I w' stack := by
  cases stack with
  | nil => exact hw
  | cons f rest =>
    cases f with
    | pending p => exact ⟨hw, h.2⟩
    | foreign saved => exact ⟨hw, h.2⟩

/-- Weakening, also when the invariant itself grows with what happens outside. -/
theorem Covers.imp {J : Option (Pending S M C K E) → World S M C E → Prop}
    (hIJ : ∀ p w, I p w → J p w) (h : Covers I w stack) : Covers J w stack := by
  induction stack generalizing w with
  | nil => exact hIJ _ _ h
  | cons f rest ih =>
    cases f with
    | pending p => exact ⟨hIJ _ _ h.1, h.2.1, ih h.2.2⟩
    | foreign saved => exact ⟨hIJ _ _ h.1, ih h.2⟩

theorem Covers.and {J : Option (Pending S M C K E) → World S M C E → Prop}
    (h : Covers I w stack) (h' : Covers J w stack) :
    Covers (fun p w => I p w ∧ J p w) w stack := by
  induction stack generalizing w with
  | nil => exact ⟨h, h'⟩
  | cons f rest ih =>
    cases f with
    | pending p => exact ⟨⟨h.1, h'.1⟩, h.2.1, ih h.2.2 h'.2.2⟩
    | foreign saved => exact ⟨⟨h.1, h'.1⟩, ih h.2 h'.2⟩

theorem covers_call {con : Contract S M C K R} {out : Outside C E}
    {admits : World S M C E → M → Prop} (g : Guarded con out admits I) {m : M}
    {r : Progress S C K} (h : Covers I w stack) (hm : admits w m)
    (hr : con.enter m w.state = .ok r) :
    Covers I (proceed w w m stack r).world (proceed w w m stack r).stack := by
  cases r with
  | done s => exact h.replace (g.enter_done _ _ _ _ h.head hm hr)
  | call s c k =>
    obtain ⟨hp, hI⟩ := g.enter_call _ _ _ _ _ _ h.head hm hr
    exact ⟨hI, hp, h⟩

theorem covers_answer {con : Contract S M C K R} {out : Outside C E}
    {admits : World S M C E → M → Prop} (g : Guarded con out admits I)
    {p : Pending S M C K E} {ok : Bool} {e : E} {r : Progress S C K}
    (h : Covers I w (.pending p :: rest))
    (he : out.answer p.request ok w.outside = some e)
    (hr : con.resume p.cont ok w.state = .ok r) :
    Covers I (proceed p.saved (w.move e) p.msg rest r).world
      (proceed p.saved (w.move e) p.msg rest r).stack := by
  obtain ⟨hw, hnone, hrest⟩ := h
  have hsaved : I none p.saved := hnone ▸ hrest.head
  cases r with
  | done s =>
    refine hrest.replace ?_
    rw [hnone]
    exact g.resume_done p w ok e s hw hsaved he hr
  | call s c k => exact ⟨g.resume_call p w ok e s c k hw hsaved he hr, hnone, hrest⟩

/-- One event keeps the invariant, whatever the outside does with it. -/
theorem covers_step {con : Contract S M C K R} {out : Outside C E}
    {admits : World S M C E → M → Prop} (g : Guarded con out admits I)
    {c c' : Config S M C K E} {ev : Event M E} (h : Covers I c.world c.stack)
    (hm : ∀ m, ev = .call m → admits c.world m) (hs : step con out c ev = some c') :
    Covers I c'.world c'.stack := by
  cases step_transition hs with
  | reverted => exact h
  | entered ran => exact covers_call g h (hm _ rfl) ran
  | failed => exact h.2.2
  | resumed answered ran => exact covers_answer g h answered ran
  | undone => exact h.2.2
  | drifted allowed => exact h.replace (g.drift _ _ _ h.head allowed)
  | opened => exact ⟨h.head, h⟩
  | closed => exact h.2.replace h.1
  | rewound => exact h.2

/-- The reentrancy rule: what `Guarded` asks of single pieces of code holds of every run,
whatever the calls are that the outside nests in each other. -/
theorem covers_run {con : Contract S M C K R} {out : Outside C E}
    (g : Guarded con out (fun _ _ => True) I) {c c' : Config S M C K E} {events : List (Event M E)}
    (h : Covers I c.world c.stack) (hrun : run (step con out) c events = some c') :
    Covers I c'.world c'.stack :=
  invariant_run (P := fun c => Covers I c.world c.stack)
    (fun _ _ _ hc hs => covers_step g hc (fun _ _ => trivial) hs) h hrun

/-- The same for the runs whose calls are all admitted. -/
theorem covers_along {con : Contract S M C K R} {out : Outside C E}
    {admits : World S M C E → M → Prop} (g : Guarded con out admits I)
    {c c' : Config S M C K E} {events : List (Event M E)} (h : Covers I c.world c.stack)
    (hm : Along (step con out) (fun c ev => ∀ m, ev = .call m → admits c.world m) c events)
    (hrun : run (step con out) c events = some c') : Covers I c'.world c'.stack :=
  invariant_along (P := fun c => Covers I c.world c.stack)
    (fun _ _ _ hc hq hs => covers_step g hc hq hs) h hm hrun

end rules

/-! ## The order of the worlds on the stack -/

section nesting

def Frame.saved : Frame S M C K E → World S M C E
  | .pending p => p.saved
  | .foreign saved => saved

/-- `R` relates each world that a revert could bring back to the one above it. -/
def Nested (R : World S M C E → World S M C E → Prop) :
    World S M C E → List (Frame S M C K E) → Prop
  | _, [] => True
  | w, f :: rest => R f.saved w ∧ Nested R f.saved rest

/-- The world that a piece of code leaves when it returns or makes a call. -/
def World.after (w : World S M C E) (m : M) : Progress S C K → World S M C E
  | .done s => w.finish m s
  | .call s c _ => w.request c s

/-- In worlds where `I` holds, the code only moves forward along `R`. -/
structure Advances (con : Contract S M C K R) (out : Outside C E)
    (I : Option (Pending S M C K E) → World S M C E → Prop)
    (R : World S M C E → World S M C E → Prop) : Prop where
  refl : ∀ w, R w w
  trans : ∀ u v w, R u v → R v w → R u w
  enter : ∀ p w m r, I p w → con.enter m w.state = .ok r → R w (w.after m r)
  resume : ∀ p w ok e r, I (some p) w → con.resume p.cont ok w.state = .ok r →
    R w ((w.move e).after p.msg r)
  drift : ∀ w e, R w (w.move e)

variable {I : Option (Pending S M C K E) → World S M C E → Prop}
  {R' : World S M C E → World S M C E → Prop} {w w' : World S M C E}
  {stack : List (Frame S M C K E)}

theorem Nested.forward (htrans : ∀ u v w, R' u v → R' v w → R' u w) (h : Nested R' w stack)
    (hw : R' w w') : Nested R' w' stack := by
  cases stack with
  | nil => trivial
  | cons f rest => exact ⟨htrans _ _ _ h.1 hw, h.2⟩

/-- Below a world with nothing suspended, what holds of all earlier worlds covers the stack. -/
theorem Nested.covers (htrans : ∀ u v w, R' u v → R' v w → R' u w) (h : Nested R' w stack)
    (hp : pendingOf stack = none) (hw : I none w) (hI : ∀ u, R' u w → I none u) :
    Covers I w stack := by
  induction stack generalizing w with
  | nil => exact hw
  | cons f rest ih =>
    cases f with
    | pending p => simp [pendingOf] at hp
    | foreign saved =>
      have hrest : pendingOf rest = none := hp
      refine ⟨hrest ▸ hw, ih h.2 hrest (hI _ h.1) ?_⟩
      exact fun u hu => hI u (htrans _ _ _ hu h.1)

theorem nested_step {con : Contract S M C K R} {out : Outside C E} (a : Advances con out I R')
    {c c' : Config S M C K E} {ev : Event M E} (hc : Covers I c.world c.stack)
    (h : Nested R' c.world c.stack) (hs : step con out c ev = some c') :
    Nested R' c'.world c'.stack := by
  cases step_transition hs with
  | reverted => exact h
  | @entered w stack m r ran =>
    have hw := a.enter _ w m r hc.head ran
    cases r with
    | done s => exact h.forward a.trans hw
    | call s c k => exact ⟨hw, h⟩
  | failed => exact h.2
  | @resumed w p rest ok e r answered ran =>
    have hw := a.trans _ _ _ h.1 (a.resume p w ok e r hc.1 ran)
    cases r with
    | done s => exact h.2.forward a.trans hw
    | call s c k => exact ⟨hw, h.2⟩
  | undone => exact h.2
  | drifted => exact h.forward a.trans (a.drift _ _)
  | opened => exact ⟨a.refl _, h⟩
  | closed => exact h.2.forward a.trans h.1
  | rewound => exact h.2

/-- In every run of a guarded contract, the worlds on the stack stand in their order. -/
theorem nested_run {con : Contract S M C K R} {out : Outside C E}
    (g : Guarded con out (fun _ _ => True) I) (a : Advances con out I R')
    {c c' : Config S M C K E} {events : List (Event M E)} (hc : Covers I c.world c.stack)
    (h : Nested R' c.world c.stack) (hrun : run (step con out) c events = some c') :
    Nested R' c'.world c'.stack :=
  (invariant_run (P := fun c => Covers I c.world c.stack ∧ Nested R' c.world c.stack)
    (fun _ _ _ hP hs => ⟨covers_step g hP.1 (fun _ _ => trivial) hs, nested_step a hP.1 hP.2 hs⟩)
    ⟨hc, h⟩ hrun).2

theorem Nested.of_mem (htrans : ∀ u v w, R' u v → R' v w → R' u w)
    (h : Nested R' w stack) {f : Frame S M C K E} (hf : f ∈ stack) : R' f.saved w := by
  induction stack generalizing w with
  | nil => simp at hf
  | cons g rest ih =>
    rcases List.mem_cons.mp hf with rfl | hf
    · exact h.1
    · exact htrans _ _ _ (ih h.2 hf) h.1

theorem proceed_world (saved w : World S M C E) (m : M) (rest : List (Frame S M C K E))
    (r : Progress S C K) : (proceed saved w m rest r).world = w.after m r := by
  cases r <;> rfl

/-- Where the world after a step comes from. -/
inductive StepWorld (con : Contract S M C K R) (c : Config S M C K E) :
    Event M E → World S M C E → Prop
  | entered {m : M} {r : Progress S C K} (ran : con.enter m c.world.state = .ok r) :
      StepWorld con c (.call m) (c.world.after m r)
  | resumed {p : Pending S M C K E} {rest : List (Frame S M C K E)} {ok : Bool} {e : E}
      {r : Progress S C K} (top : c.stack = .pending p :: rest)
      (ran : con.resume p.cont ok c.world.state = .ok r) :
      StepWorld con c (.answer ok) ((c.world.move e).after p.msg r)
  | moved {ev : Event M E} (e : E) : StepWorld con c ev (c.world.move e)
  | restored {ev : Event M E} {f : Frame S M C K E} (frame : f ∈ c.stack) :
      StepWorld con c ev f.saved

theorem step_world {con : Contract S M C K R} {out : Outside C E} {c c' : Config S M C K E}
    {ev : Event M E} (hs : step con out c ev = some c') : StepWorld con c ev c'.world := by
  cases step_transition hs with
  | @reverted w => exact .moved w.outside
  | @entered w stack m r ran =>
    rw [proceed_world]
    exact .entered (c := ⟨w, stack⟩) ran
  | @failed w p => exact .restored (f := .pending p) List.mem_cons_self
  | @resumed w p rest ok e r answered ran =>
    rw [proceed_world]
    exact .resumed (c := ⟨w, .pending p :: rest⟩) rfl ran
  | @undone w p => exact .restored (f := .pending p) List.mem_cons_self
  | @drifted w stack e => exact .moved e
  | @opened w => exact .moved w.outside
  | @closed w => exact .moved w.outside
  | @rewound w saved => exact .restored (f := .foreign saved) List.mem_cons_self

/-! ### Since a world that is still on record -/

/-- `R` relates `w₀` to the current world and to every world that has been saved above the
frames `base`, which are still on the stack. -/
structure Since (R : World S M C E → World S M C E → Prop) (w₀ : World S M C E)
    (base : List (Frame S M C K E)) (c : Config S M C K E) : Prop where
  world : R w₀ c.world
  frames : ∃ extra, c.stack = extra ++ base ∧ ∀ f ∈ extra, R w₀ f.saved

theorem exists_tail_of_suffix {α : Type*} {extra base rest : List α} {f : α}
    (h : extra ++ base = f :: rest) (hbase : base <:+ rest) :
    ∃ extra', extra = f :: extra' ∧ rest = extra' ++ base := by
  cases extra with
  | nil =>
    have hlen := hbase.length_le
    simp only [List.nil_append] at h
    simp [h] at hlen
  | cons g extra =>
    obtain ⟨rfl, rfl⟩ := List.cons.inj h
    exact ⟨extra, rfl, rfl⟩

/-- The top frame is gone: `base` does not contain it. -/
theorem Since.pop {w₀ w : World S M C E} {base rest : List (Frame S M C K E)}
    {f : Frame S M C K E} (h : Since R' w₀ base ⟨w, f :: rest⟩) (hbase : base <:+ rest)
    {u : World S M C E} (hu : R' w₀ f.saved → R' w₀ u) : Since R' w₀ base ⟨u, rest⟩ := by
  obtain ⟨-, extra, hstack, hextra⟩ := h
  obtain ⟨extra, rfl, rfl⟩ := exists_tail_of_suffix hstack.symm hbase
  obtain ⟨hf, hrest⟩ := List.forall_mem_cons.mp hextra
  exact ⟨hu hf, extra, rfl, hrest⟩

/-- A step goes forward from the current world, or back to one that was saved on top. -/
theorem since_step {con : Contract S M C K R} {out : Outside C E} (a : Advances con out I R')
    {w₀ : World S M C E} {base : List (Frame S M C K E)} {c c' : Config S M C K E} {ev : Event M E}
    (hc : Covers I c.world c.stack) (h : Since R' w₀ base c) (hs : step con out c ev = some c')
    (hbase : base <:+ c'.stack) : Since R' w₀ base c' := by
  have hw := h.world
  cases step_transition hs with
  | reverted => exact h
  | @entered w stack m r ran =>
    have hforward := a.trans _ _ _ hw (a.enter _ w m r hc.head ran)
    obtain ⟨extra, rfl, hextra⟩ := h.frames
    cases r with
    | done s => exact ⟨hforward, extra, rfl, hextra⟩
    | call s q k =>
      exact ⟨hforward, .pending ⟨w, m, q, k⟩ :: extra, rfl,
        List.forall_mem_cons.mpr ⟨hw, hextra⟩⟩
  | failed => exact h.pop hbase id
  | @resumed w p rest ok e r answered ran =>
    have hforward := a.trans _ _ _ hw (a.resume p w ok e r hc.1 ran)
    cases r with
    | done s => exact h.pop hbase fun _ => hforward
    | call s q k =>
      obtain ⟨extra, hstack, hextra⟩ := h.frames
      refine ⟨hforward, ?_⟩
      cases extra with
      | nil =>
        -- the suspended call is one of `base`; it must have asked for the same call again
        obtain rfl : _ = base := hstack
        exact ⟨[], (hbase.eq_of_length rfl).symm, List.forall_mem_nil _⟩
      | cons g extra =>
        obtain ⟨rfl, rfl⟩ := List.cons.inj hstack
        exact ⟨.pending ⟨p.saved, p.msg, q, k⟩ :: extra, rfl, List.forall_mem_cons.mpr
          (List.forall_mem_cons.mp hextra)⟩
  | undone => exact h.pop hbase id
  | drifted => exact ⟨a.trans _ _ _ hw (a.drift _ _), h.frames⟩
  | @opened w =>
    obtain ⟨extra, rfl, hextra⟩ := h.frames
    exact ⟨hw, .foreign w :: extra, rfl, List.forall_mem_cons.mpr ⟨hw, hextra⟩⟩
  | closed => exact h.pop hbase fun _ => hw
  | rewound => exact h.pop hbase id

/-- The frames on the stack of `c` stay there for the whole run: no call that was under way
in `c` returns or is undone. -/
def Stays (con : Contract S M C K R) (out : Outside C E) (c : Config S M C K E)
    (events : List (Event M E)) : Prop :=
  ∀ es fs d, events = es ++ fs → run (step con out) c es = some d → c.stack <:+ d.stack

theorem stays_of_nil {con : Contract S M C K R} {out : Outside C E} {c : Config S M C K E}
    (h : c.stack = []) (events : List (Event M E)) : Stays con out c events := by
  intro es fs d _ _
  rw [h]
  exact List.nil_suffix

/-- Until the calls under way in `c` return, a run only goes forward from `c`. -/
theorem since_run {con : Contract S M C K R} {out : Outside C E}
    (g : Guarded con out (fun _ _ => True) I) (a : Advances con out I R')
    {c c' : Config S M C K E} {events : List (Event M E)} (hc : Covers I c.world c.stack)
    (hstays : Stays con out c events) (hrun : run (step con out) c events = some c') :
    Since R' c.world c.stack c' := by
  induction events using List.reverseRecOn generalizing c' with
  | nil =>
    obtain rfl := Option.some.inj hrun
    exact ⟨a.refl _, [], rfl, List.forall_mem_nil _⟩
  | append_singleton es ev ih =>
    obtain ⟨d, hd, hlast⟩ := run_append_eq_some.mp hrun
    rw [run_singleton] at hlast
    have hbefore : Stays con out c es := by
      rintro es' fs d' rfl hd'
      exact hstays es' (fs ++ [ev]) d' (List.append_assoc ..) hd'
    exact since_step a (covers_run g hc hd) (ih hbefore hd) hlast
      (hstays _ [] c' (List.append_nil _).symm hrun)

end nesting

/-! ## Whole calls -/

/-- The call that an event makes return, with the world it was entered in. -/
def returns (con : Contract S M C K R) (c : Config S M C K E) :
    Event M E → Option (World S M C E × M)
  | .call m =>
    match con.enter m c.world.state with
    | .ok (.done _) => some (c.world, m)
    | _ => none
  | .answer ok =>
    match c.stack with
    | .pending p :: _ =>
      match con.resume p.cont ok c.world.state with
      | .ok (.done _) => some (p.saved, p.msg)
      | _ => none
    | _ => none
  | _ => none

/-- The record of returned calls names the call that has just returned. -/
theorem mem_returned {con : Contract S M C K R} {out : Outside C E} {c c' : Config S M C K E}
    {ev : Event M E} {w₀ : World S M C E} {m : M} (hs : step con out c ev = some c')
    (hret : returns con c ev = some (w₀, m)) : m ∈ c'.world.returned := by
  obtain ⟨w, stack⟩ := c
  cases ev with
  | call m' =>
    simp only [returns] at hret
    split at hret
    next s hr =>
      obtain ⟨rfl, rfl⟩ := Prod.mk.inj (Option.some.inj hret)
      simp only [step, hr, Option.some.injEq] at hs
      subst hs
      simp [proceed]
    next => simp at hret
  | answer ok =>
    rcases stack with _ | ⟨f, rest⟩
    · simp [returns] at hret
    cases f with
    | foreign saved => simp [returns] at hret
    | pending p =>
      simp only [returns] at hret
      split at hret
      next s hr =>
        obtain ⟨rfl, rfl⟩ := Prod.mk.inj (Option.some.inj hret)
        simp only [step, hr, Option.map_eq_some_iff] at hs
        obtain ⟨e, -, rfl⟩ := hs
        simp [proceed]
      next => simp at hret
  | fail => simp [returns] at hret
  | drift e => simp [returns] at hret
  | openFrame => simp [returns] at hret
  | closeFrame => simp [returns] at hret
  | undoFrame => simp [returns] at hret

/-- Answer `true` to at most `n` external calls, until the code has returned. -/
def settle (con : Contract S M C K R) : ℕ → World S M C E → M → Progress S C K →
    Except R (Option (World S M C E))
  | _, w, m, .done s => .ok (some (w.finish m s))
  | 0, _, _, .call _ _ _ => .ok none
  | n + 1, w, m, .call s c k =>
    match con.resume k true s with
    | .error r => .error r
    | .ok p => settle con n (w.request c s) m p

/-- A transaction whose external calls all answer `true` at once. -/
def transact (con : Contract S M C K R) (n : ℕ) (w : World S M C E) (m : M) :
    Except R (Option (World S M C E)) :=
  match con.enter m w.state with
  | .error r => .error r
  | .ok p => settle con n w m p

/-- A transaction whose calls are answered at once is a run of the machine. -/
theorem settle_run {con : Contract S M C K R} {out : Outside C E}
    (hout : ∀ c e, out.answer c true e = some e) {n : ℕ} {saved w w' : World S M C E} {m : M}
    {r : Progress S C K} {rest : List (Frame S M C K E)}
    (h : settle con n w m r = .ok (some w')) :
    ∃ events, run (step con out) (proceed saved w m rest r) events = some ⟨w', rest⟩ := by
  induction n generalizing w r with
  | zero =>
    cases r with
    | done s =>
      obtain rfl := Option.some.inj (Except.ok.inj h)
      exact ⟨[], rfl⟩
    | call s c k => simp [settle] at h
  | succ n ih =>
    cases r with
    | done s =>
      obtain rfl := Option.some.inj (Except.ok.inj h)
      exact ⟨[], rfl⟩
    | call s c k =>
      simp only [settle] at h
      cases hr : con.resume k true s with
      | error e => simp [hr] at h
      | ok r' =>
        simp only [hr] at h
        obtain ⟨events, hrun⟩ := ih h
        refine ⟨.answer true :: events, ?_⟩
        rw [run_cons_eq_some]
        refine ⟨proceed saved (w.request c s) m rest r', ?_, hrun⟩
        simp [step, proceed, hout, hr]
        rfl

theorem transact_run {con : Contract S M C K R} {out : Outside C E}
    (hout : ∀ c e, out.answer c true e = some e) {n : ℕ} {w w' : World S M C E} {m : M}
    {stack : List (Frame S M C K E)} (h : transact con n w m = .ok (some w')) :
    ∃ events, run (step con out) ⟨w, stack⟩ events = some ⟨w', stack⟩ := by
  unfold transact at h
  cases hr : con.enter m w.state with
  | error e => simp [hr] at h
  | ok r =>
    simp only [hr] at h
    obtain ⟨events, hrun⟩ := settle_run hout h
    refine ⟨.call m :: events, ?_⟩
    rw [run_cons_eq_some]
    exact ⟨proceed w w m stack r, by simp [step, hr], hrun⟩

end StealthWage.CallStack
