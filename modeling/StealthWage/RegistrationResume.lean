import StealthWage.Registration

/-! # Resuming a registration

Between two invocations the file holds what has succeeded, and what has succeeded is a start of
`r`, `R` and `a`, as far as the command has them. A last invocation completes the list. -/
namespace StealthWage.Registration
open Runs Words

/-! ## Outcomes -/

/-- What holds when a part of an invocation fails, and what when it succeeds. -/
def Ensures {α : Type} (E : World → Prop) (P : α → World → Prop)
    (x : Except GoString α × World) : Prop :=
  match x with
  | (.error _, w) => E w
  | (.ok a, w) => P a w

theorem Ensures.andThen {α β : Type} {E : World → Prop} {P : α → World → Prop}
    {Q : β → World → Prop} {x : Except GoString α × World}
    {f : α → World → Except GoString β × World} (hx : Ensures E P x)
    (hf : ∀ a w, P a w → Ensures E Q (f a w)) : Ensures E Q (andThen x f) := by
  obtain ⟨_ | a, w⟩ := x
  · exact hx
  · exact hf a w hx

section rules

variable {Proof : Type} {o : Outcomes Proof} {command : GoString} {state : RegistrationState}
  {w : World} {E : World → Prop}

/-- What an attestation step can do. -/
theorem Ensures.attest {P : RegistrationState × Hash → World → Prop} {step : Step}
    {request : Except GoString InstructionId} {attestation : Hash}
    (hskip : contains command step = false → P (state, attestation) w)
    (hdone : contains command step = true → contains state.completedSteps step = true →
      P (state, state.teeAttestInstructionID) w)
    (herror : E w)
    (hreturn : contains command step = true → contains state.completedSteps step = false → ∀ id,
      P (state.attested step id, id.val)
        (saveState o step (state.attested step id) (w.record (.returned step id)))) :
    Ensures E P (attest o step request command state attestation w) := by
  unfold Registration.attest
  cases hc : contains command step with
  | false => exact hskip hc
  | true =>
    cases hs : contains state.completedSteps step with
    | true => exact hdone hc hs
    | false =>
      cases request with
      | error e => exact herror
      | ok id => exact hreturn hc hs id

/-- What the availability check can do. -/
theorem Ensures.checkStep {P : Hash → World → Prop} {flag attestation : Hash}
    (hskip : contains command .a = false → P flag w)
    (hdone : contains command .a = true → contains state.completedSteps .a = true →
      P state.instructionID w)
    (herror : E w)
    (hused : contains command .a = true → contains state.completedSteps .a = false →
      E (w.record (.used .a attestation)))
    (hreturn : contains command .a = true → contains state.completedSteps .a = false → ∀ id,
      P id.val (saveState o .a (state.checked id)
        ((w.record (.used .a attestation)).record (.returned .a id)))) :
    Ensures E P (checkStep o flag command state attestation w) := by
  unfold Registration.checkStep
  cases hc : contains command .a with
  | false => exact hskip hc
  | true =>
    cases hs : contains state.completedSteps .a with
    | true => exact hdone hc hs
    | false =>
      cases o.checkFTDCProxyPolicyConsistency with
      | error e => exact herror
      | ok =>
        cases hrequest : o.requestFTDCAvailabilityCheck attestation with
        | error e => exact hused hc hs
        | ok id => exact hreturn hc hs id

/-- What the way to production can do. -/
theorem Ensures.productionStep {P : Unit → World → Prop} {check : Hash}
    (hskip : contains command .p = false → P () w)
    (hused : contains command .p = true → E (w.record (.used .p check)))
    (hreturn : contains command .p = true →
      P () ((w.record (.used .p check)).record .production)) :
    Ensures E P (productionStep o command check w) := by
  unfold Registration.productionStep
  cases hc : contains command .p with
  | false => exact hskip hc
  | true =>
    cases hresult : o.getFTDCAvailabilityCheckResult check with
    | error e => exact hused hc
    | ok proof =>
      cases hproduction : o.toProduction proof with
      | error e =>
        simp only [if_true, hproduction]
        exact hused hc
      | ok =>
        simp only [if_true, hproduction]
        exact hreturn hc

end rules

/-- The state file can be read, written and removed. -/
structure Reliable {Proof : Type} (o : Outcomes Proof) : Prop where
  reads : o.readFile = .ok ()
  writes : ∀ step, o.writesFile step = true
  removes : o.removesFile = true

/-! ## Logs -/

def returned : List Event → List (Step × InstructionId) :=
  List.filterMap fun
    | .returned step id => some (step, id)
    | _ => none

/-- The id that the last of the attestation steps has returned. -/
def lastAttestation (log : List Event) : Option InstructionId :=
  (((returned log).filter fun s => s.1 ≠ .a).map Prod.snd).getLast?

theorem letter_injective : Function.Injective Step.letter := by
  intro s t h
  cases s <;> cases t <;> first | rfl | exact absurd h (by decide)

theorem contains_attested (state : RegistrationState) (step step' : Step) (id : InstructionId) :
    contains (state.attested step id).completedSteps step' = true ↔
      contains state.completedSteps step' = true ∨ step' = step := by
  simp only [contains, RegistrationState.attested, decide_eq_true_eq, List.mem_append,
    List.mem_singleton, letter_injective.eq_iff]

/-- What is left of a log on the chain. -/
def effects : List Event → List Event :=
  List.filter fun
    | .used _ _ => false
    | _ => true

/-- The steps that return an id, in their order, as far as the command has them. -/
def requested (command : GoString) : List Step := [Step.r, .R, .a].filter (contains command)

/-! ## Progress -/

/-- The steps that have succeeded. -/
structure Progress where
  r : Option InstructionId
  R : Option InstructionId
  a : Option InstructionId

def Progress.attestation (d : Progress) : Option InstructionId := d.R.or d.r

def Progress.effects (d : Progress) : List Event :=
  d.r.toList.map (.returned .r) ++ (d.R.toList.map (.returned .R) ++ d.a.toList.map (.returned .a))

def Progress.state (d : Progress) : RegistrationState where
  completedSteps := d.r.toList.map (fun _ => Step.r.letter) ++
    (d.R.toList.map (fun _ => Step.R.letter) ++ d.a.toList.map fun _ => Step.a.letter)
  teeAttestInstructionID := (d.attestation.map Subtype.val).getD 0
  instructionID := (d.a.map Subtype.val).getD 0

/-- Every attestation step of the command has succeeded. -/
structure Progress.Attested (command : GoString) (d : Progress) : Prop where
  r : contains command .r = true → d.r.isSome
  R : contains command .R = true → d.R.isSome

/-- No step has succeeded out of turn. -/
structure Progress.Ordered (command : GoString) (d : Progress) : Prop where
  r : d.r.isSome → contains command .r = true
  R : d.R.isSome → contains command .R = true ∧ (contains command .r = true → d.r.isSome)
  a : d.a.isSome → contains command .a = true ∧ d.Attested command

/-- The invariant between two invocations. -/
structure Recorded (command : GoString) (d : Progress) (w : World) : Prop where
  ordered : d.Ordered command
  effects : effects w.log = d.effects
  file : w.file.getD RegistrationState.empty = d.state
  checks : ∀ x, Event.used .a x ∈ w.log →
    d.Attested command ∧ d.attestation.map Subtype.val = some x
  proofs : ∀ x, Event.used .p x ∈ w.log → d.a.map Subtype.val = some x
  asked : d.a.isSome → ∃ x, Event.used .a x ∈ w.log

/-- What every failed invocation leaves behind. -/
def Resumable (command : GoString) (w : World) : Prop := ∃ d, Recorded command d w

theorem recorded_start (command : GoString) : Recorded command ⟨none, none, none⟩ World.start where
  ordered := ⟨nofun, nofun, nofun⟩
  effects := rfl
  file := rfl
  checks := nofun
  proofs := nofun
  asked := nofun

theorem contains_state (d : Progress) :
    contains d.state.completedSteps .r = d.r.isSome ∧
      contains d.state.completedSteps .R = d.R.isSome ∧
      contains d.state.completedSteps .a = d.a.isSome := by
  obtain ⟨_ | r, _ | R, _ | a⟩ := d <;> exact ⟨rfl, rfl, rfl⟩

/-! ## One step more -/

section steps

variable {Proof : Type} {o : Outcomes Proof} {command : GoString} {d : Progress} {w : World}

theorem mem_record {w : World} {e e' : Event} : e' ∈ (w.record e).log ↔ e' ∈ w.log ∨ e' = e := by
  simp [World.record]

/-- Other events use no id. -/
theorem used_record {w : World} {e : Event} (he : ∀ step x, e ≠ .used step x) {step : Step}
    {x : Hash} : Event.used step x ∈ (w.record e).log ↔ Event.used step x ∈ w.log := by
  rw [mem_record]
  exact or_iff_left fun hx => he step x hx.symm

theorem effects_record (w : World) (e : Event) :
    effects (w.record e).log = effects w.log ++ effects [e] := by
  simp [World.record, effects]

theorem saveState_eq (hrel : Reliable o) (step : Step) (state : RegistrationState) (w : World) :
    saveState o step state w = { w with file := some state } := by
  rw [saveState, if_pos (hrel.writes step)]

/-- While a step of the command is missing, nothing later has happened. -/
theorem Recorded.early (h : Recorded command d w) (hmissing : ¬ d.Attested command) :
    d.a = none ∧ (∀ x, Event.used .a x ∉ w.log) ∧ ∀ x, Event.used .p x ∉ w.log := by
  have hnone : d.a = none := by
    cases ha : d.a with
    | none => rfl
    | some a => exact absurd (h.ordered.a (by rw [ha]; rfl)).2 hmissing
  refine ⟨hnone, fun x hx => hmissing (h.checks x hx).1, fun x hx => ?_⟩
  have hproof := h.proofs x hx
  rw [hnone] at hproof
  cases hproof

theorem Recorded.return_r (hrel : Reliable o) (h : Recorded command d w)
    (hc : contains command .r = true) (hnone : d.r = none) (id : InstructionId) :
    ∃ d', d.state.attested .r id = Progress.state d' ∧ d'.r.isSome ∧
      Recorded command d' (saveState o .r (d.state.attested .r id) (w.record (.returned .r id))) := by
  have hmissing : ¬ d.Attested command := fun hall => by simpa [hnone] using hall.r hc
  obtain ⟨hanone, hchecks, hproofs⟩ := h.early hmissing
  have hRnone : d.R = none := by
    cases hR : d.R with
    | none => rfl
    | some R => simpa [hnone] using (h.ordered.R (by rw [hR]; rfl)).2 hc
  obtain ⟨r, R, a⟩ := d
  obtain rfl := hnone
  obtain rfl := hRnone
  obtain rfl := hanone
  refine ⟨⟨some id, none, none⟩, rfl, rfl, ?_⟩
  rw [saveState_eq hrel]
  refine ⟨⟨fun _ => hc, nofun, nofun⟩, ?_, rfl, fun x hx => ?_, fun x hx => ?_, nofun⟩
  · rw [effects_record, h.effects]
    rfl
  · exact absurd ((used_record (by simp)).mp hx) (hchecks x)
  · exact absurd ((used_record (by simp)).mp hx) (hproofs x)

theorem Recorded.return_R (hrel : Reliable o) (h : Recorded command d w)
    (hr : contains command .r = true → d.r.isSome) (hc : contains command .R = true)
    (hnone : d.R = none) (id : InstructionId) :
    ∃ d', d.state.attested .R id = Progress.state d' ∧ d'.Attested command ∧
      Recorded command d' (saveState o .R (d.state.attested .R id) (w.record (.returned .R id))) := by
  have hmissing : ¬ d.Attested command := fun hall => by simpa [hnone] using hall.R hc
  obtain ⟨hanone, hchecks, hproofs⟩ := h.early hmissing
  obtain ⟨r, R, a⟩ := d
  obtain rfl := hnone
  obtain rfl := hanone
  have hstate : (Progress.mk r none none).state.attested .R id =
      (Progress.mk r (some id) none).state := by
    cases r <;> rfl
  refine ⟨⟨r, some id, none⟩, hstate, ⟨hr, fun _ => rfl⟩, ?_⟩
  rw [saveState_eq hrel, hstate]
  refine ⟨⟨h.ordered.r, fun _ => ⟨hc, hr⟩, nofun⟩, ?_, rfl, fun x hx => ?_, fun x hx => ?_, nofun⟩
  · rw [effects_record, h.effects]
    cases r <;> rfl
  · exact absurd ((used_record (by simp)).mp hx) (hchecks x)
  · exact absurd ((used_record (by simp)).mp hx) (hproofs x)

/-- A check has been asked for. -/
theorem Recorded.use_a (h : Recorded command d w) (hall : d.Attested command)
    (x : Hash) (hx : d.attestation.map Subtype.val = some x) :
    Recorded command d (w.record (.used .a x)) := by
  refine ⟨h.ordered, ?_, h.file, fun y hy => ?_, fun y hy => ?_, fun ha => ?_⟩
  · rw [effects_record, h.effects]
    exact List.append_nil _
  · rcases mem_record.mp hy with hy | hy
    · exact h.checks y hy
    · obtain ⟨-, rfl⟩ := Event.used.inj hy
      exact ⟨hall, hx⟩
  · rcases mem_record.mp hy with hy | hy
    · exact h.proofs y hy
    · cases hy
  · obtain ⟨y, hy⟩ := h.asked ha
    exact ⟨y, mem_record.mpr (.inl hy)⟩

theorem Recorded.return_a (hrel : Reliable o) (h : Recorded command d w)
    (hall : d.Attested command) (hc : contains command .a = true) (hnone : d.a = none)
    {x : Hash} (hused : Event.used .a x ∈ w.log) (id : InstructionId) :
    Recorded command { d with a := some id }
      (saveState o .a (d.state.checked id) (w.record (.returned .a id))) := by
  obtain ⟨r, R, a⟩ := d
  obtain rfl := hnone
  have hstate : (Progress.mk r R none).state.checked id = (Progress.mk r R (some id)).state := by
    cases r <;> cases R <;> rfl
  rw [saveState_eq hrel, hstate]
  refine ⟨⟨h.ordered.r, h.ordered.R, fun _ => ⟨hc, hall.r, hall.R⟩⟩, ?_, rfl, fun x hx => ?_, fun x hx => ?_,
    fun _ => ⟨x, mem_record.mpr (.inl hused)⟩⟩
  · rw [effects_record, h.effects]
    cases r <;> cases R <;> rfl
  · exact ⟨⟨hall.r, hall.R⟩, (h.checks x ((used_record (by simp)).mp hx)).2⟩
  · cases h.proofs x ((used_record (by simp)).mp hx)

/-- After `r`: the step has been taken if the command has it, and its id is the one recorded. -/
theorem registerStep_ensures (hrel : Reliable o) (h : Recorded command d w) :
    Ensures (Resumable command)
      (fun x w' => ∃ d', x.1 = Progress.state d' ∧ Recorded command d' w' ∧
        (contains command .r = true → d'.r.isSome ∧ x.2 = x.1.teeAttestInstructionID))
      (registerStep o command d.state 0 w) := by
  refine Ensures.attest (fun hc => ?_) (fun _ hdone => ?_) ⟨d, h⟩ fun hc hmissing id => ?_
  · exact ⟨d, rfl, h, fun hc' => by simp [hc] at hc'⟩
  · rw [(contains_state d).1] at hdone
    exact ⟨d, rfl, h, fun _ => ⟨hdone, rfl⟩⟩
  · rw [(contains_state d).1] at hmissing
    obtain ⟨d', hstate, hr, hrecorded⟩ := h.return_r hrel hc (by simpa using hmissing) id
    exact ⟨d', hstate, hrecorded, fun _ => ⟨hr, rfl⟩⟩

/-- After `R`: every attestation step has been taken, and the id at hand is the one recorded. -/
theorem attestStep_ensures (hrel : Reliable o) (h : Recorded command d w) {attestation : Hash}
    (hr : contains command .r = true →
      d.r.isSome ∧ attestation = d.state.teeAttestInstructionID) :
    Ensures (Resumable command)
      (fun x w' => ∃ d', x.1 = Progress.state d' ∧ Recorded command d' w' ∧
        d'.Attested command ∧ ((contains command .r = true ∨ contains command .R = true) →
          x.2 = x.1.teeAttestInstructionID))
      (attestStep o command d.state attestation w) := by
  refine Ensures.attest (fun hc => ?_) (fun _ hdone => ?_) ⟨d, h⟩ fun hc hmissing id => ?_
  · refine ⟨d, rfl, h, ⟨fun hc' => (hr hc').1, fun hc' => by simp [hc] at hc'⟩, ?_⟩
    rintro (hc' | hc')
    · exact (hr hc').2
    · simp [hc] at hc'
  · rw [(contains_state d).2.1] at hdone
    exact ⟨d, rfl, h, ⟨fun hc' => (hr hc').1, fun _ => hdone⟩, fun _ => rfl⟩
  · rw [(contains_state d).2.1] at hmissing
    obtain ⟨d', hstate, hall, hrecorded⟩ :=
      h.return_R hrel (fun hc' => (hr hc').1) hc (by simpa using hmissing) id
    exact ⟨d', hstate, hrecorded, hall, fun _ => rfl⟩

theorem Progress.Attested.some (hall : d.Attested command)
    (hsome : contains command .r = true ∨ contains command .R = true) :
    ∃ x, d.attestation = some x := by
  rw [← Option.isSome_iff_exists, attestation, Option.isSome_or, Bool.or_eq_true]
  exact hsome.symm.imp hall.R hall.r

/-- After `a`: the id at hand is the one that the check has returned. -/
theorem checkStep_ensures (hrel : Reliable o) (h : Recorded command d w)
    (hall : d.Attested command) (hc : contains command .a = true) {x : InstructionId}
    (hx : d.attestation = some x) {attestation flag : Hash}
    (hat : attestation = d.state.teeAttestInstructionID) :
    Ensures (Resumable command)
      (fun check w' => ∃ d' c, Recorded command d' w' ∧ d'.Attested command ∧
        d'.attestation = some x ∧ d'.a = some c ∧ check = c.val)
      (checkStep o flag command d.state attestation w) := by
  have hid : attestation = x.val := by rw [hat, Progress.state, hx, Option.map_some, Option.getD_some]
  subst hid
  have huse := h.use_a hall x.val (by rw [hx]; rfl)
  refine Ensures.checkStep (fun hc' => ?_) (fun _ hdone => ?_) ⟨d, h⟩ (fun _ _ => ⟨d, huse⟩)
    fun _ hmissing id => ?_
  · simp [hc] at hc'
  · rw [(contains_state d).2.2] at hdone
    obtain ⟨c, hsome⟩ := Option.isSome_iff_exists.mp hdone
    refine ⟨d, c, h, hall, hx, hsome, ?_⟩
    rw [Progress.state, hsome, Option.map_some, Option.getD_some]
  · rw [(contains_state d).2.2] at hmissing
    exact ⟨_, id, huse.return_a hrel hall hc (by simpa using hmissing)
      (mem_record.mpr (.inr rfl)) id, ⟨hall.r, hall.R⟩, hx, rfl, rfl⟩

/-- The steps of a whole registration, with their ids. -/
structure Finished (command : GoString) (d : Progress) (x c : InstructionId) (w : World) :
    Prop where
  ordered : d.Ordered command
  attested : d.Attested command
  attestation : d.attestation = some x
  check : d.a = some c
  effects : effects w.log = d.effects ++ [.production]
  asked : ∃ y, Event.used .a y ∈ w.log
  checks : ∀ y, Event.used .a y ∈ w.log → y = x.val
  fetched : Event.used .p c.val ∈ w.log
  proofs : ∀ y, Event.used .p y ∈ w.log → y = c.val

theorem productionStep_ensures (h : Recorded command d w) (hall : d.Attested command)
    (hc : contains command .p = true) {x c : InstructionId} (hx : d.attestation = some x)
    (ha : d.a = some c) :
    Ensures (Resumable command) (fun _ w' => Finished command d x c w')
      (productionStep o command c.val w) := by
  have huse : Recorded command d (w.record (.used .p c.val)) := by
    refine ⟨h.ordered, ?_, h.file, fun y hy => ?_, fun y hy => ?_, fun hsome => ?_⟩
    · rw [effects_record, h.effects]
      exact List.append_nil _
    · rcases mem_record.mp hy with hy | hy
      · exact h.checks y hy
      · cases hy
    · rcases mem_record.mp hy with hy | hy
      · exact h.proofs y hy
      · obtain ⟨-, rfl⟩ := Event.used.inj hy
        rw [ha]
        rfl
    · obtain ⟨y, hy⟩ := h.asked hsome
      exact ⟨y, mem_record.mpr (.inl hy)⟩
  refine Ensures.productionStep (fun hc' => ?_) (fun _ => ⟨d, huse⟩) fun _ => ?_
  · simp [hc] at hc'
  · obtain ⟨y, hy⟩ := huse.asked (by rw [ha]; rfl)
    refine ⟨h.ordered, hall, hx, ha, ?_, ⟨y, mem_record.mpr (.inl hy)⟩, fun z hz => ?_,
      mem_record.mpr (.inl (mem_record.mpr (.inr rfl))), fun z hz => ?_⟩
    · rw [effects_record, huse.effects]
      rfl
    · have hid := (huse.checks z ((used_record (by simp)).mp hz)).2
      rw [hx] at hid
      exact (Option.some.inj hid).symm
    · have hid := huse.proofs z ((used_record (by simp)).mp hz)
      rw [ha] at hid
      exact (Option.some.inj hid).symm

/-- A command that asks for an attestation, the check of it and production. -/
structure Complete (command : GoString) : Prop where
  attests : contains command .r = true ∨ contains command .R = true
  checks : contains command .a = true
  produces : contains command .p = true

/-- One invocation, from what the ones before it have left behind. -/
theorem registerNode_ensures (hrel : Reliable o) (hcommand : Complete command)
    (h : Resumable command w) (lib : HexLibrary) (instructionID : GoString) :
    Ensures (Resumable command) (fun _ w' => (∃ d x c, Finished command d x c w') ∧ w'.file = none)
      (registerNode o lib command instructionID w) := by
  obtain ⟨d, h⟩ := h
  have hload : loadState o w = .ok d.state := by
    rw [← h.file, loadState]
    cases w.file with
    | none => rfl
    | some state =>
      simp only [hrel.reads]
      rfl
  unfold registerNode
  cases o.teeProxyId with
  | error e => exact ⟨d, h⟩
  | ok =>
    simp only [hload]
    refine (registerStep_ensures hrel h).andThen ?_
    rintro ⟨_, attestation⟩ w₁ ⟨d₁, rfl, h₁, hr⟩
    refine (attestStep_ensures hrel h₁ hr).andThen ?_
    rintro ⟨_, attestation⟩ w₂ ⟨d₂, rfl, h₂, hall, hat⟩
    obtain ⟨x, hx⟩ := hall.some hcommand.attests
    refine (checkStep_ensures hrel h₂ hall hcommand.checks hx (hat hcommand.attests)).andThen ?_
    rintro _ w₃ ⟨d₃, c, h₃, hall₃, hx₃, ha, rfl⟩
    refine (productionStep_ensures h₃ hall₃ hcommand.produces hx₃ ha).andThen ?_
    rintro ⟨⟩ w₄ hfinished
    rw [hrel.removes]
    exact ⟨⟨d₃, x, c, ⟨hfinished.ordered, hfinished.attested, hfinished.attestation,
      hfinished.check, hfinished.effects, hfinished.asked, hfinished.checks, hfinished.fetched,
      hfinished.proofs⟩⟩, rfl⟩

end steps

/-! ## Whole registrations -/

theorem returned_effects (log : List Event) : returned (effects log) = returned log := by
  induction log with
  | nil => rfl
  | cons e log ih => cases e <;> simp_all [returned, effects]

theorem count_production (log : List Event) :
    (effects log).count .production = log.count .production := by
  induction log with
  | nil => rfl
  | cons e log ih => cases e <;> simp_all [effects]

/-- What a sequence of invocations comes to when the last of them succeeds. -/
structure Uninterrupted (command : GoString) (w : World) : Prop where
  steps : (returned w.log).map Prod.fst = requested command
  check : ∃ x, lastAttestation w.log = some x ∧ Event.used .a x.val ∈ w.log ∧
    ∀ y, Event.used .a y ∈ w.log → y = x.val
  proof : ∃ c, (Step.a, c) ∈ returned w.log ∧ Event.used .p c.val ∈ w.log ∧
    ∀ y, Event.used .p y ∈ w.log → y = c.val
  production : w.log.count .production = 1
  file : w.file = none

section finished

variable {command : GoString} {d : Progress} {x c : InstructionId} {w : World}

theorem Finished.isSome (h : Finished command d x c w) :
    contains command .r = d.r.isSome ∧ contains command .R = d.R.isSome ∧
      contains command .a = true := by
  refine ⟨Bool.eq_iff_iff.mpr ⟨h.attested.r, h.ordered.r⟩,
    Bool.eq_iff_iff.mpr ⟨h.attested.R, fun hR => (h.ordered.R hR).1⟩, (h.ordered.a ?_).1⟩
  rw [h.check]
  rfl

theorem Finished.returned (h : Finished command d x c w) :
    returned w.log = d.r.toList.map (Prod.mk .r) ++ (d.R.toList.map (Prod.mk .R) ++ [(.a, c)]) := by
  rw [← returned_effects, h.effects, Progress.effects, h.check]
  rcases d.r with _ | r <;> rcases d.R with _ | R <;> rfl

theorem Finished.uninterrupted (h : Finished command d x c w) (hfile : w.file = none) :
    Uninterrupted command w := by
  obtain ⟨hr, hR, ha⟩ := h.isSome
  have hreturned := h.returned
  refine ⟨?_, ⟨x, ?_, ?_, h.checks⟩, ⟨c, ?_, h.fetched, h.proofs⟩, ?_, hfile⟩
  · rw [hreturned, requested]
    cases hdr : d.r <;> cases hdR : d.R <;> simp [hr, hR, ha, hdr, hdR]
  · have hx := h.attestation
    rw [lastAttestation, hreturned, ← hx, Progress.attestation]
    rcases d.r with _ | r <;> rcases d.R with _ | R <;> rfl
  · obtain ⟨y, hy⟩ := h.asked
    exact h.checks y hy ▸ hy
  · rw [hreturned]
    simp
  · rw [← count_production, h.effects, Progress.effects]
    rcases d.r with _ | r <;> rcases d.R with _ | R <;> rcases d.a with _ | a <;> rfl

end finished

/-- Nothing fails, and the steps return these ids. -/
def smooth (r R a : InstructionId) : Outcomes Unit where
  teeProxyId := .ok ()
  readFile := .ok ()
  alreadyRegistered := false
  freshAttestation := .ok r
  preRegistration := .ok r
  requestTeeAttestation := .ok R
  checkFTDCProxyPolicyConsistency := .ok ()
  requestFTDCAvailabilityCheck := fun _ => .ok a
  getFTDCAvailabilityCheckResult := fun _ => .ok ()
  toProduction := fun _ => .ok ()
  writesFile := fun _ => true
  removesFile := true

theorem smooth_reliable (r R a : InstructionId) : Reliable (smooth r R a) :=
  ⟨rfl, fun _ => rfl, rfl⟩

/-- One uninterrupted run takes the steps of the command. -/
theorem registerNode_smooth {command : GoString} (hcommand : Complete command) (lib : HexLibrary)
    (instructionID : GoString) (r R a : InstructionId) :
    ∃ log, registerNode (smooth r R a) lib command instructionID World.start = (.ok (), ⟨none, log⟩) ∧
      effects log = Progress.effects ⟨if contains command .r then some r else none,
        if contains command .R then some R else none, some a⟩ ++ [.production] := by
  have hempty : ∀ step, contains RegistrationState.empty.completedSteps step = false := by
    intro step
    cases step <;> rfl
  have hattested : ∀ (state : RegistrationState) step id,
      contains (state.attested step id).completedSteps .a =
        (contains state.completedSteps .a || decide (Step.a = step)) ∧
      contains (state.attested step id).completedSteps .R =
        (contains state.completedSteps .R || decide (Step.R = step)) := by
    intro state step id
    constructor <;> rw [Bool.eq_iff_iff, contains_attested] <;> simp
  cases hr : contains command .r <;> cases hR : contains command .R <;>
    simp [registerNode, smooth, loadState, World.start, registerSteps, registerStep, attestStep,
      attest, checkStep, productionStep, andThen, saveState, World.record, hr, hR, hempty, hattested,
      hcommand.checks, hcommand.produces, effects, Progress.effects]

theorem single_run {command : GoString} {d : Progress} {x c : InstructionId} {w : World}
    (h : Finished command d x c w) (hcommand : Complete command) (lib : HexLibrary)
    (instructionID : GoString) :
    ∃ o : Outcomes Unit, ∃ log, Reliable o ∧
      registerNode o lib command instructionID World.start = (.ok (), ⟨none, log⟩) ∧
      effects log = effects w.log := by
  obtain ⟨hr, hR, -⟩ := h.isSome
  obtain ⟨log, hrun, hlog⟩ := registerNode_smooth hcommand lib instructionID (d.r.getD x)
    (d.R.getD x) c
  refine ⟨_, log, smooth_reliable _ _ _, hrun, ?_⟩
  have hsame : (⟨if contains command .r then some (d.r.getD x) else none,
      if contains command .R then some (d.R.getD x) else none, some c⟩ : Progress) = d := by
    have hc := h.check
    obtain ⟨_ | r, _ | R, a⟩ := d <;> simp_all
  rw [hlog, hsame, h.effects]

/-- However often a registration fails, once it succeeds its steps have each succeeded once, with
the ids handed on, as in one run without a failure. -/
theorem registration_resumes {Proof : Type} (lib : HexLibrary) (command instructionID : GoString)
    (hcommand : Complete command) (failed : List (Outcomes Proof)) (last : Outcomes Proof)
    (hrel : ∀ o ∈ last :: failed, Reliable o) {w w' : World}
    (hfailed : run (retry lib command instructionID) World.start failed = some w)
    (hlast : registerNode last lib command instructionID w = (.ok (), w')) :
    Uninterrupted command w' ∧ ∃ o : Outcomes Unit, ∃ log, Reliable o ∧
      registerNode o lib command instructionID World.start = (.ok (), ⟨w'.file, log⟩) ∧
      effects log = effects w'.log := by
  have hresumable : Resumable command w := by
    refine invariant_along (Q := fun _ o => Reliable o) (fun w o w' h hrel hstep => ?_)
      ⟨_, recorded_start command⟩
      (along_of_mem (fun o ho _ => hrel o (List.mem_cons_of_mem last ho)) _) hfailed
    have hnext := registerNode_ensures hrel hcommand h lib instructionID
    unfold retry at hstep
    split at hstep
    next e w'' hfails =>
      obtain rfl := Option.some.inj hstep
      rw [hfails] at hnext
      exact hnext
    next => cases hstep
  have hnext := registerNode_ensures (hrel last List.mem_cons_self) hcommand hresumable lib
    instructionID
  rw [hlast] at hnext
  obtain ⟨⟨d, x, c, hfinished⟩, hfile⟩ := hnext
  refine ⟨hfinished.uninterrupted hfile, ?_⟩
  rw [hfile]
  exact single_run hfinished hcommand lib instructionID

/-- `rRap`. The second attestation fails once, then the check once, each after a step that has
returned an id. -/
theorem registration_resumes_twice :
    let lib : HexLibrary := ⟨fun _ => 0, rfl⟩
    let id (n : Hash) (h : n ≠ 0) : InstructionId := ⟨n, h⟩
    let steps := smooth (id 1 (by decide)) (id 2 (by decide)) (id 3 (by decide))
    let failed := [{ steps with requestTeeAttestation := .error [] },
      { steps with requestFTDCAvailabilityCheck := fun _ => .error [] }]
    ∃ w w', run (retry lib [114, 82, 97, 112] []) World.start failed = some w ∧
      registerNode steps lib [114, 82, 97, 112] [] w = (.ok (), w') ∧
      Uninterrupted [114, 82, 97, 112] w' := by
  intro lib id steps failed
  have hfailed : (run (retry lib [114, 82, 97, 112] []) World.start failed).isSome := by
    decide +kernel
  obtain ⟨w, hw⟩ := Option.isSome_iff_exists.mp hfailed
  have hlast : ((run (retry lib [114, 82, 97, 112] []) World.start failed).map fun w =>
      (registerNode steps lib [114, 82, 97, 112] [] w).1) = some (.ok ()) := by
    decide +kernel
  rw [hw] at hlast
  have hok : registerNode steps lib [114, 82, 97, 112] [] w = (.ok (), _) :=
    Prod.ext (Option.some.inj hlast) rfl
  refine ⟨w, _, hw, hok, (registration_resumes lib [114, 82, 97, 112] [] ⟨.inl (by decide), by decide,
    by decide⟩ failed steps ?_ hw hok).1⟩
  intro o ho
  rcases List.mem_cons.mp ho with rfl | ho
  · exact ⟨rfl, fun _ => rfl, rfl⟩
  · rcases List.mem_pair.mp ho with rfl | rfl <;> exact ⟨rfl, fun _ => rfl, rfl⟩

end StealthWage.Registration
