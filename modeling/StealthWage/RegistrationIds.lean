import StealthWage.RegistrationResume

/-! # Ids of a resumed registration

An id that the state file holds reaches a later step only by way of the letter of its own step: a
command that leaves the letter out hands on the zero hash. -/
namespace StealthWage.Registration
open Words

/-- A state that some invocation has saved: the ids of recorded steps came from the chain. -/
structure SavedState where
  state : RegistrationState
  attested : contains state.completedSteps .r = true ∨ contains state.completedSteps .R = true →
    state.teeAttestInstructionID ≠ 0
  checked : contains state.completedSteps .a = true → state.instructionID ≠ 0

def SavedState.Attests (st : SavedState) : Prop :=
  contains st.state.completedSteps .r = true ∨ contains st.state.completedSteps .R = true

def SavedState.Checks (st : SavedState) : Prop := contains st.state.completedSteps .a = true

/-- The id of the most recent `r` or `R`, in the run or in the state before it. -/
def latestAttestation (st : SavedState) (log : List Event) : Hash :=
  ((lastAttestation log).map Subtype.val).getD st.state.teeAttestInstructionID

/-- No recorded id is lost in a run with this log. -/
structure KeepsIds (st : SavedState) (instructionID : GoString) (log : List Event) : Prop where
  attestation : st.Attests → ∀ x, Event.used .a x ∈ log → x = latestAttestation st log ∧ x ≠ 0
  check : st.Checks → instructionID = [] → ∀ x, Event.used .p x ∈ log →
    x = st.state.instructionID ∧ x ≠ 0

/-- The command repeats the letter of a recorded step whose id it needs. -/
structure Repeats (st : SavedState) (command instructionID : GoString) : Prop where
  attestation : st.Attests → contains command .a = true → ¬ st.Checks →
    contains command .r = true ∨ contains command .R = true
  check : st.Checks → instructionID = [] → contains command .p = true → contains command .a = true

/-! ## The most recent attestation -/

theorem lastAttestation_used (log : List Event) (step : Step) (x : Hash) :
    lastAttestation (log ++ [.used step x]) = lastAttestation log := by
  simp [lastAttestation, returned]

theorem lastAttestation_check (log : List Event) (id : InstructionId) :
    lastAttestation (log ++ [.returned .a id]) = lastAttestation log := by
  simp [lastAttestation, returned]

theorem lastAttestation_production (log : List Event) :
    lastAttestation (log ++ [.production]) = lastAttestation log := by
  simp [lastAttestation, returned]

theorem lastAttestation_returned (log : List Event) {step : Step} (hstep : step ≠ .a)
    (id : InstructionId) : lastAttestation (log ++ [.returned step id]) = some id := by
  simp [lastAttestation, returned, hstep]

theorem log_saveState {Proof : Type} (o : Outcomes Proof) (step : Step) (state : RegistrationState)
    (w : World) : (saveState o step state w).log = w.log := by
  unfold saveState
  split_ifs <;> rfl

/-! ## Up to the check -/

/-- Before the check: nothing has been used, and the state is up to date. -/
structure Midway (st : SavedState) (state : RegistrationState) (w : World) : Prop where
  unused : ∀ step x, Event.used step x ∉ w.log
  latest : state.teeAttestInstructionID = latestAttestation st w.log
  nonzero : st.Attests → state.teeAttestInstructionID ≠ 0
  checks : contains state.completedSteps .a = true ↔ st.Checks
  checkId : state.instructionID = st.state.instructionID

section run

variable {Proof : Type} {o : Outcomes Proof} {st : SavedState} {command instructionID : GoString}
  {state : RegistrationState} {w : World}

theorem Midway.keepsIds (h : Midway st state w) : KeepsIds st instructionID w.log :=
  ⟨fun _ x hx => absurd hx (h.unused _ x), fun _ _ x hx => absurd hx (h.unused _ x)⟩

theorem midway_start (st : SavedState) : Midway st st.state ⟨some st.state, []⟩ :=
  ⟨nofun, rfl, st.attested, Iff.rfl, rfl⟩

/-- An attestation step keeps the state up to date, and the id at hand if the command has it. -/
theorem Midway.attest (h : Midway st state w) {step : Step} (hstep : step ≠ .a)
    {request : Except GoString InstructionId} {attestation : Hash} :
    Ensures (fun w' => KeepsIds st instructionID w'.log)
      (fun x w' => Midway st x.1 w' ∧
        (contains command step = true → x.2 = x.1.teeAttestInstructionID) ∧
        (contains command step = false → x = (state, attestation)))
      (attest o step request command state attestation w) := by
  refine Ensures.attest (fun hc => ?_) (fun hc _ => ?_) h.keepsIds fun hc _ id => ?_
  · exact ⟨h, fun hc' => by simp [hc] at hc', fun _ => rfl⟩
  · exact ⟨h, fun _ => rfl, fun hc' => by simp [hc] at hc'⟩
  · refine ⟨⟨fun step' x hx => ?_, ?_, fun _ => id.property, ?_, h.checkId⟩, fun _ => rfl,
      fun hc' => by simp [hc] at hc'⟩
    · rw [log_saveState] at hx
      exact h.unused step' x ((used_record (by simp)).mp hx)
    · rw [log_saveState, latestAttestation, World.record, lastAttestation_returned _ hstep]
      rfl
    · rw [contains_attested, h.checks]
      exact or_iff_left hstep.symm

/-- After the check: the right attestation has been used, and no result has been fetched. -/
structure AfterCheck (st : SavedState) (w : World) : Prop where
  attestation : st.Attests → ∀ x, Event.used .a x ∈ w.log → x = latestAttestation st w.log ∧ x ≠ 0
  unfetched : ∀ x, Event.used .p x ∉ w.log

theorem AfterCheck.keepsIds (h : AfterCheck st w) : KeepsIds st instructionID w.log :=
  ⟨h.attestation, fun _ _ x hx => absurd hx (h.unfetched x)⟩

theorem Midway.afterCheck (h : Midway st state w) : AfterCheck st w :=
  ⟨fun _ x hx => absurd hx (h.unused _ x), fun x hx => absurd hx (h.unused _ x)⟩

theorem Midway.use (h : Midway st state w) {x : Hash}
    (hx : st.Attests → x = state.teeAttestInstructionID) :
    AfterCheck st (w.record (.used .a x)) := by
  refine ⟨fun hattests y hy => ?_, fun y hy => ?_⟩
  · rcases mem_record.mp hy with hy | hy
    · exact absurd hy (h.unused _ y)
    · obtain ⟨-, rfl⟩ := Event.used.inj hy
      rw [hx hattests, latestAttestation, World.record, lastAttestation_used, ← latestAttestation,
        ← h.latest]
      exact ⟨rfl, h.nonzero hattests⟩
  · rcases mem_record.mp hy with hy | hy
    · exact absurd hy (h.unused _ y)
    · cases hy

theorem AfterCheck.record (h : AfterCheck st w) {e : Event} (hused : ∀ step x, e ≠ .used step x)
    (hlast : lastAttestation (w.log ++ [e]) = lastAttestation w.log) : AfterCheck st (w.record e) := by
  refine ⟨fun hattests y hy => ?_, fun y hy => ?_⟩
  · rw [latestAttestation, World.record, hlast]
    exact h.attestation hattests y ((used_record hused).mp hy)
  · exact h.unfetched y ((used_record hused).mp hy)

theorem AfterCheck.saveState (h : AfterCheck st w) (step : Step) (state' : RegistrationState) :
    AfterCheck st (saveState o step state' w) :=
  ⟨by rw [log_saveState]; exact h.attestation, by rw [log_saveState]; exact h.unfetched⟩

/-- The check asks for the recorded attestation, and the id at hand is the recorded one. -/
theorem Midway.checkStep (h : Midway st state w) (hrep : Repeats st command instructionID)
    {attestation flag : Hash}
    (hat : contains command .r = true ∨ contains command .R = true →
      attestation = state.teeAttestInstructionID) :
    Ensures (fun w' => KeepsIds st instructionID w'.log)
      (fun check w' => AfterCheck st w' ∧ (st.Checks → instructionID = [] →
        contains command .p = true → check = st.state.instructionID))
      (checkStep o flag command state attestation w) := by
  have huse (hc : contains command .a = true) (hmissing : contains state.completedSteps .a = false) :
      AfterCheck st (w.record (.used .a attestation)) := by
    refine h.use fun hattests => hat (hrep.attestation hattests hc fun hchecks => ?_)
    simp [h.checks.mpr hchecks] at hmissing
  refine Ensures.checkStep (fun hc => ?_) (fun _ _ => ?_) h.keepsIds
    (fun hc hmissing => (huse hc hmissing).keepsIds) fun hc hmissing id => ?_
  · refine ⟨h.afterCheck, fun hchecks hflag hp => ?_⟩
    simp [hrep.check hchecks hflag hp] at hc
  · exact ⟨h.afterCheck, fun _ _ _ => h.checkId⟩
  · refine ⟨((huse hc hmissing).record (fun _ _ => by simp) (lastAttestation_check _ _)).saveState _ _,
      fun hchecks => ?_⟩
    simp [h.checks.mpr hchecks] at hmissing

/-- The result that is fetched is the one of the recorded check. -/
theorem AfterCheck.productionStep (h : AfterCheck st w) {check : Hash}
    (hcheck : st.Checks → instructionID = [] → contains command .p = true →
      check = st.state.instructionID) :
    Ensures (fun w' => KeepsIds st instructionID w'.log)
      (fun _ w' => KeepsIds st instructionID w'.log) (productionStep o command check w) := by
  have huse (hc : contains command .p = true) :
      KeepsIds st instructionID (w.record (.used .p check)).log := by
    refine ⟨fun hattests x hx => ?_, fun hchecks hflag x hx => ?_⟩
    · rcases mem_record.mp hx with hx | hx
      · rw [latestAttestation, World.record, lastAttestation_used]
        exact h.attestation hattests x hx
      · cases hx
    · rcases mem_record.mp hx with hx | hx
      · exact absurd hx (h.unfetched x)
      · obtain ⟨-, rfl⟩ := Event.used.inj hx
        rw [hcheck hchecks hflag hc]
        exact ⟨rfl, st.checked hchecks⟩
  refine Ensures.productionStep (fun _ => h.keepsIds) huse fun hc => ?_
  obtain ⟨hattestation, hfetched⟩ := huse hc
  refine ⟨fun hattests x hx => ?_, fun hchecks hflag x hx => ?_⟩
  · rw [latestAttestation, World.record, lastAttestation_production]
    exact hattestation hattests x ((used_record (by simp)).mp hx)
  · exact hfetched hchecks hflag x ((used_record (by simp)).mp hx)

/-- A command that repeats what it needs loses no id, however its steps turn out. -/
theorem keepsIds_of_repeats (hrep : Repeats st command instructionID) (o : Outcomes Proof)
    (lib : HexLibrary) :
    KeepsIds st instructionID
      (registerNode o lib command instructionID ⟨some st.state, []⟩).2.log := by
  have hall : Ensures (fun w' => KeepsIds st instructionID w'.log)
      (fun _ w' => KeepsIds st instructionID w'.log)
      (registerNode o lib command instructionID ⟨some st.state, []⟩) := by
    unfold registerNode
    cases o.teeProxyId with
    | error e => exact (midway_start st).keepsIds
    | ok =>
      cases hload : loadState o ⟨some st.state, []⟩ with
      | error e => exact (midway_start st).keepsIds
      | ok state =>
        have hstate : state = st.state := by
          unfold loadState at hload
          cases hread : o.readFile <;> rw [hread] at hload
          · cases hload
          · exact (Except.ok.inj hload).symm
        subst hstate
        refine ((midway_start st).attest (by decide)).andThen ?_
        rintro ⟨state₁, attestation₁⟩ w₁ ⟨h₁, hr, -⟩
        refine (h₁.attest (by decide)).andThen ?_
        rintro ⟨state₂, attestation₂⟩ w₂ ⟨h₂, hR, hskip⟩
        refine (h₂.checkStep hrep fun hat => ?_).andThen ?_
        · cases hc : contains command .R with
          | true => exact hR hc
          | false =>
            obtain ⟨rfl, rfl⟩ := Prod.mk.inj (hskip hc)
            exact hr (hat.resolve_right (by simp [hc]))
        · rintro check w₃ ⟨h₃, hcheck⟩
          refine (h₃.productionStep hcheck).andThen ?_
          rintro ⟨⟩ w₄ h₄
          split_ifs <;> exact h₄
  revert hall
  generalize registerNode o lib command instructionID ⟨some st.state, []⟩ = x
  obtain ⟨_ | _, w'⟩ := x <;> exact id

/-! ## Commands that lose an id -/

/-- Everything succeeds up to the result of the check. -/
def unproven (Proof : Type) (id : InstructionId) : Outcomes Proof where
  teeProxyId := .ok ()
  readFile := .ok ()
  alreadyRegistered := false
  freshAttestation := .ok id
  preRegistration := .ok id
  requestTeeAttestation := .ok id
  checkFTDCProxyPolicyConsistency := .ok ()
  requestFTDCAvailabilityCheck := fun _ => .ok id
  getFTDCAvailabilityCheckResult := fun _ => .error []
  toProduction := fun _ => .ok ()
  writesFile := fun _ => true
  removesFile := true

theorem attest_ok (o : Outcomes Proof) (step : Step) (id : InstructionId) (command : GoString)
    (state : RegistrationState) (attestation : Hash) (w : World) :
    ∃ x w', attest o step (.ok id) command state attestation w = (.ok x, w') := by
  unfold attest
  split_ifs
  · exact ⟨_, _, rfl⟩
  · exact ⟨_, _, rfl⟩
  · exact ⟨_, _, rfl⟩

theorem attest_skip (o : Outcomes Proof) {step : Step} (request : Except GoString InstructionId)
    (hc : contains command step = false) (attestation : Hash) :
    attest o step request command state attestation w = (.ok (state, attestation), w) := by
  unfold attest
  rw [hc]
  rfl

/-- What has been used stays in the log to the end. -/
theorem mem_rest {e : Event} (he : e ∈ w.log) (o : Outcomes Proof) (check : Hash) :
    e ∈ (andThen (productionStep o command check w) fun _ w =>
      (.ok (), if o.removesFile then { w with file := none } else w)).2.log := by
  have hkept : Ensures (fun w' => e ∈ w'.log) (fun _ w' => e ∈ w'.log)
      (andThen (productionStep o command check w) fun _ w =>
        (.ok (), if o.removesFile then { w with file := none } else w)) := by
    refine (Ensures.productionStep (P := fun _ w' => e ∈ w'.log) (fun _ => he) (fun _ => mem_record.mpr (.inl he))
      fun _ => mem_record.mpr (.inl (mem_record.mpr (.inl he)))).andThen ?_
    rintro ⟨⟩ w' hw'
    split_ifs <;> exact hw'
  revert hkept
  generalize (andThen (productionStep o command check w) fun _ w =>
    ((.ok (), if o.removesFile then { w with file := none } else w) :
      Except GoString Unit × World)) = x
  obtain ⟨_ | _, w'⟩ := x <;> exact id

/-- Without `r` and `R` the check is asked for with the zero hash. -/
theorem used_zero_a (hr : contains command .r = false) (hR : contains command .R = false)
    (ha : contains command .a = true) (hmissing : ¬ st.Checks) (id : InstructionId)
    (lib : HexLibrary) :
    Event.used .a 0 ∈
      (registerNode (unproven Proof id) lib command instructionID ⟨some st.state, []⟩).2.log := by
  have hstate : contains st.state.completedSteps .a = false := by
    rw [Bool.eq_false_iff]
    exact hmissing
  have hcheck : checkStep (unproven Proof id) (lib.hexToHash instructionID) command st.state 0
      ⟨some st.state, []⟩ = (.ok id.val, saveState (unproven Proof id) .a (st.state.checked id)
        ((World.record ⟨some st.state, []⟩ (.used .a 0)).record (.returned .a id))) := by
    rw [checkStep, ha, hstate]
    rfl
  change _ ∈ (registerSteps (unproven Proof id) (lib.hexToHash instructionID) command st.state
    ⟨some st.state, []⟩).2.log
  rw [registerSteps, registerStep, attest_skip _ _ hr]
  simp only [andThen]
  rw [attestStep, attest_skip _ _ hR]
  simp only
  rw [hcheck]
  refine mem_rest ?_ _ _
  rw [log_saveState]
  exact mem_record.mpr (.inl (mem_record.mpr (.inr rfl)))

/-- Without `a` and without an id on the command line the result is fetched for the zero hash. -/
theorem used_zero_p (ha : contains command .a = false) (hp : contains command .p = true)
    (id : InstructionId) (lib : HexLibrary) :
    Event.used .p 0 ∈
      (registerNode (unproven Proof id) lib command [] ⟨some st.state, []⟩).2.log := by
  obtain ⟨⟨state₁, attestation₁⟩, w₁, h₁⟩ := attest_ok (unproven Proof id) .r id command st.state 0
    ⟨some st.state, []⟩
  obtain ⟨⟨state₂, attestation₂⟩, w₂, h₂⟩ := attest_ok (unproven Proof id) .R id command state₁
    attestation₁ w₁
  have hcheck : checkStep (unproven Proof id) 0 command state₂ attestation₂ w₂ = (.ok 0, w₂) := by
    rw [checkStep, ha]
    rfl
  have hproduction : productionStep (unproven Proof id) command 0 w₂ =
      (.error [], w₂.record (.used .p 0)) := by
    rw [productionStep, hp]
    rfl
  change _ ∈ (registerSteps (unproven Proof id) (lib.hexToHash []) command st.state
    ⟨some st.state, []⟩).2.log
  rw [lib.empty, registerSteps]
  rw [show registerStep (unproven Proof id) command st.state 0 ⟨some st.state, []⟩ = _ from h₁]
  simp only [andThen]
  rw [show attestStep (unproven Proof id) command state₁ attestation₁ w₁ = _ from h₂]
  simp only
  rw [hcheck]
  simp only
  rw [hproduction]
  exact mem_record.mpr (.inr rfl)

/-- A resumed run keeps the recorded ids, whatever its steps come to, just when the command repeats
the letters of the recorded steps whose ids it needs. -/
theorem recorded_ids (Proof : Type) (lib : HexLibrary) (st : SavedState)
    (command instructionID : GoString) :
    (∀ o : Outcomes Proof, KeepsIds st instructionID
      (registerNode o lib command instructionID ⟨some st.state, []⟩).2.log) ↔
    Repeats st command instructionID := by
  refine ⟨fun h => ⟨fun hattests ha hmissing => ?_, fun hchecks hflag hp => ?_⟩,
    fun hrep o => keepsIds_of_repeats hrep o lib⟩
  · by_contra hneither
    rw [not_or, Bool.not_eq_true, Bool.not_eq_true] at hneither
    have hkept := h (unproven Proof ⟨1, by decide⟩)
    exact (hkept.attestation hattests 0 (used_zero_a hneither.1 hneither.2 ha hmissing _ lib)).2 rfl
  · by_contra ha
    rw [Bool.not_eq_true] at ha
    subst hflag
    have hkept := h (unproven Proof ⟨1, by decide⟩)
    exact (hkept.check hchecks rfl 0 (used_zero_p ha hp _ lib)).2 rfl

end run

/-- `ap`, after `r` has been recorded with an id. -/
theorem lost_id_counterexample :
    let st : SavedState := ⟨⟨[114], 1, 0⟩, fun _ => by decide, by decide⟩
    let lib : HexLibrary := ⟨fun _ => 0, rfl⟩
    ¬ KeepsIds st []
      (registerNode (unproven Unit ⟨2, by decide⟩) lib [97, 112] [] ⟨some st.state, []⟩).2.log := by
  intro st lib h
  have hused : Event.used .a 0 ∈ (registerNode (unproven Unit ⟨2, by decide⟩) lib [97, 112] []
      ⟨some st.state, []⟩).2.log := by
    decide +kernel
  exact (h.attestation (.inl (by decide)) 0 hused).2 rfl

end StealthWage.Registration
