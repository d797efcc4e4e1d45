import StealthWage.Runs
import StealthWage.Words

/-! # Registration of a TEE node

`RegisterNode` and the state file through which it resumes. How the steps of one invocation turn
out on the chain and at the proxies is given; the world is the state file and a log of what was
asked for and what succeeded. -/
namespace StealthWage.Registration
open Runs Words

/-- A Go string is a list of bytes. -/
abbrev GoString := Bytes

abbrev Hash := Word

/-- The chain's ids are digests. -/
abbrev InstructionId := {id : Hash // id ≠ 0}

inductive Step
  | r
  | R
  | a
  | p
  deriving DecidableEq

def Step.letter : Step → Byte
  | .r => 114
  | .R => 82
  | .a => 97
  | .p => 112

/-- `strings.Contains` of one letter. -/
def contains (s : GoString) (step : Step) : Bool := step.letter ∈ s

/-! ## The state file -/

structure RegistrationState where
  completedSteps : GoString
  teeAttestInstructionID : Hash
  instructionID : Hash
  deriving DecidableEq

def RegistrationState.empty : RegistrationState := ⟨[], 0, 0⟩

/-- The state once `r` or `R` has returned an id. -/
def RegistrationState.attested (state : RegistrationState) (step : Step) (id : InstructionId) :
    RegistrationState :=
  { state with
    completedSteps := state.completedSteps ++ [step.letter], teeAttestInstructionID := id.val }

/-- The state once `a` has returned an id. -/
def RegistrationState.checked (state : RegistrationState) (id : InstructionId) : RegistrationState :=
  { state with
    completedSteps := state.completedSteps ++ [Step.a.letter], instructionID := id.val }

inductive Event
  /-- `a` asks for a check of this attestation, `p` for the result of this check. -/
  | used (step : Step) (id : Hash)
  | returned (step : Step) (id : InstructionId)
  | production
  deriving DecidableEq

structure World where
  file : Option RegistrationState
  log : List Event
  deriving DecidableEq

def World.start : World := ⟨none, []⟩

def World.record (w : World) (e : Event) : World := { w with log := w.log ++ [e] }

/-- How everything that one invocation may do turns out. The errors are texts. -/
structure Outcomes (Proof : Type) where
  teeProxyId : Except GoString Unit
  readFile : Except GoString Unit
  alreadyRegistered : Bool
  freshAttestation : Except GoString InstructionId
  preRegistration : Except GoString InstructionId
  requestTeeAttestation : Except GoString InstructionId
  checkFTDCProxyPolicyConsistency : Except GoString Unit
  requestFTDCAvailabilityCheck : Hash → Except GoString InstructionId
  getFTDCAvailabilityCheckResult : Hash → Except GoString Proof
  toProduction : Proof → Except GoString Unit
  writesFile : Step → Bool
  removesFile : Bool

section

variable {Proof : Type} (o : Outcomes Proof)

/-- A file that does not exist is an empty state. -/
def loadState (w : World) : Except GoString RegistrationState :=
  match w.file with
  | none => .ok RegistrationState.empty
  | some state => o.readFile.map fun _ => state

/-- A state that cannot be written is only warned about. -/
def saveState (step : Step) (state : RegistrationState) (w : World) : World :=
  if o.writesFile step then { w with file := some state } else w

/-! ## The steps -/

/-- `r` and `R`: the id of the attestation, and the state from then on. -/
def attest (step : Step) (request : Except GoString InstructionId) (command : GoString)
    (state : RegistrationState) (attestation : Hash) (w : World) :
    Except GoString (RegistrationState × Hash) × World :=
  if contains command step then
    if contains state.completedSteps step then (.ok (state, state.teeAttestInstructionID), w)
    else
      match request with
      | .error e => (.error e, w)
      | .ok id =>
        let state := state.attested step id
        (.ok (state, id.val), saveState o step state (w.record (.returned step id)))
  else (.ok (state, attestation), w)

/-- A machine that is on the chain already asks for a new attestation only. -/
def registerStep : GoString → RegistrationState → Hash → World →
    Except GoString (RegistrationState × Hash) × World :=
  attest o .r (if o.alreadyRegistered then o.freshAttestation else o.preRegistration)

def attestStep : GoString → RegistrationState → Hash → World →
    Except GoString (RegistrationState × Hash) × World :=
  attest o .R o.requestTeeAttestation

/-- `a`: the id of the check; without the step it is the one of the command line. -/
def checkStep (flag : Hash) (command : GoString) (state : RegistrationState) (attestation : Hash)
    (w : World) : Except GoString Hash × World :=
  if contains command .a then
    if contains state.completedSteps .a then (.ok state.instructionID, w)
    else
      match o.checkFTDCProxyPolicyConsistency with
      | .error e => (.error e, w)
      | .ok () =>
        let w := w.record (.used .a attestation)
        match o.requestFTDCAvailabilityCheck attestation with
        | .error e => (.error e, w)
        | .ok id =>
          (.ok id.val, saveState o .a (state.checked id) (w.record (.returned .a id)))
  else (.ok flag, w)

def productionStep (command : GoString) (check : Hash) (w : World) :
    Except GoString Unit × World :=
  if contains command .p then
    let w := w.record (.used .p check)
    match o.getFTDCAvailabilityCheckResult check with
    | .error e => (.error e, w)
    | .ok proof =>
      match o.toProduction proof with
      | .error e => (.error e, w)
      | .ok () => (.ok (), w.record .production)
  else (.ok (), w)

/-- An error ends the invocation with the world as it is. -/
def andThen {α β : Type} (x : Except GoString α × World)
    (f : α → World → Except GoString β × World) : Except GoString β × World :=
  match x with
  | (.error e, w) => (.error e, w)
  | (.ok a, w) => f a w

def registerSteps (flag : Hash) (command : GoString) (state : RegistrationState) (w : World) :
    Except GoString Unit × World :=
  andThen (registerStep o command state 0 w) fun (state, attestation) w =>
  andThen (attestStep o command state attestation w) fun (state, attestation) w =>
  andThen (checkStep o flag command state attestation w) fun check w =>
  andThen (productionStep o command check w) fun _ w =>
  (.ok (), if o.removesFile then { w with file := none } else w)

/-- `common.HexToHash`, as far as it is known here. -/
structure HexLibrary where
  hexToHash : GoString → Hash
  empty : hexToHash [] = 0

variable (lib : HexLibrary) (command instructionID : GoString)

def registerNode (w : World) : Except GoString Unit × World :=
  match o.teeProxyId with
  | .error e => (.error e, w)
  | .ok () =>
    match loadState o w with
    | .error e => (.error e, w)
    | .ok state => registerSteps o (lib.hexToHash instructionID) command state w

end

/-! ## Sequences of invocations -/

/-- One more invocation that fails. -/
def retry {Proof : Type} (lib : HexLibrary) (command instructionID : GoString) (w : World)
    (o : Outcomes Proof) : Option World :=
  match registerNode o lib command instructionID w with
  | (.error _, w') => some w'
  | (.ok (), _) => none

end StealthWage.Registration
