import StealthWage.VaultSpec

/-! # The instruction sender

The contract that passes greetings and farewells on to the extension. Its two registries are
other contracts: what they answer comes with each call, and nothing is asked of it unless a
theorem says so. No code of the sender runs after `sendInstructions`, so a call that a registry
makes back is a call after this one, and one that is undone with it is none. -/
namespace StealthWage.Instructions
open Vault (Address Bytes32 Uint64 Uint256 Revert asciiBytes require require_bind)
open Words

/-- `bytes32("…")` -/
def literal (s : String) : Bytes32 :=
  Fin.ofNat _ (value (asciiBytes s ++ List.replicate (32 - (asciiBytes s).length) 0))

def opTypeGreeting : Bytes32 := literal "GREETING"
def opCommandSayHello : Bytes32 := literal "SAY_HELLO"
def opCommandSayGoodbye : Bytes32 := literal "SAY_GOODBYE"

def firstPublicExtensionId : ℕ := 0x10000

structure TeeInstructionParams where
  opType : Bytes32
  opCommand : Bytes32
  message : Bytes
  cosigners : List Address
  cosignersThreshold : Uint64
  claimBackAddress : Address

/-- A call of `sendInstructions` with its value. -/
structure Sent where
  teeIds : List Address
  params : TeeInstructionParams
  value : Uint256

/-- What the registries answer while a call runs. Their reverts go through to the caller. -/
structure Registries where
  nextPublicExtensionId : Except Revert Uint256
  instructionsSender : Uint256 → Except Revert Address
  randomTeeIds : Uint256 → Uint256 → Except Revert (List Address)
  sendInstructions : Sent → Except Revert Unit

/-! ## Dynamic ABI values -/

/-- `string calldata`; the decoder of the call admits no longer ones. -/
structure CalldataString where
  bytes : Bytes
  short : bytes.length < 2 ^ 64

def lengthWord (n : ℕ) : Word := Fin.ofNat _ n

/-- The length, and the bytes filled up to whole words. -/
def encodeString (b : Bytes) : Bytes :=
  bigEndian 32 (lengthWord b.length).val ++ (b ++ List.replicate ((32 - b.length % 32) % 32) 0)

/-- `abi.encode` of a struct of two strings: the offset of the struct, the offsets of its strings
within it, and the strings. -/
def encodeStrings (a b : Bytes) : Bytes :=
  abiEncode [32, 64, lengthWord (64 + (encodeString a).length)] ++ (encodeString a ++ encodeString b)

structure InstructionSender where
  extensionId : Uint256
  sent : List Sent

def InstructionSender.constructor : InstructionSender := ⟨0, []⟩

inductive Entry
  | setExtensionId
  | sendSayHello (message : Bytes)
  | sendSayGoodbye (name reason : CalldataString)

structure Msg where
  sender : Address
  value : Uint256
  entry : Entry
  registries : Registries

/-- The loop from `i` on, for the number of ids that are left. -/
def findExtension (this : Address) (R : Registries) (i : ℕ) : ℕ → Except Revert Uint256
  | 0 => .error (.message "Extension ID not found.")
  | n + 1 => do
    let sender ← R.instructionsSender (lengthWord i)
    if sender = this then return lengthWord i else findExtension this R (i + 1) n

variable (this : Address)

def setExtensionId (R : Registries) (s : InstructionSender) : Except Revert InstructionSender := do
  require (s.extensionId = 0) "Extension ID already set."
  let c ← R.nextPublicExtensionId
  let id ← findExtension this R firstPublicExtensionId (c.val - firstPublicExtensionId)
  return { s with extensionId := id }

def getExtensionId (s : InstructionSender) : Except Revert Uint256 := do
  require (s.extensionId ≠ 0) "Extension ID is not set."
  return s.extensionId

def sendInstruction (m : Msg) (opCommand : Bytes32) (message : Bytes) (s : InstructionSender) :
    Except Revert InstructionSender := do
  let extensionId ← getExtensionId s
  let teeIds ← m.registries.randomTeeIds extensionId 1
  let sent : Sent := ⟨teeIds, ⟨opTypeGreeting, opCommand, message, [], 0, m.sender⟩, m.value⟩
  m.registries.sendInstructions sent
  return { s with sent := s.sent ++ [sent] }

def sendSayHello (m : Msg) (message : Bytes) (s : InstructionSender) :
    Except Revert InstructionSender :=
  sendInstruction m opCommandSayHello message s

def sendSayGoodbye (m : Msg) (name reason : CalldataString) (s : InstructionSender) :
    Except Revert InstructionSender :=
  sendInstruction m opCommandSayGoodbye (encodeStrings name.bytes reason.bytes) s

def enter (m : Msg) (s : InstructionSender) : Except Revert InstructionSender :=
  match m.entry with
  | .setExtensionId => setExtensionId this m.registries s
  | .sendSayHello message => sendSayHello m message s
  | .sendSayGoodbye name reason => sendSayGoodbye m name reason s

/-- A call that reverts changes nothing. -/
def step (s : InstructionSender) (m : Msg) : InstructionSender :=
  match enter this m s with
  | .ok s' => s'
  | .error _ => s

def run (ms : List Msg) : InstructionSender := ms.foldl (step this) .constructor

/-! ## The two strings -/

theorem lengthWord_val {n : ℕ} (h : n < 2 ^ 256) : (lengthWord n).val = n := Nat.mod_eq_of_lt h

variable {this : Address}

/-- The loop returns the first id that names the contract. -/
theorem findExtension_eq_ok {R : Registries} {i n : ℕ} {id : Uint256} :
    findExtension this R i n = .ok id ↔ ∃ k < n, id = lengthWord (i + k) ∧
      R.instructionsSender (lengthWord (i + k)) = .ok this ∧
      ∀ j < k, ∃ a, R.instructionsSender (lengthWord (i + j)) = .ok a ∧ a ≠ this := by
  induction n generalizing i with
  | zero => simp [findExtension]
  | succ n ih =>
    rw [findExtension]
    cases hask : R.instructionsSender (lengthWord i) with
    | error e =>
      constructor
      · intro h
        cases h
      · rintro ⟨k, -, -, hk, hbefore⟩
        cases k with
        | zero =>
          rw [Nat.add_zero, hask] at hk
          cases hk
        | succ k =>
          obtain ⟨a, ha, -⟩ := hbefore 0 (Nat.succ_pos k)
          rw [Nat.add_zero, hask] at ha
          cases ha
    | ok sender =>
      change (if sender = this then Except.ok (lengthWord i) else findExtension this R (i + 1) n) =
        .ok id ↔ _
      split_ifs with hsender
      · subst hsender
        constructor
        · intro h
          obtain rfl := Except.ok.inj h
          exact ⟨0, Nat.succ_pos n, rfl, hask, fun j hj => absurd hj (Nat.not_lt_zero j)⟩
        · rintro ⟨k, -, rfl, -, hbefore⟩
          cases k with
          | zero => rfl
          | succ k =>
            obtain ⟨a, ha, hne⟩ := hbefore 0 (Nat.succ_pos k)
            rw [Nat.add_zero, hask] at ha
            exact absurd (Except.ok.inj ha).symm hne
      · rw [ih]
        constructor
        · rintro ⟨k, hk, hid, hfound, hbefore⟩
          refine ⟨k + 1, Nat.succ_lt_succ hk, by rw [hid]; congr 1; omega, ?_, fun j hj => ?_⟩
          · rwa [show i + (k + 1) = i + 1 + k by omega]
          · cases j with
            | zero => exact ⟨sender, hask, hsender⟩
            | succ j =>
              rw [show i + (j + 1) = i + 1 + j by omega]
              exact hbefore j (by omega)
        · rintro ⟨k, hk, hid, hfound, hbefore⟩
          cases k with
          | zero =>
            rw [Nat.add_zero, hask] at hfound
            exact absurd (Except.ok.inj hfound) hsender
          | succ k =>
            refine ⟨k, Nat.lt_of_succ_lt_succ hk, by rw [hid]; congr 1; omega, ?_, fun j hj => ?_⟩
            · rwa [show i + 1 + k = i + (k + 1) by omega]
            · rw [show i + 1 + j = i + (j + 1) by omega]
              exact hbefore (j + 1) (by omega)

/-- The command and the message of a call that sends an instruction. -/
def Entry.payload : Entry → Option (Bytes32 × Bytes)
  | .setExtensionId => none
  | .sendSayHello message => some (opCommandSayHello, message)
  | .sendSayGoodbye name reason =>
    some (opCommandSayGoodbye, encodeStrings name.bytes reason.bytes)

/-- The instruction of a call, for the extension. -/
structure Carries (extensionId : Uint256) (m : Msg) (x : Sent) : Prop where
  payload : m.entry.payload = some (x.params.opCommand, x.params.message)
  opType : x.params.opType = opTypeGreeting
  unsigned : x.params.cosigners = [] ∧ x.params.cosignersThreshold = 0
  claimBack : x.params.claimBackAddress = m.sender
  value : x.value = m.value
  machines : m.registries.randomTeeIds extensionId 1 = .ok x.teeIds
  accepted : m.registries.sendInstructions x = .ok ()

theorem bind_eq_ok {α β : Type} {x : Except Revert α} {f : α → Except Revert β} {b : β} :
    (x >>= f) = .ok b ↔ ∃ a, x = .ok a ∧ f a = .ok b := by
  cases x <;> simp [bind, Except.bind]

theorem setExtensionId_eq_ok {R : Registries} {s s' : InstructionSender} :
    setExtensionId this R s = .ok s' ↔ s.extensionId = 0 ∧ ∃ c k,
      R.nextPublicExtensionId = .ok c ∧ firstPublicExtensionId + k < c.val ∧
      s' = { s with extensionId := lengthWord (firstPublicExtensionId + k) } ∧
      R.instructionsSender (lengthWord (firstPublicExtensionId + k)) = .ok this ∧
      ∀ j < k, ∃ a, R.instructionsSender (lengthWord (firstPublicExtensionId + j)) = .ok a ∧
        a ≠ this := by
  rw [setExtensionId, require_bind]
  simp only [bind_eq_ok, findExtension_eq_ok, pure, Except.pure, Except.ok.injEq]
  refine and_congr_right fun _ => ?_
  constructor
  · rintro ⟨c, hc, id, ⟨k, hk, rfl, hfound, hbefore⟩, rfl⟩
    exact ⟨c, k, hc, by omega, rfl, hfound, hbefore⟩
  · rintro ⟨c, k, hc, hk, rfl, hfound, hbefore⟩
    exact ⟨c, hc, _, ⟨k, by omega, rfl, hfound, hbefore⟩, rfl⟩

theorem sendInstruction_eq_ok {m : Msg} {opCommand : Bytes32} {message : Bytes}
    {s s' : InstructionSender} (hp : m.entry.payload = some (opCommand, message)) :
    sendInstruction m opCommand message s = .ok s' ↔ s.extensionId ≠ 0 ∧
      ∃ x, Carries s.extensionId m x ∧ s' = { s with sent := s.sent ++ [x] } := by
  rw [sendInstruction, getExtensionId, bind_assoc, require_bind, pure_bind]
  simp only [bind_eq_ok, pure, Except.pure, Except.ok.injEq]
  refine and_congr_right fun _ => ?_
  constructor
  · rintro ⟨teeIds, hteeIds, _, hsent, rfl⟩
    exact ⟨_, ⟨hp, rfl, ⟨rfl, rfl⟩, rfl, rfl, hteeIds, hsent⟩, rfl⟩
  · rintro ⟨⟨teeIds, params, value⟩, h, rfl⟩
    obtain ⟨opType, command, bytes, cosigners, threshold, claimBack⟩ := params
    obtain ⟨hpayload, rfl, ⟨rfl, rfl⟩, rfl, rfl, hteeIds, hsent⟩ := h
    obtain ⟨rfl, rfl⟩ := Prod.mk.inj (Option.some.inj (hp.symm.trans hpayload))
    exact ⟨teeIds, hteeIds, (), hsent, rfl⟩

/-- A call that succeeds sets the id for the first time or sends one instruction. -/
theorem enter_cases {m : Msg} {s s' : InstructionSender} (h : enter this m s = .ok s') :
    m.entry = .setExtensionId ∧ setExtensionId this m.registries s = .ok s' ∨
    s.extensionId ≠ 0 ∧ ∃ x, Carries s.extensionId m x ∧ s' = { s with sent := s.sent ++ [x] } := by
  unfold enter at h
  split at h
  next hentry => exact .inl ⟨hentry, h⟩
  next hentry => exact .inr ((sendInstruction_eq_ok (by rw [hentry]; rfl)).mp h)
  next hentry => exact .inr ((sendInstruction_eq_ok (by rw [hentry]; rfl)).mp h)

/-! ## Whole runs -/

/-- The senders of the public extensions, in the order of registration. -/
structure Serves (senders : List Address) (R : Registries) : Prop where
  next : ∃ c, R.nextPublicExtensionId = .ok c ∧ c.val = firstPublicExtensionId + senders.length
  sender : ∀ k a, senders[k]? = some a →
    R.instructionsSender (lengthWord (firstPublicExtensionId + k)) = .ok a

/-- Against a registry that lists `senders`, the id of the first one that is this contract. -/
theorem setExtensionId_serves {R : Registries} {senders : List Address} (hR : Serves senders R)
    {s s' : InstructionSender} : setExtensionId this R s = .ok s' ↔
      s.extensionId = 0 ∧ this ∈ senders ∧
        s' = { s with extensionId := lengthWord (firstPublicExtensionId + senders.idxOf this) } := by
  obtain ⟨c, hc, hnext⟩ := hR.next
  have hask : ∀ k, ∀ h : k < senders.length,
      R.instructionsSender (lengthWord (firstPublicExtensionId + k)) = .ok senders[k] := fun k h =>
    hR.sender k _ (List.getElem?_eq_getElem h)
  rw [setExtensionId_eq_ok]
  refine and_congr_right fun _ => ?_
  constructor
  · rintro ⟨c', k, hc', hk, rfl, hfound, hbefore⟩
    obtain rfl := Except.ok.inj (hc.symm.trans hc')
    have hlength : k < senders.length := by omega
    rw [hask k hlength] at hfound
    have hthis : senders[k] = this := Except.ok.inj hfound
    have hmem : this ∈ senders := hthis ▸ List.getElem_mem hlength
    have hindex : senders.idxOf this = k := by
      refine le_antisymm ?_ ?_
      · by_contra hlt
        have hne := List.not_of_lt_findIdx (not_le.mp hlt)
        simp [hthis] at hne
      · by_contra hlt
        obtain ⟨a, ha, hne⟩ := hbefore _ (not_le.mp hlt)
        rw [hask _ (List.idxOf_lt_length_of_mem hmem), List.getElem_idxOf] at ha
        exact hne (Except.ok.inj ha).symm
    exact ⟨hmem, by rw [hindex]⟩
  · rintro ⟨hmem, rfl⟩
    have hlength := List.idxOf_lt_length_of_mem hmem
    refine ⟨c, senders.idxOf this, hc, by omega, rfl, ?_, fun j hj => ?_⟩
    · rw [hask _ hlength, List.getElem_idxOf]
    · refine ⟨_, hask j (hj.trans hlength), fun heq => ?_⟩
      have hne := List.not_of_lt_findIdx hj
      simp [heq] at hne

/-- A later registration does not change which one is the first. -/
theorem idxOf_prefix {l senders : List Address} (hl : l <+: senders) (hmem : this ∈ l) :
    senders.idxOf this = l.idxOf this := by
  obtain ⟨more, rfl⟩ := hl
  exact List.idxOf_append_of_mem hmem

theorem extensionId_val {R : Registries} {senders : List Address} (h : Serves senders R)
    (hmem : this ∈ senders) : (lengthWord (firstPublicExtensionId + senders.idxOf this)).val =
      firstPublicExtensionId + senders.idxOf this := by
  obtain ⟨c, -, hlength⟩ := h.next
  have hc := c.isLt
  have hindex := List.idxOf_lt_length_of_mem hmem
  exact lengthWord_val (by omega)

theorem public_ne_zero {id : Uint256} {n : ℕ} (h : id.val = firstPublicExtensionId + n) :
    id ≠ 0 := by
  rintro rfl
  rw [Fin.val_zero, firstPublicExtensionId] at h
  omega

/-- A call that looks for the id after it has been registered. -/
def Finds (this : Address) (senders : List Address) (m : Msg) : Prop :=
  m.entry = .setExtensionId ∧ ∃ seen, seen <+: senders ∧ Serves seen m.registries ∧ this ∈ seen

variable (this) in
/-- A call changes nothing, or it finds the id, or it sends an instruction. -/
theorem step_cases {senders : List Address} {m : Msg} (s : InstructionSender)
    (hm : ∃ seen, seen <+: senders ∧ Serves seen m.registries) :
    (¬ (s.extensionId = 0 ∧ Finds this senders m) ∧ step this s m = s) ∨
    (s.extensionId = 0 ∧ Finds this senders m ∧ this ∈ senders ∧
      ∃ id : Uint256, id.val = firstPublicExtensionId + senders.idxOf this ∧
        step this s m = { s with extensionId := id }) ∨
    (s.extensionId ≠ 0 ∧ ∃ x, Carries s.extensionId m x ∧
      step this s m = { s with sent := s.sent ++ [x] }) := by
  obtain ⟨seen, hprefix, hserves⟩ := hm
  unfold step
  cases hr : enter this m s with
  | error e =>
    left
    refine ⟨?_, rfl⟩
    rintro ⟨hzero, hentry, seen', hprefix', hserves', hmem⟩
    have hok := (setExtensionId_serves hserves').mpr ⟨hzero, hmem, rfl⟩
    rw [enter, hentry] at hr
    cases hr.symm.trans hok
  | ok s' =>
    right
    rcases enter_cases hr with ⟨hentry, hset⟩ | hsent
    · left
      obtain ⟨hzero, hmem, rfl⟩ := (setExtensionId_serves hserves).mp hset
      have hindex := idxOf_prefix hprefix hmem
      refine ⟨hzero, ⟨hentry, seen, hprefix, hserves, hmem⟩, hprefix.subset hmem, _, ?_, rfl⟩
      rw [hindex]
      exact extensionId_val hserves hmem
    · exact .inr hsent

/-- What is so after every call. -/
structure Bound (this : Address) (senders : List Address) (ms : List Msg) (s : InstructionSender) :
    Prop where
  extensionId : s.extensionId ≠ 0 →
    this ∈ senders ∧ s.extensionId.val = firstPublicExtensionId + senders.idxOf this
  isSet : s.extensionId ≠ 0 ↔ ∃ m ∈ ms, Finds this senders m
  silent : s.extensionId = 0 → s.sent = []
  sent : ∃ calls, calls.Sublist ms ∧ List.Forall₂ (Carries s.extensionId) calls s.sent

theorem Bound.step {senders : List Address} {ms : List Msg} {s : InstructionSender}
    (h : Bound this senders ms s) {m : Msg}
    (hm : ∃ seen, seen <+: senders ∧ Serves seen m.registries) :
    Bound this senders (ms ++ [m]) (step this s m) := by
  obtain ⟨calls, hsub, hcalls⟩ := h.sent
  have hmore : ∀ P : Msg → Prop, (∃ m' ∈ ms ++ [m], P m') ↔ (∃ m' ∈ ms, P m') ∨ P m := by
    simp [or_and_right, exists_or]
  rcases step_cases this s hm with ⟨hnot, hs⟩ | ⟨hzero, hfinds, hmem, id, hid, hs⟩ |
    ⟨hne, x, hx, hs⟩
  · rw [hs]
    refine ⟨h.extensionId, ?_, h.silent, calls, hsub.trans (List.sublist_append_left ..), hcalls⟩
    rw [hmore, ← h.isSet]
    exact ⟨.inl, fun hor => hor.elim id fun hfinds hzero => hnot ⟨hzero, hfinds⟩⟩
  · rw [hs]
    have hne := public_ne_zero hid
    refine ⟨fun _ => ⟨hmem, hid⟩, ?_, fun h0 => absurd h0 hne, [], List.nil_sublist _, ?_⟩
    · rw [hmore]
      exact ⟨fun _ => .inr hfinds, fun _ => hne⟩
    · rw [h.silent hzero]
      exact .nil
  · rw [hs]
    refine ⟨h.extensionId, ?_, fun hzero => absurd hzero hne, calls ++ [m],
      hsub.append (.refl _), ?_⟩
    · rw [hmore, ← h.isSet]
      exact ⟨fun _ => .inl hne, fun _ => hne⟩
    · exact List.rel_append hcalls (.cons hx .nil)

end StealthWage.Instructions
