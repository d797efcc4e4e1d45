import StealthWage.EnclaveSpec
import StealthWage.VaultBacking

/-! # The enclave and the vault together

The two never talk to each other: anybody carries what the enclave has signed to the vault,
or does not. `Trusted` is what is assumed of cryptography, one move at a time. -/
namespace StealthWage.System
open CallStack Enclave Js Protocol Runs Vault Words

variable {ch : Chain} {E : Type*}

structure State (ch : Chain) (E : Type*) where
  vault : VaultConfig ch E
  enclave : EnclaveState

inductive Move (ch : Chain) (E : Type*)
  | chain (ev : Event (Msg ch) E)
  | request (q : Request)

def step (R : Runtime) (out : Outside TokenCall E) (s : State ch E) : Move ch E → Option (State ch E)
  | .chain ev => (CallStack.step (contract ch) out s.vault ev).map fun v => ⟨v, s.enclave⟩
  | .request q => some ⟨s.vault, (respond R s.enclave q).2⟩

/-- The vault just deployed with the enclave's address, and an enclave that has signed nothing. -/
def launched (ch : Chain) (sender signer : Address) (e : E) : State ch E :=
  ⟨deployed ch sender signer e, ⟨0, []⟩⟩

/-- What happens on the chain, without the requests. -/
def chainEvents : List (Move ch E) → List (Event (Msg ch) E)
  | [] => []
  | .chain ev :: moves => ev :: chainEvents moves
  | .request _ :: moves => chainEvents moves

/-- A run of the system is a run of the vault. -/
theorem vault_run {R : Runtime} {out : Outside TokenCall E} {s s' : State ch E}
    {moves : List (Move ch E)} (h : run (step R out) s moves = some s') :
    run (CallStack.step (contract ch) out) s.vault (chainEvents moves) = some s'.vault := by
  induction moves generalizing s with
  | nil =>
    obtain rfl := Option.some.inj h
    rfl
  | cons move moves ih =>
    obtain ⟨u, hu, hrest⟩ := run_cons_eq_some.mp h
    cases move with
    | chain ev =>
      obtain ⟨v, hv, rfl⟩ := Option.map_eq_some_iff.mp hu
      exact run_cons_eq_some.mpr ⟨v, hv, ih hrest⟩
    | request q =>
      obtain rfl := Option.some.inj hu
      have hvault := ih hrest
      exact hvault

/-! ## What is assumed of cryptography -/

/-- The preimage of the digest that a call has the vault check, and the signature it brings. -/
def presented (v : StreamVault) (m : Msg ch) : Option (Bytes × Bytes) :=
  match m.entry with
  | .withdraw id accrued deadline sig =>
    some (authPreimage ch (Vault.withdrawTag ch.keccak256) id (v.streams id).commitment accrued
      deadline, sig)
  | .cancelStream id accrued deadline sig =>
    some (authPreimage ch (Vault.settleTag ch.keccak256) id (v.streams id).commitment accrued
      deadline, sig)
  | _ => none

/-- What was hashed on the way to a signature. -/
def hashedFor (R : Runtime) (e : Signing) : List Bytes :=
  e.terms :: ethSignedPreimage e.digest ::
    (R.viem.encodeAbiParameters (authValues R.caseMap e.params)).toList

/-- The strings that a move hashes to compare or to sign. -/
def hashedBy (R : Runtime) (s : State ch E) : Move ch E → List Bytes
  | .chain (.call m) =>
    match presented s.vault.world.state m, m.entry with
    | some (preimage, _), _ => [preimage, ethSignedPreimage (ch.keccak256 preimage)]
    | none, .revealTerms _ terms => [terms]
    | none, _ => []
  | .chain _ => []
  | .request q =>
    ((respond R s.enclave q).2.signed.drop s.enclave.signed.length).flatMap (hashedFor R)

/-- The vault trusts the enclave's key, that key has signed whatever it is found to have
signed, and all hashing happens within `H`. -/
structure Trusted (R : Runtime) (signer : Address) (H : Set Bytes) (s : State ch E)
    (move : Move ch E) : Prop where
  key : s.vault.world.state.teeSigner = signer
  unforged : ∀ m preimage sig, move = .chain (.call m) →
    presented s.vault.world.state m = some (preimage, sig) →
    signerOf ch (ch.keccak256 preimage) sig = signer → ∃ e ∈ s.enclave.signed,
      ch.keccak256 (ethSignedPreimage e.digest) =
        ch.keccak256 (ethSignedPreimage (ch.keccak256 preimage))
  hashed : ∀ x ∈ hashedBy R s move, x ∈ H

def Move.called : Move ch E → Option (Msg ch)
  | .chain (.call m) => some m
  | _ => none

theorem Move.called_eq_some {move : Move ch E} {m : Msg ch} :
    move.called = some m ↔ move = .chain (.call m) := by
  rcases move with ⟨_ | _⟩ | _ <;> simp [Move.called]

theorem trusted_iff {R : Runtime} {signer : Address} {H : Set Bytes} {s : State ch E}
    {move : Move ch E} : Trusted R signer H s move ↔ s.vault.world.state.teeSigner = signer ∧
      (∀ m ∈ move.called, ∀ p ∈ presented s.vault.world.state m,
        signerOf ch (ch.keccak256 p.1) p.2 = signer → ∃ e ∈ s.enclave.signed,
          ch.keccak256 (ethSignedPreimage e.digest) =
            ch.keccak256 (ethSignedPreimage (ch.keccak256 p.1))) ∧
      ∀ x ∈ hashedBy R s move, x ∈ H := by
  constructor
  · rintro ⟨hkey, hunforged, hhashed⟩
    refine ⟨hkey, fun m hm p hp => ?_, hhashed⟩
    exact hunforged m p.1 p.2 (Move.called_eq_some.mp hm) hp
  · rintro ⟨hkey, hunforged, hhashed⟩
    refine ⟨hkey, fun m preimage sig hm hp => ?_, hhashed⟩
    exact hunforged m (Move.called_eq_some.mpr hm) (preimage, sig) hp

instance {R : Runtime} {signer : Address} {H : List Bytes} {s : State ch E} {move : Move ch E} :
    Decidable (Trusted R signer {x | x ∈ H} s move) :=
  decidable_of_iff' _ trusted_iff

/-! ## The log of the enclave -/

/-- What the handler guarantees of everything it signs. -/
structure Issued (R : Runtime) (H : Set Bytes) (e : Signing) : Prop where
  terms : ∃ t, decodeTerms R.viem e.terms = some t ∧
    e.params.cumulativeAccrued = accruedAt t e.clock
  deadline : e.params.deadline = e.clock + authTtlSeconds
  commitment : R.caseMap.toLowerCase e.params.commitment = R.viem.keccakHex e.terms
  digest : buildAuthDigest R.caseMap R.viem e.params = some e.digest
  hashed : ∀ x ∈ hashedFor R e, x ∈ H

theorem respond_signed (R : Runtime) (st : EnclaveState) (q : Request) :
    (respond R st q).2 = st ∨ ∃ e : Signing, (respond R st q).2.signed = st.signed ++ [e] ∧
      (∃ t, decodeTerms R.viem e.terms = some t ∧
        e.params.cumulativeAccrued = accruedAt t e.clock) ∧
      e.params.deadline = e.clock + authTtlSeconds ∧
      R.caseMap.toLowerCase e.params.commitment = R.viem.keccakHex e.terms ∧
      buildAuthDigest R.caseMap R.viem e.params = some e.digest := by
  unfold respond
  cases h : authorize R q.now q.msg (q.command.tag R.viem) st with
  | none => exact .inl rfl
  | some r =>
    obtain ⟨res, st'⟩ := r
    rcases authorize_cases h with ⟨text, -, rfl⟩ | ⟨a, p, hgranted⟩
    · exact .inl rfl
    · obtain ⟨issuedAt, hp⟩ := hgranted.passed
      obtain ⟨digest, signature, hdigest, -, -, rfl⟩ := hgranted.signature
      obtain ⟨-, -, -, -, hcommit, haccrued, hdeadline⟩ := authParams_eq_some.mp hgranted.params
      refine .inr ⟨⟨p, q.now.val, a.termsHex, digest⟩, rfl, ⟨a.terms, hp.terms, haccrued⟩,
        hdeadline, ?_, hdigest⟩
      rw [hcommit]
      exact hp.commitment.symm

theorem issued_respond {R : Runtime} {H : Set Bytes} {s : State ch E} {q : Request}
    (h : ∀ e ∈ s.enclave.signed, Issued R H e) (hq : ∀ x ∈ hashedBy R s (.request q), x ∈ H) :
    ∀ e ∈ (respond R s.enclave q).2.signed, Issued R H e := by
  rcases respond_signed R s.enclave q with heq | ⟨e, hlog, hterms, hdeadline, hcommit, hdigest⟩
  · rwa [heq]
  · simp only [hashedBy, hlog, List.drop_left, List.flatMap_cons, List.flatMap_nil,
      List.append_nil] at hq
    intro e' he'
    rw [hlog, List.mem_append, List.mem_singleton] at he'
    rcases he' with he' | rfl
    · exact h e' he'
    · exact ⟨hterms, hdeadline, hcommit, hdigest, hq⟩

theorem signed_grows {R : Runtime} (st : EnclaveState) (q : Request) :
    ∀ e ∈ st.signed, e ∈ (respond R st q).2.signed := by
  intro e he
  rcases respond_signed R st q with heq | ⟨e', hlog, -⟩
  · rwa [heq]
  · rw [hlog]
    exact List.mem_append_left _ he

/-! ## From a signature to the authorization behind it -/

/-- The authorization is for this chain, this vault, this stream and this commitment. -/
structure Concerns (ch : Chain) (C : CaseMap) (id : Uint256) (commitment : Bytes32)
    (e : Signing) : Prop where
  chainId : e.params.chainId = ch.chainId.val
  vault : e.params.vault.map lowerUnit = bytesToHex (bigEndian 20 ch.this.val)
  streamId : e.params.streamId = id.val
  commitment : C.toLowerCase e.params.commitment = bytesToHex (bigEndian 32 commitment.val)

/-- Some authorization in the log has the figures; `ok` relates it to the call. -/
def Grant (R : Runtime) (signed : List Signing) (ok : Signing → Msg ch → Prop) (id : Uint256)
    (commitment : Bytes32) (accrued deadline : Uint256) (m : Msg ch) : Prop :=
  ∃ e ∈ signed, Concerns ch R.caseMap id commitment e ∧
    e.params.cumulativeAccrued = accrued.val ∧ e.params.deadline = deadline.val ∧ ok e m

theorem ethSignedPreimage_injective : Function.Injective ethSignedPreimage := by
  intro d d' h
  have hlen : (bigEndian 32 d.val).length = (bigEndian 32 d'.val).length := by simp
  have hbytes := List.append_inj_right' h hlen
  have hvalue := congrArg value hbytes
  rw [value_bigEndian_word, value_bigEndian_word] at hvalue
  exact Fin.ext hvalue

/-- Equal preimages describe one authorization. -/
theorem concerns_of_preimage {R : Runtime} (hV : R.viem.Lawful) {H : Set Bytes} {e : Signing}
    (he : Issued R H e) {tag : Bytes32} {id commitment accrued deadline : Word}
    (h : R.viem.encodeAbiParameters (authValues R.caseMap e.params) =
      some (authPreimage ch tag id commitment accrued deadline)) :
    Concerns ch R.caseMap id commitment e ∧ e.params.cumulativeAccrued = accrued.val ∧
      e.params.deadline = deadline.val := by
  obtain ⟨w1, w2, w3, w4, w5, w6, w7, hwords, -, h2, h3, h4, h5, h6, h7⟩ := encode_seven hV h
  have hinj := abiEncode_injective hwords
  simp only [List.cons.injEq, and_true] at hinj
  obtain ⟨rfl, rfl, rfl, rfl, rfl, rfl, rfl⟩ := hinj
  have hcommit := he.commitment
  have hhash : R.viem.keccak256 e.terms = commitment := by
    rw [hcommit] at h5
    exact (encodes_hash h5).symm
  refine ⟨⟨h2.2.2.symm, lower_of_spelled h3.2, h4.2.2.symm, ?_⟩, h6.2.2.symm, h7.2.2.symm⟩
  rw [hcommit, Viem.keccakHex, hhash]

theorem exists_grant {R : Runtime} (hV : R.viem.Lawful)
    (hk : R.viem.keccak256 = ch.keccak256) {signer : Address} {H : Set Bytes}
    (hH : Set.InjOn ch.keccak256 H) {s : State ch E} {m : Msg ch}
    (hlog : ∀ e ∈ s.enclave.signed, Issued R H e)
    (ht : Trusted R signer H s (.chain (.call m))) {tag : Bytes32}
    {id commitment accrued deadline : Word} {sig : Bytes}
    (hp : presented s.vault.world.state m =
      some (authPreimage ch tag id commitment accrued deadline, sig))
    (hsig : signerOf ch (authDigest ch tag id commitment accrued deadline) sig = signer) :
    ∃ e ∈ s.enclave.signed, Concerns ch R.caseMap id commitment e ∧
      e.params.cumulativeAccrued = accrued.val ∧ e.params.deadline = deadline.val := by
  obtain ⟨e, he, heth⟩ := ht.unforged m _ _ rfl hp hsig
  have hissued := hlog e he
  obtain ⟨pre, hpre, hdigest⟩ := Option.map_eq_some_iff.mp hissued.digest
  have hashed := ht.hashed
  simp only [hashedBy, hp, List.mem_cons, List.not_mem_nil, or_false, forall_eq_or_imp,
    forall_eq] at hashed
  have hlogged := hissued.hashed
  simp only [hashedFor, hpre, Option.toList_some, List.mem_cons, List.not_mem_nil, or_false,
    forall_eq_or_imp, forall_eq] at hlogged
  have hdigests := ethSignedPreimage_injective (hH hlogged.2.1 hashed.2 heth)
  rw [← hdigest, hk] at hdigests
  have hpreimages := hH hlogged.2.2 hashed.1 hdigests
  rw [hpreimages] at hpre
  exact ⟨e, he, concerns_of_preimage hV hissued hpre⟩

/-! ## One run on Coston2 -/

open Reference in
/-- The stream is created and funded, the enclave grants 100 units and they are withdrawn. -/
def paid : List (Move coston2 Unit) :=
  [.chain (.call createCall), .chain (.call fundCall), .chain (.answer true),
    .request withdrawRequest, .chain (.call withdrawCall), .chain (.answer true)]

open Reference in
theorem paid_trusted : Along (step coston2Runtime compliant)
    (Trusted coston2Runtime teeSigner {x | x ∈ hashed}) (launched coston2 employer teeSigner ())
    paid := by
  decide +kernel

end StealthWage.System
