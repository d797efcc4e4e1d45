import StealthWage.EnclaveSpec
import StealthWage.VaultAccounting

/-! # Every authorization can be spent

A client parses the answer of the enclave and submits its figures. The vault rebuilds the
digest from its own storage; it is the one that was signed, in every spelling of the request
that the enclave accepts. -/
namespace StealthWage.System
open CallStack Enclave Js Json Protocol Utf8 Vault Words

variable {ch : Chain} {E : Type*} {R : Runtime}

/-! ## The client -/

structure Authorization where
  streamId : JsString
  cumulativeAccrued : JsString
  deadline : JsString
  signature : JsString
  terms : JsString

def readAuthorization (data : JsString) : Option Authorization := do
  let raw ← (hexToBytes data).toOption
  match parse (decode raw) with
  | some (.object members) =>
    return ⟨← stringField members (js "streamId"), ← stringField members (js "cumulativeAccrued"),
      ← stringField members (js "deadline"), ← stringField members (js "signature"),
      ← stringField members (js "terms")⟩
  | _ => none

/-- `BigInt(text)` where a `uint256` is passed. -/
def uint256Arg (text : JsString) : Option Uint256 := do
  let n ← bigint text
  if h : 0 ≤ n ∧ n < 2 ^ 256 then some ⟨n.toNat, by omega⟩ else none

/-- The arguments with which the page calls the vault. -/
def callArgs (data : JsString) : Option (Uint256 × Uint256 × Bytes) := do
  let auth ← readAuthorization data
  let accrued ← uint256Arg auth.cumulativeAccrued
  let deadline ← uint256Arg auth.deadline
  let signature ← (hexToBytes auth.signature).toOption
  return (accrued, deadline, signature)

theorem readAuthorization_response (a : Checked) (p : AuthParams) (signature : JsString) :
    readAuthorization (bytesToHex (encode (stringify (response a p signature)))) =
      some ⟨a.req.streamId, bigintText p.cumulativeAccrued, bigintText p.deadline, signature,
        bytesToHex a.termsHex⟩ := by
  unfold readAuthorization
  rw [hexToBytes_bytesToHex]
  simp only [Except.toOption, Option.bind_eq_bind, Option.bind_some, response_parse]
  rfl

theorem uint256Arg_bigintText {n : ℤ} (h : 0 ≤ n ∧ n < 2 ^ 256) :
    ∃ x : Uint256, uint256Arg (bigintText n) = some x ∧ (x.val : ℤ) = n := by
  refine ⟨⟨n.toNat, by omega⟩, ?_, by simp only; omega⟩
  simp only [uint256Arg, bigint_bigintText h.1, Option.bind_eq_bind, Option.bind_some, h, and_self,
    dif_pos]

/-! ## Signatures -/

/-- `signMessage` and `ecrecover` agree on EIP-191 signatures of 32-byte payloads: the text
is hex of `r`, `s` and `v`, and the key's address is recovered. -/
structure SignsAs (R : Runtime) (ch : Chain) (signer : Address) : Prop where
  signer_ne_zero : signer ≠ 0
  recovers : ∀ (key text : JsString) (digest : Bytes32),
    configured R.teeSignerPrivkey = some key →
    R.viem.signMessage key (bigEndian 32 digest.val) = some text →
    ∃ (r vs : Bytes32) (v : Byte), (v = 27 ∨ v = 28) ∧
      hexToBytes text = .ok (bigEndian 32 r.val ++ bigEndian 32 vs.val ++ [v]) ∧
      ch.ecrecover (ch.keccak256 (ethSignedPreimage digest)) v r vs = signer

/-- The contract takes such a signature apart correctly. -/
theorem signerOf_signature (digest r vs : Bytes32) {v : Byte} (hv : v = 27 ∨ v = 28) :
    signerOf ch digest (bigEndian 32 r.val ++ bigEndian 32 vs.val ++ [v]) =
      ch.ecrecover (ch.keccak256 (ethSignedPreimage digest)) v r vs := by
  have hr : wordAt (bigEndian 32 r.val ++ bigEndian 32 vs.val ++ [v]) 0 = r := by
    rw [List.append_assoc, wordAt_cons_zero]
  have hvs : wordAt (bigEndian 32 r.val ++ bigEndian 32 vs.val ++ [v]) 1 = vs := by
    rw [List.append_assoc, wordAt_cons_succ, wordAt_cons_zero]
  have hlast : (bigEndian 32 r.val ++ bigEndian 32 vs.val ++ [v]).getD 64 0 = v := by
    rw [List.getD_append_right _ _ _ _ (by simp)]
    simp
  have hlarge : ¬ v < 27 := by
    rcases hv with rfl | rfl
    · decide
    · decide
  unfold signerOf
  rw [hr, hvs, hlast]
  simp only [hlarge, if_false]

/-! ## The vault accepts what was signed -/

/-- The request is about stream `id` of this vault on this chain, in any spelling. -/
structure Denotes (ch : Chain) (C : CaseMap) (req : AuthRequest) (id : Uint256)
    (commitment : Bytes32) : Prop where
  chainId : bigint req.chainId = some (ch.chainId.val : ℤ)
  vault : spelled 20 req.vault = some ch.this.val
  streamId : bigint req.streamId = some (id.val : ℤ)
  commitment : C.toLowerCase req.commitment = bytesToHex (bigEndian 32 commitment.val)

/-- What a client reads out of a granted request passes the checks of the vault. -/
theorem granted_authorized (hV : R.viem.Lawful) (hk : R.viem.keccak256 = ch.keccak256)
    {signer : Address} (hS : SignsAs R ch signer) {now : Clock} {msg tag : JsString}
    {wire : Bytes32} (htag : tag = bytesToHex (bigEndian 32 wire.val)) {st st' : EnclaveState}
    {res : HandlerResult} {a : Checked} {p : AuthParams}
    (hg : Granted R now.val msg tag st a p res st') {id : Uint256} {v : StreamVault}
    (hd : Denotes ch R.caseMap a.req id (v.streams id).commitment) (hsigner : v.teeSigner = signer) :
    ∃ data accrued deadline sig, res.data = some data ∧
      callArgs data = some (accrued, deadline, sig) ∧
      (accrued.val : ℤ) = accruedAt a.terms now.val ∧ (deadline.val : ℤ) = now.val + 600 ∧
      ∀ timestamp, timestamp ≤ deadline →
        Authorized ch v wire timestamp id accrued deadline sig := by
  obtain ⟨issuedAt, hp⟩ := hg.passed
  obtain ⟨digest, signature, hdigest, hsig, rfl, -⟩ := hg.signature
  obtain ⟨p', hp', hchain, hstream, hok, haccrued, hdeadline, hcommit⟩ := hp.inRange hV
  obtain rfl := Option.some.inj (hg.params.symm.trans hp')
  obtain ⟨key, -, hkey, -⟩ := hp.keys
  obtain rfl := authParams_unique hg.params hd.chainId hd.streamId
  obtain ⟨accrued, haarg, ha⟩ := uint256Arg_bigintText haccrued
  obtain ⟨deadline, hdarg, hdl⟩ := uint256Arg_bigintText hdeadline
  obtain ⟨r, vs, vb, hvb, htext, hrec⟩ := hS.recovers _ _ _ hkey hsig
  have hpreimage : R.viem.encodeAbiParameters (authValues R.caseMap _) =
      if R.viem.isAddress _ = true then
        some (authPreimage ch wire id (v.streams id).commitment accrued deadline) else none :=
    authValues_encode hV htag rfl (lower_of_spelled hd.vault) rfl hd.commitment ha.symm hdl.symm
  rw [if_pos hok] at hpreimage
  have hsame : digest = authDigest ch wire id (v.streams id).commitment accrued deadline := by
    rw [buildAuthDigest, hpreimage] at hdigest
    rw [authDigest, ← hk]
    exact (Option.some.inj hdigest).symm
  refine ⟨_, accrued, deadline, bigEndian 32 r.val ++ bigEndian 32 vs.val ++ [vb], rfl, ?_, ha,
    hdl, ?_⟩
  · simp only [callArgs, readAuthorization_response, haarg, hdarg, htext, Except.toOption,
      Option.bind_eq_bind, Option.bind_some, pure]
  · intro timestamp hle
    refine ⟨hle, by simp, ?_, hsigner ▸ hS.signer_ne_zero⟩
    rw [signerOf_signature _ _ _ hvb, ← hsame, hrec, hsigner]

theorem granted_of_status {now : Clock} {msg tag : JsString} {st st' : EnclaveState}
    {res : HandlerResult} {req : AuthRequest} (h : authorize R now msg tag st = some (res, st'))
    (hone : res.status = 1) (hreq : decodeRequest R msg = .ok req) :
    ∃ a p, a.req = req ∧ Granted R now.val msg tag st a p res st' := by
  rcases authorize_cases h with ⟨text, rfl, -⟩ | ⟨a, p, hg⟩
  · simp [refuse] at hone
  · obtain ⟨issuedAt, hp⟩ := hg.passed
    have ha := decodeRequest_ok (R := R).mpr hp.spells
    exact ⟨a, p, Except.ok.inj (ha.symm.trans hreq), hg⟩

/-- Whether a signed withdrawal pays, and how much, is decided by the figures alone. -/
theorem withdraw_authorized {w : VaultWorld ch E} (hw : Reached w) {id accrued deadline : Uint256}
    {sig : Bytes} (hl : w.state.Live id) {m : Msg ch}
    (he : m.entry = .withdraw id accrued deadline sig)
    (ha : Authorized ch w.state (Vault.withdrawTag ch.keccak256) m.timestamp id accrued deadline
      sig) :
    let s := w.state.streams id
    let due : ℤ := min (accrued.val : ℤ) s.funded.val - s.withdrawn.val
    (enter ch m w.state = .error (.message "nothing accrued") ↔ due ≤ 0) ∧
    (0 < due → ∃ v payout, (payout.val : ℤ) = due ∧
      enter ch m w.state = .ok (.call v (transfer ch s.token s.recipient payout id .payout)
        (.withdrawn id payout)) ∧
      (payouts (attempt w m) id : ℤ) = payouts w id + due) := by
  intro s due
  have hunlocked : w.state.entered = 1 := hw.kept.lock
  have hcapped : (s.capped accrued : ℤ) = min (accrued.val : ℤ) s.funded.val := by
    simp [Stream.capped]
  have henter : enter ch m w.state =
      withdraw ch m.timestamp id accrued deadline sig w.state := by simp only [enter, he]
  by_cases hdue : s.withdrawn.val < s.capped accrued
  · have hok := (withdraw_eq_ok ch).mpr ⟨hunlocked, hl, ha, hdue, rfl⟩
    refine ⟨?_, fun _ => ⟨_, s.payoutDue accrued, ?_, henter.trans hok, ?_⟩⟩
    · rw [henter, hok]
      simp only [reduceCtorEq, false_iff]
      omega
    · simp only [Stream.payoutDue]
      omega
    · have hstreams := (attempt_of_call (henter.trans hok)).1
      have hpaid : ((attempt w m).state.streams id).withdrawn.val = s.capped accrued := by
        rw [hstreams]
        simp [Stream.paid, s]
      have hbefore : payouts w id = s.withdrawn.val := hw.kept.paid id
      rw [(attempt_kept hw.kept m).paid id, hbefore, hpaid]
      omega
  · have herror := withdraw_nothing_accrued ch hunlocked hl ha (not_lt.mp hdue)
    refine ⟨⟨fun _ => by omega, fun _ => henter.trans herror⟩, fun hpos => ?_⟩
    omega

/-- Completeness of the pair: an answer with status 1 is accepted by the vault. -/
theorem authorization_spendable (hV : R.viem.Lawful) (hk : R.viem.keccak256 = ch.keccak256)
    {signer : Address} (hS : SignsAs R ch signer) {w : VaultWorld ch E} (hw : Reached w)
    (hsigner : w.state.teeSigner = signer) {id : Uint256} (hl : w.state.Live id)
    {now : Clock} {msg : JsString} {st st' : EnclaveState} {res : HandlerResult}
    {req : AuthRequest} (hone : res.status = 1) (hreq : decodeRequest R msg = .ok req)
    (hd : Denotes ch R.caseMap req id (w.state.streams id).commitment) :
    (authorize R now msg (Protocol.withdrawTag R.viem) st = some (res, st') →
      ∃ data accrued deadline sig, res.data = some data ∧
        callArgs data = some (accrued, deadline, sig) ∧
        ∀ m : Msg ch, m.entry = .withdraw id accrued deadline sig → m.timestamp ≤ deadline →
          let s := w.state.streams id
          let due : ℤ := min (accrued.val : ℤ) s.funded.val - s.withdrawn.val
          (enter ch m w.state = .error (.message "nothing accrued") ↔ due ≤ 0) ∧
          (0 < due → ∃ v payout, (payout.val : ℤ) = due ∧
            enter ch m w.state = .ok (.call v (transfer ch s.token s.recipient payout id .payout)
              (.withdrawn id payout)) ∧
            (∀ v', ∃ v'', resume ch (.withdrawn id payout) true v' = .ok (.done v'')) ∧
            (payouts (attempt w m) id : ℤ) = payouts w id + due)) ∧
    (authorize R now msg (Protocol.settleTag R.viem) st = some (res, st') →
      ∃ data accrued deadline sig, res.data = some data ∧
        callArgs data = some (accrued, deadline, sig) ∧
        ∀ m : Msg ch, m.entry = .cancelStream id accrued deadline sig →
          m.sender = (w.state.streams id).employer → m.timestamp ≤ deadline →
          (∃ r, enter ch m w.state = .ok r) ∧
          (attempt w m).state.streams id = (w.state.streams id).settled accrued) := by
  constructor
  · intro h
    obtain ⟨a, p, rfl, hg⟩ := granted_of_status h hone hreq
    have htag : Protocol.withdrawTag R.viem =
        bytesToHex (bigEndian 32 (Vault.withdrawTag ch.keccak256).val) := by
      rw [← hk]
      rfl
    obtain ⟨data, accrued, deadline, sig, hdata, hargs, -, -, hauth⟩ :=
      granted_authorized hV hk hS htag hg hd hsigner
    refine ⟨data, accrued, deadline, sig, hdata, hargs, ?_⟩
    intro m he hle
    obtain ⟨hnothing, hpays⟩ := withdraw_authorized hw hl he (hauth _ hle)
    refine ⟨hnothing, fun hpos => ?_⟩
    obtain ⟨v, payout, hpayout, hcall, htotal⟩ := hpays hpos
    exact ⟨v, payout, hpayout, hcall, fun v' => ⟨_, rfl⟩, htotal⟩
  · intro h
    obtain ⟨a, p, rfl, hg⟩ := granted_of_status h hone hreq
    have htag : Protocol.settleTag R.viem =
        bytesToHex (bigEndian 32 (Vault.settleTag ch.keccak256).val) := by
      rw [← hk]
      rfl
    obtain ⟨data, accrued, deadline, sig, hdata, hargs, -, -, hauth⟩ :=
      granted_authorized hV hk hS htag hg hd hsigner
    refine ⟨data, accrued, deadline, sig, hdata, hargs, ?_⟩
    intro m he hsender hle
    have hcancels : Cancels m w.state id accrued deadline sig := ⟨he, hl, hsender, hauth _ hle⟩
    exact ⟨hcancels.enter_ok hw.kept, attempt_cancel hw.kept hcancels⟩

/-- The signatures on Coston2 are the ones that `ecrecover` knows. -/
theorem coston2_signs : SignsAs Reference.coston2Runtime Reference.coston2 Reference.teeSigner where
  signer_ne_zero := by decide
  recovers key text digest hkey hsig := by
    obtain rfl : key = Reference.signerKey := by
      have hset : configured Reference.coston2Runtime.teeSignerPrivkey =
          some Reference.signerKey := by decide +kernel
      exact Option.some.inj (hkey.symm.trans hset)
    have hdigest : ∀ d : Bytes32, bigEndian 32 digest.val = bigEndian 32 d.val → digest = d := by
      intro d h
      have hvalue := congrArg value h
      rw [value_bigEndian_word, value_bigEndian_word] at hvalue
      exact Fin.ext hvalue
    change Reference.signMessage Reference.signerKey (bigEndian 32 digest.val) = some text at hsig
    unfold Reference.signMessage at hsig
    split_ifs at hsig with hw hs
    · obtain rfl := hdigest _ (Prod.mk.inj hw).2
      obtain rfl := Option.some.inj hsig
      exact ⟨Reference.withdrawR, Reference.withdrawVs, 27, .inl rfl, hexToBytes_bytesToHex _,
        by decide +kernel⟩
    · obtain rfl := hdigest _ (Prod.mk.inj hs).2
      obtain rfl := Option.some.inj hsig
      exact ⟨Reference.settleR, Reference.settleVs, 28, .inr rfl, hexToBytes_bytesToHex _,
        by decide +kernel⟩

open Reference in
/-- The request for a withdrawal, taken apart. -/
def withdrawQuery : AuthRequest :=
  ⟨js "1", bytesToHex (bigEndian 20 vault.val), js "114", bytesToHex (bigEndian 32 commitment.val),
    bytesToHex ciphertext, js "1100", withdrawCallerSignature⟩

open Reference in
theorem withdrawQuery_decoded :
    decodeRequest coston2Runtime withdrawRequest.msg = .ok withdrawQuery := by
  refine decodeRequest_ok.mpr ⟨_, _, hexToBytes_bytesToHex _,
    parse_decode_stringify _ (by decide) (by decide), ?_⟩
  decide +kernel

open Reference in
theorem withdrawQuery_denotes : Denotes coston2 caseMap withdrawQuery 1 commitment := by
  constructor <;> decide +kernel

open Reference in
theorem authorization_spendable_coston2 :
    ∃ w : VaultWorld coston2 Unit, Reached w ∧ (w.state.streams 1).funded.val = 500 ∧
      (payouts (attempt w withdrawCall) 1 : ℤ) = payouts w 1 + 100 := by
  have hfunded : (Runs.run (step (contract coston2) compliant)
      (deployed coston2 employer teeSigner ()) [.call createCall, .call fundCall, .answer true]).any
      (fun c => c.stack.isEmpty ∧ c.world.state.teeSigner = teeSigner ∧
        ((c.world.state.streams 1).employer ≠ 0 ∧ (c.world.state.streams 1).cancelled = false) ∧
        (c.world.state.streams 1).funded.val = 500 ∧
        (c.world.state.streams 1).withdrawn.val = 0 ∧
        (c.world.state.streams 1).commitment = commitment) = true := by decide +kernel
  obtain ⟨⟨w, stack⟩, hrun, hc⟩ := (Option.any_eq_true _ _).mp hfunded
  obtain ⟨hstack, hsigner, hl, hfunds, hdrawn, hcommit⟩ := of_decide_eq_true hc
  obtain rfl := List.isEmpty_iff.mp hstack
  have hw : Reached w := ⟨compliant, employer, teeSigner, (), _, hrun⟩
  have hanswer : (authorize coston2Runtime withdrawRequest.now withdrawRequest.msg
      (Protocol.withdrawTag coston2Viem) ⟨0, []⟩).any (fun r => r.1.status = 1 ∧
        r.1.data.bind callArgs = some (100, 1700, withdrawSignature)) = true := by decide +kernel
  obtain ⟨⟨res, st'⟩, h, hr⟩ := (Option.any_eq_true _ _).mp hanswer
  obtain ⟨hone, hargs⟩ := of_decide_eq_true hr
  have hd : Denotes coston2 caseMap withdrawQuery 1 (w.state.streams 1).commitment := by
    rw [hcommit]
    exact withdrawQuery_denotes
  obtain ⟨data, accrued, deadline, sig, hdata, hcall, hspend⟩ :=
    (authorization_spendable coston2Viem_lawful rfl coston2_signs hw hsigner hl hone
      withdrawQuery_decoded hd).1 h
  rw [hdata, Option.bind_some, hcall] at hargs
  obtain ⟨rfl, rfl, rfl⟩ : accrued = 100 ∧ deadline = 1700 ∧ sig = withdrawSignature := by
    simpa using hargs
  have hdue : min ((100 : Uint256).val : ℤ) (w.state.streams 1).funded.val -
      (w.state.streams 1).withdrawn.val = 100 := by
    rw [hfunds, hdrawn]
    rfl
  obtain ⟨v, payout, -, -, -, htotal⟩ := (hspend withdrawCall rfl (by decide)).2 (by omega)
  exact ⟨w, hw, hfunds, by omega⟩

end StealthWage.System
