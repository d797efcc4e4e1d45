import StealthWage.SystemSpendable

/-! # The recipient's page

The page shows `available`, from the terms it was given and the public record, and offers a
withdrawal when it is positive. The record says whether the stream is cancelled; the page does
not look. -/
namespace StealthWage.System
open CallStack Enclave Js Json Protocol Vault Words

variable {ch : Chain} {E : Type*} {R : Runtime}

/-- What the page shows as available now. -/
def available (terms : StreamTerms) (stream : Stream) (now : ℤ) : ℤ :=
  let accrued := accruedAt terms now
  (if accrued > stream.funded.val then (stream.funded.val : ℤ) else accrued) - stream.withdrawn.val

theorem available_eq_min (terms : StreamTerms) (stream : Stream) (now : ℤ) :
    available terms stream now =
      min (accruedAt terms now) stream.funded.val - stream.withdrawn.val := by
  simp only [available]
  split_ifs with h
  · rw [min_eq_right h.le]
  · rw [min_eq_left (not_lt.mp h)]

/-- The call does to stream `id` what the page announces: a positive amount is sent to the
recipient, and nothing else is accepted. -/
structure PaysShown (w : VaultWorld ch E) (m : Msg ch) (id : Uint256) (shown : ℤ) : Prop where
  pays : 0 < shown → ∃ v payout, (payout.val : ℤ) = shown ∧
    enter ch m w.state = .ok (.call v
      (transfer ch (w.state.streams id).token (w.state.streams id).recipient payout id .payout)
      (.withdrawn id payout)) ∧
    (∀ v', ∃ v'', resume ch (.withdrawn id payout) true v' = .ok (.done v'')) ∧
    (payouts (attempt w m) id : ℤ) = payouts w id + shown
  refuses : shown ≤ 0 → ∃ e, enter ch m w.state = .error e

/-- The page and the enclave, holding terms under one commitment, agree on what has accrued. -/
theorem accruedAt_committed (hV : R.viem.Lawful) (hk : R.viem.keccak256 = ch.keccak256)
    {H : Set Bytes} (hH : Set.InjOn ch.keccak256 H) {b : Bytes} (hb : b ∈ H) {t : StreamTerms}
    (ht : decodeTerms R.viem b = some t ∨ encodeTerms R.viem t = some b) {now issuedAt : ℤ}
    {msg tag : JsString} {a : Checked} (hp : Passed R now msg tag a issuedAt)
    (ha : a.termsHex ∈ H) (hc : R.caseMap.toLowerCase a.req.commitment =
      bytesToHex (bigEndian 32 (ch.keccak256 b).val)) (s : ℤ) :
    accruedAt a.terms s = accruedAt t s := by
  have hhash : ch.keccak256 a.termsHex = ch.keccak256 b := by
    have htext := hp.commitment.trans hc
    rw [Viem.keccakHex, hk] at htext
    have hvalue := congrArg value (bytesToHex_injective htext)
    rw [value_bigEndian_word, value_bigEndian_word] at hvalue
    exact Fin.ext hvalue
  have hterms := hp.terms
  rw [hH ha hb hhash] at hterms
  rcases ht with ht | ht
  · obtain rfl := Option.some.inj (hterms.symm.trans ht)
    rfl
  · exact (accruedAt_encoded hV ht hterms s).symm

theorem enter_cancelled {m : Msg ch} {v : StreamVault} {id accrued deadline : Uint256}
    {sig : Bytes} (he : m.entry = .withdraw id accrued deadline sig)
    (hc : (v.streams id).cancelled = true) : ∃ e, enter ch m v = .error e := by
  have henter : enter ch m v = withdraw ch m.timestamp id accrued deadline sig v := by
    simp only [enter, he]
  rw [henter]
  cases h : withdraw ch m.timestamp id accrued deadline sig v with
  | error e => exact ⟨e, rfl⟩
  | ok r =>
    obtain ⟨-, ⟨-, hlive⟩, -⟩ := (withdraw_eq_ok ch).mp h
    rw [hc] at hlive
    cases hlive

/-- Any spelling of the commitment counts. What is shown is paid if and only if the stream is
not cancelled, or nothing is shown. -/
theorem dashboard_pays (hV : R.viem.Lawful) (hk : R.viem.keccak256 = ch.keccak256)
    {signer : Address} (hS : SignsAs R ch signer) {H : Set Bytes}
    (hH : Set.InjOn ch.keccak256 H) {w : VaultWorld ch E} (hw : Reached w)
    (hsigner : w.state.teeSigner = signer) {id : Uint256}
    (hexists : (w.state.streams id).employer ≠ 0) {t : StreamTerms} {b : Bytes}
    (ht : decodeTerms R.viem b = some t ∨ encodeTerms R.viem t = some b) (hb : b ∈ H)
    (hc : (w.state.streams id).commitment = ch.keccak256 b) {now : Clock} {msg : JsString}
    {st st' : EnclaveState} {res : HandlerResult} {req : AuthRequest} (hone : res.status = 1)
    (hreq : decodeRequest R msg = .ok req)
    (hd : Denotes ch R.caseMap req id (w.state.streams id).commitment)
    (h : authorize R now msg (Protocol.withdrawTag R.viem) st = some (res, st'))
    (hopened : ∀ e ∈ st'.signed, e.terms ∈ H) :
    ∃ data accrued deadline sig, res.data = some data ∧
      callArgs data = some (accrued, deadline, sig) ∧
      ∀ m : Msg ch, m.entry = .withdraw id accrued deadline sig → m.timestamp ≤ deadline →
        (PaysShown w m id (available t (w.state.streams id) now.val) ↔
          (w.state.streams id).cancelled = false ∨
            available t (w.state.streams id) now.val ≤ 0) := by
  obtain ⟨a, p, rfl, hg⟩ := granted_of_status h hone hreq
  have htag : Protocol.withdrawTag R.viem =
      bytesToHex (bigEndian 32 (Vault.withdrawTag ch.keccak256).val) := by
    rw [← hk]
    rfl
  obtain ⟨data, accrued, deadline, sig, hdata, hargs, haccrued, -, hauth⟩ :=
    granted_authorized hV hk hS htag hg hd hsigner
  have hshown : available t (w.state.streams id) now.val =
      min (accrued.val : ℤ) (w.state.streams id).funded.val -
        (w.state.streams id).withdrawn.val := by
    obtain ⟨issuedAt, hp⟩ := hg.passed
    obtain ⟨digest, signature, -, -, -, rfl⟩ := hg.signature
    have ha : a.termsHex ∈ H := hopened _ (List.mem_append_right _ (List.mem_singleton_self _))
    have hcommit := hd.commitment
    rw [hc] at hcommit
    rw [available_eq_min, haccrued, accruedAt_committed hV hk hH hb ht hp ha hcommit]
  refine ⟨data, accrued, deadline, sig, hdata, hargs, fun m he hle => ⟨fun hpays => ?_, ?_⟩⟩
  · cases hcancelled : (w.state.streams id).cancelled with
    | false => exact .inl rfl
    | true =>
      right
      by_contra hpos
      obtain ⟨e, herror⟩ := enter_cancelled he hcancelled
      obtain ⟨v, payout, -, hcall, -, -⟩ := hpays.pays (not_le.mp hpos)
      rw [herror] at hcall
      cases hcall
  · cases hcancelled : (w.state.streams id).cancelled with
    | false =>
      intro _
      obtain ⟨hnothing, hpays⟩ := withdraw_authorized hw ⟨hexists, hcancelled⟩ he (hauth _ hle)
      rw [hshown]
      refine ⟨fun hpos => ?_, fun hnone => ⟨_, hnothing.mpr hnone⟩⟩
      obtain ⟨v, payout, hpayout, hcall, htotal⟩ := hpays hpos
      exact ⟨v, payout, hpayout, hcall, fun v' => ⟨_, rfl⟩, htotal⟩
    | true =>
      rintro (hlive | hnone)
      · cases hlive
      · exact ⟨fun hpos => absurd hnone (not_le.mpr hpos), fun _ => enter_cancelled he hcancelled⟩

open Reference in
/-- The whole balance of a stream that runs. -/
theorem dashboard_pays_coston2 :
    ∃ w : VaultWorld coston2 Unit, Reached w ∧ (w.state.streams 1).cancelled = false ∧
      available streamTerms (w.state.streams 1) 1100 = 100 ∧ PaysShown w withdrawCall 1 100 := by
  have hfunded : (Runs.run (step (contract coston2) compliant)
      (deployed coston2 employer teeSigner ()) [.call createCall, .call fundCall, .answer true]).any
      (fun c => c.stack.isEmpty ∧ c.world.state.teeSigner = teeSigner ∧
        (c.world.state.streams 1).employer ≠ 0 ∧ (c.world.state.streams 1).cancelled = false ∧
        available streamTerms (c.world.state.streams 1) 1100 = 100 ∧
        (c.world.state.streams 1).commitment = commitment) = true := by decide +kernel
  obtain ⟨⟨w, stack⟩, hrun, hc⟩ := (Option.any_eq_true _ _).mp hfunded
  obtain ⟨hstack, hsigner, hexists, hlive, hshown, hcommit⟩ := of_decide_eq_true hc
  obtain rfl := List.isEmpty_iff.mp hstack
  have hw : Reached w := ⟨compliant, employer, teeSigner, (), _, hrun⟩
  have hanswer : (authorize coston2Runtime withdrawRequest.now withdrawRequest.msg
      (Protocol.withdrawTag coston2Viem) ⟨0, []⟩).any (fun r => r.1.status = 1 ∧
        r.2.signed = [withdrawSigning] ∧
        r.1.data.bind callArgs = some (100, 1700, withdrawSignature)) = true := by decide +kernel
  obtain ⟨⟨res, st'⟩, h, hr⟩ := (Option.any_eq_true _ _).mp hanswer
  obtain ⟨hone, hsigned, hargs⟩ := of_decide_eq_true hr
  have hopened : ∀ e ∈ st'.signed, e.terms ∈ {x | x ∈ hashed} := by
    intro e he
    rw [hsigned] at he
    obtain rfl := List.mem_singleton.mp he
    decide +kernel
  have hd : Denotes coston2 caseMap withdrawQuery 1 (w.state.streams 1).commitment := by
    rw [hcommit]
    exact withdrawQuery_denotes
  have hH : terms ∈ {x | x ∈ hashed} := by decide +kernel
  obtain ⟨data, accrued, deadline, sig, hdata, hcall, hspend⟩ :=
    dashboard_pays coston2Viem_lawful rfl coston2_signs hashed_injOn hw hsigner hexists
      (.inl decodeTerms_terms) hH (hcommit.trans (by decide +kernel)) hone
      withdrawQuery_decoded hd h hopened
  rw [hdata, Option.bind_some, hcall] at hargs
  obtain ⟨rfl, rfl, rfl⟩ : accrued = 100 ∧ deadline = 1700 ∧ sig = withdrawSignature := by
    simpa using hargs
  have hpays := (hspend withdrawCall rfl (by decide)).mpr (.inl hlive)
  rw [show (withdrawRequest.now.val : ℤ) = 1100 from rfl, hshown] at hpays
  exact ⟨w, hw, hlive, hshown, hpays⟩

/-! ## A settled stream

The stream on Coston2 was settled at 200 units and the other 300 were refunded. At second 1800
its employer asks for a withdrawal. -/

section settled

open Reference

def lateChallenge : Bytes32 := 0x242c3232b88ea1c8f75d4dcdbaab78e9c993254da030b224d516063cec6b3ba6
def latePreimage : Bytes := abiEncode [withdrawHash, 114, addressWord vault, 1, commitment, 800, 2400]
def lateDigest : Bytes32 := 0x5bdbe23e2c1f6a27e77561bb6e6209839c1e3703c38fd4f3bc4f6eb912db8fd4

def lateSignature : Bytes := abiEncode [
  0x5cfd664b4cbc47c8735c48769133b4aa456c032ac41034048cfba19703d550a1,
  0x3b157c7121a376037f2ed914b71ba1937c127d986de0adb4cf77f45ff3552f47] ++ [28]
def lateCallerSignature : JsString := bytesToHex (abiEncode [
  0x1fdf7a53a8597eaf015a7399fbafa0bcb19f1d2611fe560a312ab856c0f0fd50,
  0x356460165873e355f174814c086c5a0ffa7402ba1aa0514aa24ee0298f1de639] ++ [28])

/-- The hash is known at two more arguments, and so are the signers. -/
def lateKeccak256 (b : Bytes) : Bytes32 :=
  if b = latePreimage then lateDigest
  else if b = abiEncode [callerHash, 114, addressWord vault, 1, commitment, withdrawHash, 1800] then
    lateChallenge
  else keccak256 b

def lateViem : Viem := viem lateKeccak256
  (fun raw signature => if (raw, signature) = (bigEndian 32 lateChallenge.val, lateCallerSignature)
    then some (checksumAddress keccak256 employer) else recoverMessageAddress raw signature)
  (fun key raw => if (key, raw) = (signerKey, bigEndian 32 lateDigest.val)
    then some (bytesToHex lateSignature) else signMessage key raw)

def lateRuntime : Runtime := { coston2Runtime with viem := lateViem }

def lateCoston2 : Chain := ⟨114, vault, lateKeccak256, ecrecover⟩

def lateRequest : Request :=
  ⟨⟨1800, by decide⟩, message (js "1800") lateCallerSignature, .authWithdraw⟩

def lateQuery : AuthRequest :=
  ⟨js "1", bytesToHex (bigEndian 20 vault.val), js "114", bytesToHex (bigEndian 32 commitment.val),
    bytesToHex ciphertext, js "1800", lateCallerSignature⟩

/-- The same calls as before, on the chain with the larger table. -/
def settledEvents : List (Event (Msg lateCoston2) Unit) :=
  [.call ⟨employer, 900, createCall.entry, createCall.sender_ne_zero, by decide⟩,
    .call ⟨employer, 950, fundCall.entry, fundCall.sender_ne_zero, by decide⟩, .answer true,
    .call ⟨employer, 1700, cancelCall.entry, cancelCall.sender_ne_zero, by decide⟩, .answer true,
    .answer true]

/-- The page shows what was refunded to the employer; the enclave signs and the vault refuses. -/
theorem cancelled_counterexample :
    ∃ w : VaultWorld lateCoston2 Unit, Reached w ∧ w.state.teeSigner = teeSigner ∧
      (w.state.streams 1).employer ≠ 0 ∧
      decodeTerms lateViem terms = some streamTerms ∧
      (w.state.streams 1).commitment = lateKeccak256 terms ∧
      decodeRequest lateRuntime lateRequest.msg = .ok lateQuery ∧
      Denotes lateCoston2 caseMap lateQuery 1 (w.state.streams 1).commitment ∧
      (∃ res st', authorize lateRuntime lateRequest.now lateRequest.msg
          (Protocol.withdrawTag lateViem) ⟨0, []⟩ = some (res, st') ∧ res.status = 1 ∧
        res.data.bind callArgs = some (800, 2400, lateSignature)) ∧
      available streamTerms (w.state.streams 1) lateRequest.now.val = 300 ∧
      ∀ m : Msg lateCoston2, m.entry = .withdraw 1 800 2400 lateSignature →
        (∃ e, enter lateCoston2 m w.state = .error e) ∧ ¬ PaysShown w m 1 300 := by
  have hsettled : (Runs.run (step (contract lateCoston2) compliant)
      (deployed lateCoston2 employer teeSigner ()) settledEvents).any
      (fun c => c.stack.isEmpty ∧ c.world.state.teeSigner = teeSigner ∧
        (c.world.state.streams 1).employer ≠ 0 ∧ (c.world.state.streams 1).cancelled = true ∧
        (c.world.state.streams 1).commitment = commitment ∧
        available streamTerms (c.world.state.streams 1) 1800 = 300) = true := by decide +kernel
  obtain ⟨⟨w, stack⟩, hrun, hc⟩ := (Option.any_eq_true _ _).mp hsettled
  obtain ⟨hstack, hsigner, hexists, hcancelled, hcommit, hshown⟩ := of_decide_eq_true hc
  obtain rfl := List.isEmpty_iff.mp hstack
  have hanswer : (authorize lateRuntime lateRequest.now lateRequest.msg
      (Protocol.withdrawTag lateViem) ⟨0, []⟩).any (fun r => r.1.status = 1 ∧
        r.1.data.bind callArgs = some (800, 2400, lateSignature)) = true := by decide +kernel
  obtain ⟨⟨res, st'⟩, h, hr⟩ := (Option.any_eq_true _ _).mp hanswer
  have hread : decodeRequest lateRuntime lateRequest.msg = .ok lateQuery := by
    refine decodeRequest_ok.mpr ⟨_, _, hexToBytes_bytesToHex _,
      parse_decode_stringify _ (by decide) (by decide), ?_⟩
    decide +kernel
  have hd : Denotes lateCoston2 caseMap lateQuery 1 (w.state.streams 1).commitment := by
    rw [hcommit]
    constructor <;> decide +kernel
  refine ⟨w, ⟨compliant, employer, teeSigner, (), _, hrun⟩, hsigner, hexists, by decide +kernel,
    hcommit.trans (by decide +kernel), hread, hd, ⟨res, st', h, of_decide_eq_true hr⟩, hshown, ?_⟩
  intro m he
  obtain ⟨e, herror⟩ := enter_cancelled he hcancelled
  refine ⟨⟨e, herror⟩, fun hpays => ?_⟩
  obtain ⟨v, payout, -, hcall, -, -⟩ := hpays.pays (by decide)
  rw [herror] at hcall
  cases hcall

end settled

end StealthWage.System
