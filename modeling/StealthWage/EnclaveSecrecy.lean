import StealthWage.EnclaveSpec

/-! # What a stranger learns

Whoever is no party of the terms gets an answer that is computed without them, so two runs
in which the ciphertexts hold different terms answer alike. -/
namespace StealthWage.Enclave
open Js Json Protocol Words

variable {R : Runtime}

/-- The runtime in which ciphertexts hold what `decrypt` says. -/
def Runtime.holding (R : Runtime) (decrypt : JsString → Bytes → Option Bytes) : Runtime :=
  { R with decrypt := decrypt }

/-- The request's ciphertext holds the blob `b` behind its commitment, and `b` the terms `t`. -/
def Holds (R : Runtime) (msg : JsString) (b : Bytes) (t : StreamTerms) : Prop :=
  ∀ req key, decodeRequest R msg = .ok req → configured R.teeEciesPrivkey = some key →
    (hexToBytes req.encryptedTerms).toOption.bind (R.decrypt key) = some b ∧
    R.viem.keccakHex b = R.caseMap.toLowerCase req.commitment ∧ decodeTerms R.viem b = some t

/-- The address recovered from the request, if any, may not ask about `t`. -/
def Stranger (R : Runtime) (msg tag : JsString) (t : StreamTerms) : Prop :=
  ∀ req issuedAt caller, decodeRequest R msg = .ok req → bigint req.issuedAt = some issuedAt →
    recoverCaller R req tag issuedAt = some caller →
    R.caseMap.toLowerCase caller ∉ permitted R tag t

/-- What a stranger is told: nothing here looks at a ciphertext. -/
def refusal (R : Runtime) (now : ℤ) (msg tag : JsString) : JsString :=
  match decodeRequest R msg with
  | .error text => js "decoding request: " ++ text
  | .ok req =>
    match configured R.teeEciesPrivkey, configured R.teeSignerPrivkey with
    | some _, some _ =>
      match checkIssuedAt req now with
      | .error text => text
      | .ok issuedAt =>
        if (recoverCaller R req tag issuedAt).isSome then
          js "caller is not a party to this stream"
        else js "malformed caller signature"
    | _, _ => js "TEE keys not configured (TEE_ECIES_PRIVKEY / TEE_SIGNER_PRIVKEY)"

theorem openTerms_of_holds {msg key : JsString} {b : Bytes} {t : StreamTerms} {req : AuthRequest}
    (h : Holds R msg b t) (hreq : decodeRequest R msg = .ok req)
    (hkey : configured R.teeEciesPrivkey = some key) : openTerms R key req = .ok (b, t) := by
  obtain ⟨hopen, hk, ht⟩ := h req key hreq hkey
  unfold openTerms
  rw [hopen]
  simp only [hk, ne_eq, not_true_eq_false, if_false, ht]

theorem checkCaller_of_stranger {msg tag : JsString} {t : StreamTerms} {req : AuthRequest}
    {issuedAt : ℤ} (h : Stranger R msg tag t) (hreq : decodeRequest R msg = .ok req)
    (hi : bigint req.issuedAt = some issuedAt) :
    checkCaller R req tag issuedAt t =
      .error (if (recoverCaller R req tag issuedAt).isSome then
        js "caller is not a party to this stream" else js "malformed caller signature") := by
  unfold checkCaller
  cases hc : recoverCaller R req tag issuedAt with
  | none => rfl
  | some caller =>
    have hout := h req issuedAt caller hreq hi hc
    simp only [hout, if_false, Option.isSome_some, if_true]

/-- A stranger's request stops at the caller check or before, with a text that is public. -/
theorem checkRequest_of_stranger {now : ℤ} {msg tag : JsString} {b : Bytes} {t : StreamTerms}
    (hb : Holds R msg b t) (ht : Stranger R msg tag t) :
    checkRequest R now msg tag = .error (refusal R now msg tag) := by
  unfold checkRequest refusal
  cases hreq : decodeRequest R msg with
  | error text => rfl
  | ok req =>
    cases hkey : configured R.teeEciesPrivkey with
    | none => rfl
    | some key =>
      cases hsigner : configured R.teeSignerPrivkey with
      | none => rfl
      | some signerKey =>
        simp only [openTerms_of_holds hb hreq hkey, bind, Except.bind]
        cases hi : checkIssuedAt req now with
        | error text => rfl
        | ok issuedAt =>
          simp only [checkCaller_of_stranger ht hreq (checkIssuedAt_ok.mp hi).1]

theorem authorize_of_stranger {now : Clock} {msg tag : JsString} {b : Bytes} {t : StreamTerms}
    (hb : Holds R msg b t) (ht : Stranger R msg tag t) (st : EnclaveState) :
    authorize R now msg tag st = some (refuse (refusal R now.val msg tag), st) := by
  unfold authorize
  rw [checkRequest_of_stranger hb ht]

/-! ## Many requests -/

/-- The answers to the requests that `own` selects, with those requests. -/
def view (R : Runtime) (own : Request → Bool) :
    EnclaveState → List Request → List (Request × Option HandlerResult)
  | _, [] => []
  | st, q :: qs =>
    let rest := view R own (respond R st q).2 qs
    if own q then (q, (respond R st q).1) :: rest else rest

/-- In the two runs the request's ciphertext holds terms of which its caller is no party. -/
def StrangerInBoth (R : Runtime) (decrypt decrypt' : JsString → Bytes → Option Bytes)
    (msg tag : JsString) : Prop :=
  ∃ b b' t t', Holds (R.holding decrypt) msg b t ∧ Holds (R.holding decrypt') msg b' t' ∧
    Stranger R msg tag t ∧ Stranger R msg tag t'

theorem respond_of_stranger {q : Request} {b : Bytes} {t : StreamTerms}
    (hb : Holds R q.msg b t) (ht : Stranger R q.msg (q.command.tag R.viem) t) (st : EnclaveState) :
    respond R st q =
      (some (refuse (refusal R q.now.val q.msg (q.command.tag R.viem))), st) := by
  unfold respond
  rw [authorize_of_stranger hb ht]

theorem view_eq (decrypt decrypt' : JsString → Bytes → Option Bytes) (own : Request → Bool)
    (qs : List Request)
    (h : ∀ q ∈ qs, own q = true → StrangerInBoth R decrypt decrypt' q.msg (q.command.tag R.viem))
    (st st' : EnclaveState) :
    view (R.holding decrypt) own st qs = view (R.holding decrypt') own st' qs := by
  induction qs generalizing st st' with
  | nil => rfl
  | cons q qs ih =>
    have hrest := ih (fun q' hq' => h q' (List.mem_cons_of_mem q hq'))
    unfold view
    by_cases hown : own q = true
    · obtain ⟨b, b', t, t', hb, hb', ht, ht'⟩ := h q List.mem_cons_self hown
      -- the text of the refusal is the same one, as `refusal` does not decrypt
      have hr : respond (R.holding decrypt) st q =
          (some (refuse (refusal R q.now.val q.msg (q.command.tag R.viem))), st) :=
        respond_of_stranger hb ht st
      have hr' : respond (R.holding decrypt') st' q =
          (some (refuse (refusal R q.now.val q.msg (q.command.tag R.viem))), st') :=
        respond_of_stranger hb' ht' st'
      simp only [hown, if_true, hr, hr', hrest st st']
    · simp only [hown, Bool.false_eq_true, if_false]
      exact hrest _ _

/-- A stranger gets the same answer whatever the ciphertext holds, and so do all of a
stranger's requests in two runs that are otherwise about different terms. -/
theorem confidential (R : Runtime) (decrypt decrypt' : JsString → Bytes → Option Bytes) :
    (∀ (now : Clock) (msg tag : JsString) (b b' : Bytes) (t t' : StreamTerms),
      Holds (R.holding decrypt) msg b t → Holds (R.holding decrypt') msg b' t' →
      Stranger R msg tag t → Stranger R msg tag t' → ∃ res : HandlerResult,
        (∀ st, authorize (R.holding decrypt) now msg tag st = some (res, st)) ∧
        (∀ st, authorize (R.holding decrypt') now msg tag st = some (res, st)) ∧
        res.status = 0 ∧ res.data = none) ∧
    (∀ (own : Request → Bool) (qs : List Request),
      (∀ q ∈ qs, own q = true → StrangerInBoth R decrypt decrypt' q.msg (q.command.tag R.viem)) →
      ∀ st st', view (R.holding decrypt) own st qs = view (R.holding decrypt') own st' qs) := by
  constructor
  · intro now msg tag b b' t t' hb hb' ht ht'
    refine ⟨refuse (refusal R now.val msg tag), ?_, ?_, rfl, rfl⟩
    · exact authorize_of_stranger hb ht
    · exact authorize_of_stranger hb' ht'
  · exact fun own qs h st st' => view_eq decrypt decrypt' own qs h st st'

end StealthWage.Enclave
