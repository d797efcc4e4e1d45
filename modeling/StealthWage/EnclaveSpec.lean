import StealthWage.Enclave
import StealthWage.JsonRoundtrip
import StealthWage.ProtocolDigest

/-! # What an answer of the enclave says

`Granted` lists what is known once a request was signed. Every other request is refused,
without data, a signature or a change of state; with well-formed keys nothing throws. -/
namespace StealthWage.Enclave
open Js Json Protocol Utf8 Words
open Vault (Bytes32)

variable {R : Runtime}

theorem bind_ok {ε α β : Type} {x : Except ε α} {f : α → Except ε β} {b : β} :
    (x >>= f) = .ok b ↔ ∃ a, x = .ok a ∧ f a = .ok b := by
  cases x <;> simp [bind, Except.bind]

/-! ## The request -/

/-- The message is hex of UTF-8 of a JSON object with the seven fields and no other. -/
def Spells (msg : JsString) (req : AuthRequest) : Prop :=
  ∃ raw members, hexToBytes msg = .ok raw ∧ parse (decode raw) = some (.object members) ∧
    (∀ m ∈ members, m.1 ∈ requiredFields) ∧
    stringField members (js "streamId") = some req.streamId ∧
    stringField members (js "vault") = some req.vault ∧
    stringField members (js "chainId") = some req.chainId ∧
    stringField members (js "commitment") = some req.commitment ∧
    stringField members (js "encryptedTerms") = some req.encryptedTerms ∧
    stringField members (js "issuedAt") = some req.issuedAt ∧
    stringField members (js "callerSignature") = some req.callerSignature

theorem requireField_ok {members : List (JsString × Value)} {f s : JsString} :
    requireField members f = .ok s ↔ stringField members f = some s := by
  unfold requireField
  cases stringField members f <;> simp

theorem unknownFields_nil {members : List (JsString × Value)} :
    unknownFields members = [] ↔ ∀ m ∈ members, m.1 ∈ requiredFields := by
  unfold unknownFields
  rw [← List.length_eq_zero_iff, List.length_insertionSort, List.length_eq_zero_iff,
    List.filter_eq_nil_iff]
  simp

theorem readRequest_ok {members : List (JsString × Value)} {req : AuthRequest} :
    readRequest members = .ok req ↔ (∀ m ∈ members, m.1 ∈ requiredFields) ∧
      stringField members (js "streamId") = some req.streamId ∧
      stringField members (js "vault") = some req.vault ∧
      stringField members (js "chainId") = some req.chainId ∧
      stringField members (js "commitment") = some req.commitment ∧
      stringField members (js "encryptedTerms") = some req.encryptedTerms ∧
      stringField members (js "issuedAt") = some req.issuedAt ∧
      stringField members (js "callerSignature") = some req.callerSignature := by
  rw [← unknownFields_nil, readRequest]
  cases hu : unknownFields members with
  | cons k ks => simp
  | nil =>
    simp only [bind_ok, requireField_ok, pure, Except.pure, Except.ok.injEq, true_and]
    constructor
    · rintro ⟨s, hs, v, hv, c, hc, m, hm, e, he, i, hi, g, hg, rfl⟩
      exact ⟨hs, hv, hc, hm, he, hi, hg⟩
    · rintro ⟨hs, hv, hc, hm, he, hi, hg⟩
      exact ⟨_, hs, _, hv, _, hc, _, hm, _, he, _, hi, _, hg, rfl⟩

theorem decodeRequest_ok {msg : JsString} {req : AuthRequest} :
    decodeRequest R msg = .ok req ↔ Spells msg req := by
  unfold decodeRequest Spells
  rw [bind_ok]
  refine exists_congr fun raw => ?_
  cases hp : parse (decode raw) with
  | none => simp
  | some v =>
    cases v with
    | object members =>
      simp only [readRequest_ok, Option.some.injEq, Value.object.injEq]
      constructor
      · rintro ⟨hr, h⟩
        exact ⟨members, hr, rfl, h⟩
      · rintro ⟨members', hr, rfl, h⟩
        exact ⟨hr, h⟩
    | _ => simp

/-! ## The checks -/

theorem openTerms_ok {key : JsString} {req : AuthRequest} {b : Bytes} {t : StreamTerms} :
    openTerms R key req = .ok (b, t) ↔
      (∃ ciphertext, hexToBytes req.encryptedTerms = .ok ciphertext ∧
        R.decrypt key ciphertext = some b) ∧
      R.viem.keccakHex b = R.caseMap.toLowerCase req.commitment ∧
      decodeTerms R.viem b = some t := by
  unfold openTerms
  cases hc : hexToBytes req.encryptedTerms with
  | error e => simp [Except.toOption]
  | ok ciphertext =>
    simp only [Except.toOption, Option.bind_some, Except.ok.injEq, exists_eq_left']
    cases hd : R.decrypt key ciphertext with
    | none => simp
    | some b' =>
      simp only [Option.some.injEq]
      by_cases hk : R.viem.keccakHex b' = R.caseMap.toLowerCase req.commitment
      · simp only [hk, ne_eq, not_true_eq_false, if_false]
        cases ht : decodeTerms R.viem b' with
        | none =>
          simp only [reduceCtorEq, false_iff, not_and]
          rintro rfl - hdec
          simp [ht] at hdec
        | some t' =>
          simp only [Except.ok.injEq, Prod.mk.injEq]
          constructor
          · rintro ⟨rfl, rfl⟩
            exact ⟨rfl, hk, ht⟩
          · rintro ⟨rfl, -, hdec⟩
            exact ⟨rfl, Option.some.inj (ht.symm.trans hdec)⟩
      · simp only [hk, ne_eq, not_false_eq_true, if_true, reduceCtorEq, false_iff, not_and]
        rintro rfl hk'
        exact absurd hk' hk

theorem checkIssuedAt_ok {req : AuthRequest} {now issuedAt : ℤ} :
    checkIssuedAt req now = .ok issuedAt ↔
      bigint req.issuedAt = some issuedAt ∧ |issuedAt - now| ≤ 300 := by
  unfold checkIssuedAt
  cases bigint req.issuedAt with
  | none => simp
  | some i =>
    have hskew : (if i > now then i - now else now - i) = |i - now| := by
      split_ifs with h
      · rw [abs_of_nonneg (by omega)]
      · rw [abs_of_nonpos (by omega)]
        omega
    simp only [hskew, callerAuthWindowSeconds, Option.some.injEq]
    split_ifs with h
    · simp only [false_iff, not_and]
      rintro rfl
      omega
    · simp only [Except.ok.injEq]
      constructor
      · rintro rfl
        exact ⟨rfl, by omega⟩
      · rintro ⟨rfl, -⟩
        rfl

theorem checkCaller_ok {req : AuthRequest} {tag : JsString} {issuedAt : ℤ} {t : StreamTerms} :
    checkCaller R req tag issuedAt t = .ok () ↔
      ∃ caller, recoverCaller R req tag issuedAt = some caller ∧
        R.caseMap.toLowerCase caller ∈ permitted R tag t := by
  unfold checkCaller
  cases recoverCaller R req tag issuedAt with
  | none => simp
  | some caller =>
    simp only [Option.some.injEq, exists_eq_left']
    split_ifs with h <;> simp [h]

/-- The checks that a request has passed, one for each early exit. -/
structure Passed (R : Runtime) (now : ℤ) (msg tag : JsString) (a : Checked) (issuedAt : ℤ) :
    Prop where
  spells : Spells msg a.req
  keys : ∃ key, configured R.teeEciesPrivkey = some key ∧
    configured R.teeSignerPrivkey = some a.signerKey ∧
    ∃ ciphertext, hexToBytes a.req.encryptedTerms = .ok ciphertext ∧
      R.decrypt key ciphertext = some a.termsHex
  commitment : R.viem.keccakHex a.termsHex = R.caseMap.toLowerCase a.req.commitment
  terms : decodeTerms R.viem a.termsHex = some a.terms
  issuedAt_eq : bigint a.req.issuedAt = some issuedAt
  recent : |issuedAt - now| ≤ 300
  caller : ∃ caller, recoverCaller R a.req tag issuedAt = some caller ∧
    R.caseMap.toLowerCase caller ∈ permitted R tag a.terms

theorem checkRequest_ok {now : ℤ} {msg tag : JsString} {a : Checked} :
    checkRequest R now msg tag = .ok a ↔ ∃ issuedAt, Passed R now msg tag a issuedAt := by
  unfold checkRequest
  constructor
  · intro h
    split at h
    next => simp at h
    next req hreq =>
      split at h
      next key signerKey hkey hsigner =>
        simp only [bind_ok, openTerms_ok, checkIssuedAt_ok, Prod.exists] at h
        obtain ⟨b, t, ⟨⟨c, hc, hb⟩, hk, ht⟩, issuedAt, ⟨hi, hskew⟩, _, hchecked, ha⟩ := h
        have hcaller := checkCaller_ok.mp hchecked
        obtain rfl := Except.ok.inj ha
        exact ⟨issuedAt, decodeRequest_ok.mp hreq, ⟨key, hkey, hsigner, c, hc, hb⟩, hk, ht, hi,
          hskew, hcaller⟩
      next => simp at h
  · rintro ⟨issuedAt, hspells, ⟨key, hkey, hsigner, c, hc, hb⟩, hk, ht, hi, hskew, hcaller⟩
    have hreq : decodeRequest R msg = .ok a.req := decodeRequest_ok.mpr hspells
    rw [hreq, hkey, hsigner]
    have hopen := openTerms_ok.mpr ⟨⟨c, hc, hb⟩, hk, ht⟩
    have hissued := checkIssuedAt_ok.mpr ⟨hi, hskew⟩
    have hchecked := checkCaller_ok.mpr hcaller
    simp only [hopen, hissued, hchecked, bind, Except.bind, pure, Except.pure]

/-! ## The answer -/

/-- What is known of a request that was signed, and of the answer. -/
structure Granted (R : Runtime) (now : ℤ) (msg tag : JsString) (st : EnclaveState)
    (a : Checked) (p : AuthParams) (res : HandlerResult) (st' : EnclaveState) : Prop where
  passed : ∃ issuedAt, Passed R now msg tag a issuedAt
  params : authParams a tag now = some p
  signature : ∃ digest signature, buildAuthDigest R.caseMap R.viem p = some digest ∧
    R.viem.signMessage a.signerKey (bigEndian 32 digest.val) = some signature ∧
    res = ⟨some (bytesToHex (encode (stringify (response a p signature)))), 1, none⟩ ∧
    st' = ⟨st.authCount + 1, st.signed ++ [⟨p, now, a.termsHex, digest⟩]⟩

theorem authParams_eq_some {a : Checked} {tag : JsString} {now : ℤ} {p : AuthParams} :
    authParams a tag now = some p ↔ bigint a.req.chainId = some p.chainId ∧
      bigint a.req.streamId = some p.streamId ∧ p.tag = tag ∧ p.vault = a.req.vault ∧
      p.commitment = a.req.commitment ∧ p.cumulativeAccrued = accruedAt a.terms now ∧
      p.deadline = now + authTtlSeconds := by
  simp only [authParams, Option.bind_eq_bind, Option.bind_eq_some_iff, pure, Option.some.injEq]
  constructor
  · rintro ⟨c, hc, i, hi, rfl⟩
    exact ⟨hc, hi, rfl, rfl, rfl, rfl, rfl⟩
  · obtain ⟨tag', c, v, i, m, x, d⟩ := p
    rintro ⟨hc, hi, rfl, rfl, rfl, rfl, rfl⟩
    exact ⟨c, hc, i, hi, rfl⟩

theorem authParams_unique {a : Checked} {tag : JsString} {now chainId streamId : ℤ} {p : AuthParams}
    (h : authParams a tag now = some p) (hc : bigint a.req.chainId = some chainId)
    (hi : bigint a.req.streamId = some streamId) :
    p = ⟨tag, chainId, a.req.vault, streamId, a.req.commitment, accruedAt a.terms now,
      now + 600⟩ := by
  rw [authParams, hc, hi] at h
  exact (Option.some.inj h).symm

theorem sign_eq_some {a : Checked} {tag : JsString} {now : ℤ} {st : EnclaveState}
    {r : HandlerResult × EnclaveState} :
    sign R a tag now st = some r ↔ ∃ p digest signature, authParams a tag now = some p ∧
      buildAuthDigest R.caseMap R.viem p = some digest ∧
      R.viem.signMessage a.signerKey (bigEndian 32 digest.val) = some signature ∧
      r = (⟨some (bytesToHex (encode (stringify (response a p signature)))), 1, none⟩,
        ⟨st.authCount + 1, st.signed ++ [⟨p, now, a.termsHex, digest⟩]⟩) := by
  simp only [sign, Option.bind_eq_bind, Option.bind_eq_some_iff, pure, Option.some.injEq]
  constructor
  · rintro ⟨p, hp, d, hd, g, hg, rfl⟩
    exact ⟨p, d, g, hp, hd, hg, rfl⟩
  · rintro ⟨p, d, g, hp, hd, hg, rfl⟩
    exact ⟨p, hp, d, hd, g, hg, rfl⟩

/-- An answer is a refusal that changes nothing, or it was granted. -/
theorem authorize_cases {now : Clock} {msg tag : JsString} {st st' : EnclaveState}
    {res : HandlerResult} (h : authorize R now msg tag st = some (res, st')) :
    (∃ text, res = refuse text ∧ st' = st) ∨
    ∃ a p, Granted R now.val msg tag st a p res st' := by
  unfold authorize at h
  split at h
  next text _ =>
    obtain ⟨rfl, rfl⟩ := Prod.mk.inj (Option.some.inj h)
    exact .inl ⟨text, rfl, rfl⟩
  next a ha =>
    obtain ⟨p, digest, signature, hp, hd, hg, hr⟩ := sign_eq_some.mp h
    obtain ⟨rfl, rfl⟩ := Prod.mk.inj hr
    exact .inr ⟨a, p, checkRequest_ok.mp ha, hp, digest, signature, hd, hg, rfl, rfl⟩

/-! ## Nothing throws -/

/-- The signing key, if one is configured, signs. -/
def KeysWork (R : Runtime) : Prop :=
  ∀ key raw, configured R.teeSignerPrivkey = some key → (R.viem.signMessage key raw).isSome

theorem challengeOf_eq_some {req : AuthRequest} {purpose : JsString} {issuedAt : ℤ} {d : Bytes32} :
    challengeOf R req purpose issuedAt = some d ↔ ∃ chainId streamId,
      bigint req.chainId = some chainId ∧ bigint req.streamId = some streamId ∧
      buildCallerChallenge R.caseMap R.viem
        ⟨chainId, req.vault, streamId, req.commitment, purpose, issuedAt⟩ = some d := by
  simp only [challengeOf, Option.bind_eq_bind, Option.bind_eq_some_iff, exists_and_left]

theorem recoverCaller_eq_some {req : AuthRequest} {purpose caller : JsString} {issuedAt : ℤ} :
    recoverCaller R req purpose issuedAt = some caller ↔
      ∃ chainId streamId challenge, bigint req.chainId = some chainId ∧
        bigint req.streamId = some streamId ∧
        buildCallerChallenge R.caseMap R.viem
          ⟨chainId, req.vault, streamId, req.commitment, purpose, issuedAt⟩ = some challenge ∧
        R.viem.recoverMessageAddress (bigEndian 32 challenge.val) req.callerSignature =
          some caller := by
  simp only [recoverCaller, Option.bind_eq_bind, Option.bind_eq_some_iff, challengeOf_eq_some]
  constructor
  · rintro ⟨d, ⟨c, i, hc, hi, hd⟩, hrec⟩
    exact ⟨c, i, d, hc, hi, hd, hrec⟩
  · rintro ⟨c, i, d, hc, hi, hd, hrec⟩
    exact ⟨d, ⟨c, i, hc, hi, hd⟩, hrec⟩

/-- Building the challenge has checked every value that the digest is built from. -/
theorem Passed.inRange (hV : R.viem.Lawful) {now : Clock} {msg tag : JsString} {a : Checked}
    {issuedAt : ℤ} (hp : Passed R now.val msg tag a issuedAt) :
    ∃ p, authParams a tag now.val = some p ∧ (0 ≤ p.chainId ∧ p.chainId < 2 ^ 256) ∧
      (0 ≤ p.streamId ∧ p.streamId < 2 ^ 256) ∧ R.viem.isAddress p.vault = true ∧
      (0 ≤ p.cumulativeAccrued ∧ p.cumulativeAccrued < 2 ^ 256) ∧
      (0 ≤ p.deadline ∧ p.deadline < 2 ^ 256) ∧
      R.caseMap.toLowerCase p.commitment = R.viem.keccakHex a.termsHex := by
  obtain ⟨caller, hrec, -⟩ := hp.caller
  obtain ⟨chainId, streamId, d, hc, hi, hd, -⟩ := recoverCaller_eq_some.mp hrec
  obtain ⟨b, henc, -⟩ := Option.map_eq_some_iff.mp hd
  obtain ⟨w1, w2, w3, w4, w5, w6, w7, -, -, h2, h3, h4, -, -, h7⟩ := encode_seven hV henc
  have hissued : 0 ≤ issuedAt := h7.1
  have hskew := abs_le.mp hp.recent
  have hclock := now.2
  have haccrued := accruedAt_decoded hV hp.terms now.val
  refine ⟨⟨tag, chainId, a.req.vault, streamId, a.req.commitment, accruedAt a.terms now.val,
    now.val + authTtlSeconds⟩, ?_, ⟨h2.1, h2.2.1⟩, ⟨h4.1, h4.2.1⟩, h3.1, haccrued, ?_,
    hp.commitment.symm⟩
  · exact authParams_eq_some.mpr ⟨hc, hi, rfl, rfl, rfl, rfl, rfl⟩
  · simp only [authTtlSeconds]
    exact ⟨by omega, by omega⟩

theorem Passed.digest (hV : R.viem.Lawful) {now : Clock} {msg tag : JsString} {a : Checked}
    {issuedAt : ℤ} (htag : tag = withdrawTag R.viem ∨ tag = settleTag R.viem)
    (hp : Passed R now.val msg tag a issuedAt) : ∃ p digest,
      authParams a tag now.val = some p ∧ buildAuthDigest R.caseMap R.viem p = some digest := by
  obtain ⟨p, hparams, hchain, hstream, hvault, haccrued, hdeadline, hcommit⟩ := hp.inRange hV
  obtain ⟨-, -, hptag, -⟩ := authParams_eq_some.mp hparams
  have hhash : ∀ w : Word, (spelled 32 (bytesToHex (bigEndian 32 w.val))).isSome := by
    intro w
    rw [spelled_word w]
    rfl
  have htagok : (spelled 32 p.tag).isSome := by
    rcases htag with rfl | rfl
    · exact hptag ▸ hhash _
    · exact hptag ▸ hhash _
  have hok : (R.viem.encodeAbiParameters (authValues R.caseMap p)).isSome := by
    apply hV.encode_isSome
    simp only [authValues, List.forall_mem_cons, List.not_mem_nil, false_imp_iff, implies_true,
      and_true, Viem.InRange]
    exact ⟨htagok, ⟨le_rfl, hchain⟩, hvault, ⟨le_rfl, hstream⟩, hcommit ▸ hhash _,
        ⟨le_rfl, haccrued⟩, ⟨le_rfl, hdeadline⟩⟩
  obtain ⟨b, hb⟩ := Option.isSome_iff_exists.mp hok
  exact ⟨p, R.viem.keccak256 b, hparams, by rw [buildAuthDigest, hb]; rfl⟩

theorem authorize_isSome (hV : R.viem.Lawful) (hkeys : KeysWork R) (now : Clock)
    {msg tag : JsString} (st : EnclaveState)
    (htag : tag = withdrawTag R.viem ∨ tag = settleTag R.viem) :
    ∃ res st', authorize R now msg tag st = some (res, st') := by
  unfold authorize
  split
  next text _ => exact ⟨_, _, rfl⟩
  next a ha =>
    obtain ⟨issuedAt, hp⟩ := checkRequest_ok.mp ha
    obtain ⟨p, digest, hparams, hdigest⟩ := hp.digest hV htag
    obtain ⟨key, -, hsigner, -⟩ := hp.keys
    obtain ⟨signature, hsig⟩ := Option.isSome_iff_exists.mp (hkeys _ (bigEndian 32 digest.val) hsigner)
    exact ⟨_, _, sign_eq_some.mpr ⟨p, digest, signature, hparams, hdigest, hsig, rfl⟩⟩

/-! ## Caller authentication -/

def responseFields : List JsString :=
  [js "streamId", js "cumulativeAccrued", js "deadline", js "signature", js "terms"]

theorem response_fields (a : Checked) (p : AuthParams) (signature : JsString) :
    (response a p signature).map Prod.fst = responseFields := rfl

theorem responseFields_distinct : responseFields.Pairwise (· ≠ ·) := by decide

/-- What a client reads out of the answer. -/
theorem response_parse (a : Checked) (p : AuthParams) (signature : JsString) :
    parse (decode (encode (stringify (response a p signature)))) =
      some (.object (asValues (response a p signature))) := by
  have hkeys := responseFields_distinct
  rw [← response_fields a p signature] at hkeys
  exact parse_decode_stringify _ (List.cons_ne_nil _ _) (distinct_keys hkeys)

theorem permitted_iff {tag who : JsString} {t : StreamTerms} : who ∈ permitted R tag t ↔
    who = R.caseMap.toLowerCase t.employer ∨
      tag ≠ settleTag R.viem ∧ who = R.caseMap.toLowerCase t.recipient := by
  unfold permitted
  split_ifs with h
  · simp [h]
  · simp only [List.mem_cons, List.not_mem_nil, or_false, h, not_false_eq_true, ne_eq, true_and]
    exact or_comm

/-- An answer with status 1 was asked for by a party of the stream, and says what was signed;
every other answer is empty and changes nothing; with keys that work there is an answer. -/
theorem caller_authenticated (hV : R.viem.Lawful) (now : Clock) (msg tag : JsString)
    (htag : tag = withdrawTag R.viem ∨ tag = settleTag R.viem) (st : EnclaveState) :
    (∀ res st', authorize R now msg tag st = some (res, st') → res.status = 1 →
      ∃ req b t issuedAt chainId streamId challenge caller digest signature,
        Spells msg req ∧
        (∃ key ciphertext, configured R.teeEciesPrivkey = some key ∧
          hexToBytes req.encryptedTerms = .ok ciphertext ∧ R.decrypt key ciphertext = some b) ∧
        R.viem.keccakHex b = R.caseMap.toLowerCase req.commitment ∧
        decodeTerms R.viem b = some t ∧
        bigint req.issuedAt = some issuedAt ∧ |issuedAt - now.val| ≤ 300 ∧
        bigint req.chainId = some chainId ∧ bigint req.streamId = some streamId ∧
        buildCallerChallenge R.caseMap R.viem
          ⟨chainId, req.vault, streamId, req.commitment, tag, issuedAt⟩ = some challenge ∧
        R.viem.recoverMessageAddress (bigEndian 32 challenge.val) req.callerSignature =
          some caller ∧
        (R.caseMap.toLowerCase caller = R.caseMap.toLowerCase t.employer ∨
          tag ≠ settleTag R.viem ∧
            R.caseMap.toLowerCase caller = R.caseMap.toLowerCase t.recipient) ∧
        buildAuthDigest R.caseMap R.viem ⟨tag, chainId, req.vault, streamId, req.commitment,
          accruedAt t now.val, now.val + 600⟩ = some digest ∧
        (∃ key, configured R.teeSignerPrivkey = some key ∧
          R.viem.signMessage key (bigEndian 32 digest.val) = some signature) ∧
        (∃ data raw, res = ⟨some data, 1, none⟩ ∧ hexToBytes data = .ok raw ∧
          parse (decode raw) = some (.object (asValues
            [(js "streamId", req.streamId),
              (js "cumulativeAccrued", bigintText (accruedAt t now.val)),
              (js "deadline", bigintText (now.val + 600)), (js "signature", signature),
              (js "terms", bytesToHex b)])) ∧
          bigint (bigintText (accruedAt t now.val)) = some (accruedAt t now.val) ∧
          bigint (bigintText (now.val + 600)) = some (now.val + 600) ∧
          hexToBytes (bytesToHex b) = .ok b) ∧
        st' = ⟨st.authCount + 1, st.signed ++ [⟨⟨tag, chainId, req.vault, streamId,
          req.commitment, accruedAt t now.val, now.val + 600⟩, now.val, b, digest⟩]⟩) ∧
    (∀ res st', authorize R now msg tag st = some (res, st') → res.status ≠ 1 →
      (∃ text, res = ⟨none, 0, some text⟩) ∧ st' = st) ∧
    (KeysWork R → (authorize R now msg tag st).isSome) := by
  refine ⟨?_, ?_, ?_⟩
  · intro res st' h hstatus
    rcases authorize_cases h with ⟨text, rfl, -⟩ | ⟨a, p, ⟨⟨issuedAt, hp⟩, hparams, hgranted⟩⟩
    · simp [refuse] at hstatus
    obtain ⟨digest, signature, hdigest, hsig, hres, hst⟩ := hgranted
    obtain ⟨key, hkey, hsigner, ciphertext, hcipher, hblob⟩ := hp.keys
    obtain ⟨caller, hrec, hparty⟩ := hp.caller
    obtain ⟨chainId, streamId, challenge, hc, hi, hd, hrec⟩ := recoverCaller_eq_some.mp hrec
    obtain ⟨p', hp', -, -, -, haccrued, hdeadline, -⟩ := hp.inRange hV
    obtain rfl := Option.some.inj (hparams.symm.trans hp')
    obtain rfl := authParams_unique hparams hc hi
    refine ⟨a.req, a.termsHex, a.terms, issuedAt, chainId, streamId, challenge, caller, digest,
      signature, hp.spells, ⟨key, ciphertext, hkey, hcipher, hblob⟩, hp.commitment, hp.terms,
      hp.issuedAt_eq, hp.recent, hc, hi, hd, hrec, permitted_iff.mp hparty, hdigest,
      ⟨a.signerKey, hsigner, hsig⟩, ⟨_, _, hres, hexToBytes_bytesToHex _,
        response_parse a _ signature, ?_, ?_, hexToBytes_bytesToHex _⟩, hst⟩
    · exact bigint_bigintText haccrued.1
    · exact bigint_bigintText hdeadline.1
  · intro res st' h hstatus
    rcases authorize_cases h with ⟨text, rfl, hst⟩ | ⟨a, p, hgranted⟩
    · exact ⟨⟨text, rfl⟩, hst⟩
    · obtain ⟨digest, signature, -, -, rfl, -⟩ := hgranted.signature
      exact absurd rfl hstatus
  · intro hkeys
    obtain ⟨res, st', h⟩ := authorize_isSome hV hkeys now st htag
    rw [h]
    rfl

open Reference in
theorem caller_authenticated_coston2 : ∃ req b t caller, Spells withdrawRequest.msg req ∧
    coston2Viem.keccakHex b = caseMap.toLowerCase req.commitment ∧
    decodeTerms coston2Viem b = some t ∧
    caseMap.toLowerCase caller ∈ permitted coston2Runtime (withdrawTag coston2Viem) t := by
  have hstatus : (authorize coston2Runtime withdrawRequest.now withdrawRequest.msg
      (withdrawTag coston2Viem) ⟨0, []⟩).map (fun r => r.1.status) = some 1 := by decide +kernel
  obtain ⟨⟨res, st'⟩, h, hone⟩ := Option.map_eq_some_iff.mp hstatus
  obtain ⟨req, b, t, -, -, -, -, caller, -, -, hspells, -, hcommit, ht, -, -, -, -, -, -, hparty, -⟩ :=
    (caller_authenticated (R := coston2Runtime) coston2Viem_lawful withdrawRequest.now
      withdrawRequest.msg _ (.inl rfl) ⟨0, []⟩).1 res st' h hone
  exact ⟨req, b, t, caller, hspells, hcommit, ht, permitted_iff.mpr hparty⟩

end StealthWage.Enclave
