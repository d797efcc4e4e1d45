import StealthWage.VerifyPage
import StealthWage.ClientRoundtrip
import StealthWage.SystemDashboard

/-! # Unlocking a stream

The recipient signs a challenge and the enclave answers with the terms and an authorization. The
page trusts neither: it compares the terms with the commitment before it shows them. -/
namespace StealthWage.Frontend
open Base (property)
open Client (Failure requestAuthorization)
open Enclave Js Json Protocol StealthWage.System Utf8 Vault Words

/-- What a build of the site knows. The chain id is a number that is printed digit by digit. -/
structure Site where
  chainId : ℕ
  vault : JsString
  chainId_lt : chainId < 2 ^ 53

/-! ## The page -/

/-- Terms and authorization, a failure that is shown, or an exception whose text is shown. -/
inductive Unlocked
  | shown (terms : StreamTerms) (auth : Value)
  | failure (error : Failure)
  | exception

def payload (site : Site) (streamId : Uint256)
    (commitment encryptedTerms callerSignature : JsString) (issuedAt : ℤ) : Client.Payload where
  members := [(js "streamId", bigintText streamId.val), (js "vault", site.vault),
    (js "chainId", decimal site.chainId), (js "commitment", commitment),
    (js "encryptedTerms", encryptedTerms), (js "issuedAt", bigintText issuedAt),
    (js "callerSignature", callerSignature)]
  fields := .refl _

section page

variable (V : Viem) (C : CaseMap) (T : HexReader) (site : Site)

def challengeParams (streamId : Uint256) (commitment : JsString) (issuedAt : ℤ) : ChallengeParams :=
  ⟨site.chainId, site.vault, streamId.val, commitment, Protocol.withdrawTag V, issuedAt⟩

def acceptAuthorization (commitment : JsString) (auth : Value) : Unlocked :=
  match property auth (js "terms") with
  | some (.string text) =>
    match T.hashed text with
    | none => .exception
    | some b =>
      if C.toLowerCase (V.keccakHex b) ≠ C.toLowerCase commitment then
        .failure (.rejected
          (js "Enclave returned terms that do not match the on-chain commitment."))
      else
        match (T.parsed text).bind (decodeTerms V) with
        | none => .exception
        | some terms => .shown terms auth
  -- `keccak256` throws on what is no text
  | _ => .exception

/-- The clock is read when the challenge is built and again when the request is sent. -/
def unlock (streamId : Uint256) (stream : OnChainStream) (encryptedTerms : JsString)
    (issuedAt sent : ℤ) (signMessage : Bytes → Option JsString)
    (fetch : JsString → Except JsString (ℕ × Bytes)) : Unlocked :=
  match buildCallerChallenge C V (challengeParams V site streamId stream.commitment issuedAt) with
  | none => .exception
  | some challenge =>
    match signMessage (bigEndian 32 challenge.val) with
    | none => .exception
    | some callerSignature =>
      match requestAuthorization fetch sent .authWithdraw
        (payload site streamId stream.commitment encryptedTerms callerSignature issuedAt) with
      | none => .exception
      | some (.failed error) => .failure error
      | some (.authorized auth) => acceptAuthorization V C T stream.commitment auth

end page

/-- The text goes to the server, at a moment of its clock, and the reply comes back. -/
def network (H : App.Host) (now : Clock) (numberText : JsString → JsString) (s : App.State)
    (dropped body : JsString) : Except JsString (ℕ × Bytes) :=
  match (Base.handleRequest H.toRuntime (App.shipped H now) (js "POST") (js "/action") body s).1 with
  | some reply => .ok (reply.status, encode (reply.payload.body numberText))
  | none => .error dropped

variable {ch : Chain} {E : Type*}

/-! ## Whatever the enclave answers -/

theorem encodePoint_head {c : ℕ} (h : 0x80 ≤ c) (hmax : c < 0x110000) :
    ∃ x rest, encodePoint c = x :: rest ∧ x ≠ 0 := by
  have hne : ∀ n, 0 < n → n < 256 → byte n ≠ 0 := by
    intro n hpos hlt hzero
    have hvalue := congrArg Fin.val hzero
    rw [byte_val hlt, Fin.val_zero] at hvalue
    omega
  unfold encodePoint
  rw [if_neg (by omega)]
  split_ifs
  · exact ⟨_, _, rfl, hne _ (by omega) (by omega)⟩
  · exact ⟨_, _, rfl, hne _ (by omega) (by omega)⟩
  · exact ⟨_, _, rfl, hne _ (by omega) (by omega)⟩

theorem encodeUnit_head {u : CodeUnit} (h : 0x80 ≤ u.val) :
    ∃ x rest, encodeUnit u = x :: rest ∧ x ≠ 0 := by
  unfold encodeUnit
  split_ifs
  · exact encodePoint_head (by decide) (by decide)
  · exact encodePoint_head h (by omega)

/-- No character but NUL is written with a leading zero. -/
theorem encode_zero {s : JsString} {b : Bytes} (h : encode s = 0 :: b) :
    ∃ t, s = 0 :: t ∧ encode t = b := by
  have hplain : ∀ u t, s = u :: t → u.val < 0x80 → ∃ t, s = 0 :: t ∧ encode t = b := by
    rintro u t rfl hu
    rw [encode_plain hu] at h
    obtain ⟨hbyte, hrest⟩ := List.cons.inj h
    have hvalue := congrArg Fin.val hbyte
    rw [byte_val (by omega)] at hvalue
    have hzero : u = 0 := Fin.ext hvalue
    exact ⟨t, by rw [hzero], hrest⟩
  cases s with
  | nil => cases h
  | cons u t =>
    by_cases hu : u.val < 0x80
    · exact hplain u t rfl hu
    · exfalso
      obtain ⟨x, rest, hunit, hx⟩ := encodeUnit_head (not_lt.mp hu)
      cases t with
      | nil =>
        rw [encode, hunit] at h
        exact hx (List.cons.inj h).1
      | cons v t =>
        rw [encode] at h
        split_ifs at h with hpair
        · have hbound : pairPoint u v < 0x110000 := by
            have hhigh := (Bool.and_eq_true_iff.mp hpair).1
            have hlow := (Bool.and_eq_true_iff.mp hpair).2
            simp only [isHigh, isLow, Bool.and_eq_true, decide_eq_true_eq] at hhigh hlow
            unfold pairPoint
            omega
          obtain ⟨x, rest, hpoint, hx⟩ := encodePoint_head
            (c := pairPoint u v) (by unfold pairPoint; omega) hbound
          rw [hpoint] at h
          exact hx (List.cons.inj h).1
        · rw [hunit] at h
          exact hx (List.cons.inj h).1

/-- The bytes of canonical terms are no text that could be parsed. -/
theorem parsed_of_hashed {T : HexReader} (hT : T.Lawful) {text : JsString} {b b' rest : Bytes}
    (hb : b = 0 :: 0 :: 0 :: rest) (h : T.hashed text = some b) (h' : T.parsed text = some b') :
    b' = b := by
  rcases hT.hashed_text text b h with hhex | htext
  · have hsame := hT.hashed_hex text hhex
    rw [← hT.parsed, h', h] at hsame
    exact (Option.some.inj hsame).symm
  · rw [hb] at htext
    obtain ⟨t₁, rfl, h₁⟩ := encode_zero htext.symm
    obtain ⟨t₂, rfl, h₂⟩ := encode_zero h₁
    obtain ⟨t₃, rfl, -⟩ := encode_zero h₂
    -- the third character is NUL and no digit
    have hnil : hexDigit? 0 = none := by decide
    have hdrop : (0 :: 0 :: 0 :: t₃ : JsString).drop 2 = 0 :: t₃ := rfl
    rw [hT.parsed] at h'
    simp only [hexBytes, hdrop] at h'
    split_ifs at h'
    · simp [hexPairs, hnil] at h'
    · cases t₃ with
      | nil => cases h'
      | cons v t₃ => simp [hexPairs, hnil] at h'

theorem encodeTerms_zeros {V : Viem} (hV : V.Lawful) {t : StreamTerms} {b : Bytes}
    (h : encodeTerms V t = some b) : ∃ rest, b = 0 :: 0 :: 0 :: rest := by
  obtain ⟨w1, w2, w3, w4, w5, w6, w7, rfl, h1, -⟩ := encode_seven hV h
  have hlt : w1.val < 256 ^ 20 := (encodes_address_lt h1).trans_eq (by norm_num)
  have hsplit : bigEndian 32 w1.val = List.replicate 12 0 ++ bigEndian 20 w1.val :=
    bigEndian_add hlt 12
  rw [abiEncode_cons, hsplit]
  exact ⟨_, rfl⟩

/-- The bytes that the page hashes of an answer. -/
def hashedTerms (T : HexReader) (auth : Value) : Option Bytes :=
  match property auth (js "terms") with
  | some (.string text) => T.hashed text
  | _ => none

theorem acceptAuthorization_shown {V : Viem} {C : CaseMap} {T : HexReader} {commitment : Bytes32}
    {auth auth' : Value} {terms : StreamTerms}
    (h : acceptAuthorization V C T (hexWord commitment) auth = .shown terms auth') :
    auth' = auth ∧ ∃ text b b', property auth (js "terms") = some (.string text) ∧
      T.hashed text = some b ∧ V.keccak256 b = commitment ∧ T.parsed text = some b' ∧
      decodeTerms V b' = some terms := by
  unfold acceptAuthorization at h
  split at h
  next text htext =>
    cases hb : T.hashed text with
    | none => simp [hb] at h
    | some b =>
      simp only [hb] at h
      split_ifs at h with hhash
      cases hb' : T.parsed text with
      | none => simp [hb'] at h
      | some b' =>
        cases ht : decodeTerms V b' with
        | none => simp [hb', ht] at h
        | some t =>
          simp only [hb', Option.bind_some, ht, Unlocked.shown.injEq] at h
          obtain ⟨rfl, rfl⟩ := h
          have hlower := not_not.mp hhash
          rw [Viem.keccakHex, toLowerCase_bytesToHex, hexWord, toLowerCase_bytesToHex] at hlower
          exact ⟨rfl, text, b, b', htext, hb, keccakHex_eq_hexWord.mp hlower, hb', ht⟩
  next => cases h

theorem unlock_shown {V : Viem} {C : CaseMap} {T : HexReader} {site : Site} {id : Uint256}
    {stream : OnChainStream} {encryptedTerms : JsString} {issuedAt sent : ℤ}
    {signMessage : Bytes → Option JsString} {fetch : JsString → Except JsString (ℕ × Bytes)}
    {terms : StreamTerms} {auth : Value}
    (h : unlock V C T site id stream encryptedTerms issuedAt sent signMessage fetch =
      .shown terms auth) :
    ∃ auth', acceptAuthorization V C T stream.commitment auth' = .shown terms auth := by
  unfold unlock at h
  split at h
  next => cases h
  next =>
    split at h
    next => cases h
    next =>
      split at h
      next => cases h
      next => cases h
      next auth' _ => exact ⟨auth', h⟩

/-- Whatever the enclave, or anybody in its place, answers: terms that are shown are those the
employer committed to, and they accrue alike. -/
theorem unlock_sound {V : Viem} (hV : V.Lawful) {T : HexReader} (hT : T.Lawful)
    (hk : V.keccak256 = ch.keccak256) {w : VaultWorld ch E} {id : Uint256} {t : StreamTerms}
    {b : Bytes} {n : ℕ} (ht : encodeTerms V t = some b) (hsalt : spelled 32 t.salt = some n)
    (hc : (w.state.streams id).commitment = ch.keccak256 b) {H : Set Bytes}
    (hH : Set.InjOn ch.keccak256 H) (hb : b ∈ H) {C : CaseMap} {site : Site}
    {encryptedTerms : JsString} {issuedAt sent : ℤ} {signMessage : Bytes → Option JsString}
    {fetch : JsString → Except JsString (ℕ × Bytes)} {terms : StreamTerms} {auth : Value}
    (h : unlock V C T site id (readStream V w.state id) encryptedTerms issuedAt sent signMessage
      fetch = .shown terms auth)
    (hin : ∀ x ∈ hashedTerms T auth, x ∈ H) :
    SameTerms terms t ∧ decodeTerms V b = some terms ∧
      ∀ (stream : Stream) (now : ℤ), available terms stream now = available t stream now := by
  obtain ⟨auth', haccept⟩ := unlock_shown h
  obtain ⟨rfl, text, b₀, b', htext, hhashed, hhash, hparsed, hterms⟩ :=
    acceptAuthorization_shown haccept
  have hmem : b₀ ∈ H := by
    refine hin b₀ ?_
    rw [hashedTerms, htext]
    exact hhashed
  rw [hk, hc] at hhash
  obtain rfl := hH hmem hb hhash
  obtain ⟨rest, hzeros⟩ := encodeTerms_zeros hV ht
  obtain rfl := parsed_of_hashed hT hzeros hhashed hparsed
  refine ⟨?_, hterms, fun stream now => ?_⟩
  · obtain ⟨e, r, k, rate, total, start, salt, hs, rfl⟩ := stands_of_encodeTerms hV hsalt ht
    obtain ⟨t', ht', hs'⟩ := decodeTerms_termsBlob hV e r k rate total start salt
    obtain rfl := Option.some.inj (ht'.symm.trans hterms)
    exact .of_stands hs' hs
  · rw [available_eq_min, available_eq_min, accruedAt_encoded hV ht hterms now]

/-! ## When everybody does their part -/

section honest

variable {H : App.Host} {site : Site} {id : Uint256} {now : Clock} {issuedAt : ℤ}

theorem bigint_natCast (n : ℕ) : bigint (bigintText n) = some (n : ℤ) := bigint_bigintText (by omega)

/-- The site names the vault and its chain, in a spelling that viem takes. -/
structure Site.Names (site : Site) (V : Viem) (ch : Chain) : Prop where
  chainId : site.chainId = ch.chainId.val
  vault : spelled 20 site.vault = some ch.this.val
  accepted : V.isAddress site.vault = true

variable (id issuedAt) in
/-- The page can build its challenge. -/
theorem challenge_built {V : Viem} {C : CaseMap} (hV : V.Lawful) (hsite : site.Names V ch)
    (commitment : Bytes32) (hissued : 0 ≤ issuedAt ∧ issuedAt < 2 ^ 256) :
    ∃ challenge, buildCallerChallenge C V
      (challengeParams V site id (hexWord commitment) issuedAt) = some challenge := by
  have hhash : ∀ w : Word, (spelled 32 (hexWord w)).isSome := by
    intro w
    rw [hexWord, spelled_word]
    rfl
  have hid := id.isLt
  have hchain := ch.chainId.isLt
  have hencodes : (V.encodeAbiParameters (challengeValues C V
      (challengeParams V site id (hexWord commitment) issuedAt))).isSome := by
    apply hV.encode_isSome
    simp only [challengeValues, challengeParams, hsite.chainId, List.forall_mem_cons,
      List.not_mem_nil, false_imp_iff, implies_true, and_true, Viem.InRange]
    refine ⟨hhash _, ⟨le_rfl, by omega, by omega⟩, hsite.accepted, ⟨le_rfl, by omega, by omega⟩,
      ?_, hhash _, le_rfl, hissued⟩
    rw [hexWord, toLowerCase_bytesToHex]
    exact hhash commitment
  obtain ⟨b, hb⟩ := Option.isSome_iff_exists.mp hencodes
  exact ⟨V.keccak256 b, by rw [buildCallerChallenge, hb]; rfl⟩

/-- It passes every check of the enclave. -/
theorem payload_passes {b blob : Bytes} {t : StreamTerms} {eciesKey signerKey caller : JsString}
    {challenge : Bytes32} {callerSignature : JsString}
    (ht : decodeTerms H.viem b = some t) (hecies : configured H.teeEciesPrivkey = some eciesKey)
    (hsealed : H.decrypt eciesKey blob = some b)
    (hsigner : configured H.teeSignerPrivkey = some signerKey)
    (hissued : 0 ≤ issuedAt) (hrecent : |issuedAt - now.val| ≤ 300)
    (hchallenge : buildCallerChallenge H.caseMap H.viem (challengeParams H.viem site id
      (hexWord (H.viem.keccak256 b)) issuedAt) = some challenge)
    (hrecover : H.viem.recoverMessageAddress (bigEndian 32 challenge.val) callerSignature =
      some caller)
    (hparty : H.caseMap.toLowerCase caller ∈
      permitted H.toRuntime (Protocol.withdrawTag H.viem) t) :
    Passed H.toRuntime now.val
      (Client.originalMessage (payload site id (hexWord (H.viem.keccak256 b)) (bytesToHex blob)
        callerSignature issuedAt))
      (Protocol.withdrawTag H.viem)
      ⟨(payload site id (hexWord (H.viem.keccak256 b)) (bytesToHex blob) callerSignature
        issuedAt).request, signerKey, b, t⟩ issuedAt where
  spells := Client.spells_originalMessage _
  keys := ⟨eciesKey, hecies, hsigner, blob, hexToBytes_bytesToHex blob, hsealed⟩
  commitment := (toLowerCase_bytesToHex H.caseMap _).symm
  terms := ht
  issuedAt_eq := bigint_bigintText hissued
  recent := hrecent
  caller := by
    refine ⟨caller, recoverCaller_eq_some.mpr ⟨site.chainId, id.val, challenge,
      bigint_decimal site.chainId, bigint_natCast id.val, hchallenge, hrecover⟩, hparty⟩

/-- A request that passes is granted if the key signs what it is about. -/
theorem granted_of_passed (hV : H.viem.Lawful) {msg : JsString} {a : Checked}
    (hp : Passed H.toRuntime now.val msg (Protocol.withdrawTag H.viem) a issuedAt)
    (hsigns : ∀ q digest, authParams a (Protocol.withdrawTag H.viem) now.val = some q →
      buildAuthDigest H.caseMap H.viem q = some digest →
      (H.viem.signMessage a.signerKey (bigEndian 32 digest.val)).isSome) (st : EnclaveState) :
    ∃ q res st', authorize H.toRuntime now msg (Protocol.withdrawTag H.viem) st = some (res, st') ∧
      Granted H.toRuntime now.val msg (Protocol.withdrawTag H.viem) st a q res st' := by
  obtain ⟨q, digest, hparams, hdigest⟩ := hp.digest hV (.inl rfl)
  obtain ⟨signature, hsignature⟩ := Option.isSome_iff_exists.mp (hsigns q digest hparams hdigest)
  obtain ⟨⟨res, st'⟩, hr⟩ : ∃ r, r =
      ((⟨some (bytesToHex (encode (stringify (response a q signature)))), 1, none⟩ : HandlerResult),
        (⟨st.authCount + 1, st.signed ++ [⟨q, now.val, a.termsHex, digest⟩]⟩ : EnclaveState)) :=
    ⟨_, rfl⟩
  have hsigned : sign H.toRuntime a (Protocol.withdrawTag H.viem) now.val st = some (res, st') :=
    sign_eq_some.mpr ⟨q, digest, signature, hparams, hdigest, hsignature, hr⟩
  obtain ⟨hres, hst⟩ := Prod.mk.inj hr
  refine ⟨q, res, st', ?_, ⟨issuedAt, hp⟩, hparams, digest, signature, hdigest, hsignature, hres,
    hst⟩
  rw [authorize, checkRequest_ok.mpr ⟨issuedAt, hp⟩]
  exact hsigned

/-- The reply that is sent for a granted request, and what the page reads of it. -/
theorem network_authorized {numberText : JsString → JsString}
    (hnumber : ∀ n, n ≤ 1 → numberText (decimal n) = decimal n) (s : App.State)
    (dropped : JsString) (sent : ℤ) (p : Client.Payload) {a : Checked} {q : AuthParams}
    {res : HandlerResult} {st' : EnclaveState}
    (h : authorize H.toRuntime now (Client.originalMessage p) (Protocol.withdrawTag H.viem) s.enclave =
      some (res, st'))
    (hg : Granted H.toRuntime now.val (Client.originalMessage p) (Protocol.withdrawTag H.viem)
      s.enclave a q res st') :
    ∃ signature, res.data = some (bytesToHex (encode (stringify (response a q signature)))) ∧
      requestAuthorization (network H now numberText s dropped) sent .authWithdraw p =
        some (.authorized (.object (asValues (response a q signature)))) := by
  obtain ⟨digest, signature, -, -, rfl, -⟩ := hg.signature
  let command := Client.commandText .authWithdraw
  let data := Value.object (Client.actionData sent (js "STREAM") command p.members)
  let df := Value.object (Client.dataFixed sent (js "STREAM") command p.members)
  have hhandled : App.authorizeValue H now (Protocol.withdrawTag H.viem)
      (Base.orText (property df (js "originalMessage")) (js "0x")) s =
      some (⟨some (bytesToHex (encode (stringify (response a q signature)))), 1, none⟩,
        { s with enclave := st' }) := by
    have hmessage : Base.orText (property df (js "originalMessage")) (js "0x") =
        .string (Client.originalMessage p) := rfl
    rw [hmessage]
    exact congrArg (Option.map fun r => (r.1, { s with enclave := r.2 })) h
  have hruns : Contract.Runs H.toRuntime (App.shipped H now)
      (Client.buildActionBody sent (js "STREAM") command p.members) s data df _ _ :=
    ⟨Client.readRequestBody_body H.toRuntime sent (js "STREAM") command p.members, _,
      Client.lookup_command H now .authWithdraw sent p.members, hhandled⟩
  have hreply := (Contract.sent_iff hruns _).mpr ⟨rfl, rfl⟩
  have hnetwork : network H now numberText s dropped
      (Client.buildActionBody sent (js "STREAM") command p.members) =
      .ok (200, Client.sent numberText (App.shipped H now) data df
        ⟨some (bytesToHex (encode (stringify (response a q signature)))), 1, none⟩) := by
    rw [network, hreply]
    rfl
  refine ⟨signature, rfl, ?_⟩
  rw [requestAuthorization, hnetwork]
  simp only
  rw [Client.readResponse_sent (hnumber 1 le_rfl)]
  exact Client.readResult_authorized (List.cons_ne_nil _ _) (distinct_keys responseFields_distinct)

/-- Terms under the commitment are shown. -/
theorem acceptAuthorization_of_hash {V : Viem} {C : CaseMap} {T : HexReader} (hT : T.Lawful)
    {b : Bytes} {t : StreamTerms} {auth : Value}
    (htext : property auth (js "terms") = some (.string (bytesToHex b)))
    (ht : decodeTerms V b = some t) :
    acceptAuthorization V C T (hexWord (V.keccak256 b)) auth = .shown t auth := by
  have hhashed : T.hashed (bytesToHex b) = some b := by
    rw [hT.hashed_hex _ (isHex_bytesToHex b), hexBytes_bytesToHex]
  have hparsed : T.parsed (bytesToHex b) = some b := by rw [hT.parsed, hexBytes_bytesToHex]
  simp only [acceptAuthorization, htext, hhashed, hparsed, Option.bind_some, ht]
  exact if_neg (not_not.mpr rfl)

/-- A party that signs is answered, and is shown the terms. -/
theorem unlock_answered (hV : H.viem.Lawful) (hA : TagsApart H.viem.keccak256) {T : HexReader}
    (hT : T.Lawful) {numberText : JsString → JsString}
    (hnumber : ∀ n, n ≤ 1 → numberText (decimal n) = decimal n) (hsite : site.Names H.viem ch)
    {b blob : Bytes} {t : StreamTerms} (ht : decodeTerms H.viem b = some t)
    {eciesKey signerKey : JsString} (hecies : configured H.teeEciesPrivkey = some eciesKey)
    (hsigner : configured H.teeSignerPrivkey = some signerKey)
    (hsealed : H.decrypt eciesKey blob = some b) (hissued : 0 ≤ issuedAt)
    (hrecent : |issuedAt - now.val| ≤ 300) {caller : JsString}
    (hparty : caller = t.recipient ∨ caller = t.employer)
    {signMessage : Bytes → Option JsString}
    (hwallet : ∀ challenge, buildCallerChallenge H.caseMap H.viem
      (challengeParams H.viem site id (hexWord (H.viem.keccak256 b)) issuedAt) = some challenge →
      ∃ signature, signMessage (bigEndian 32 challenge.val) = some signature ∧
        H.viem.recoverMessageAddress (bigEndian 32 challenge.val) signature = some caller)
    (hsigns : ∀ digest, buildAuthDigest H.caseMap H.viem ⟨Protocol.withdrawTag H.viem, site.chainId,
      site.vault, id.val, hexWord (H.viem.keccak256 b), accruedAt t now.val, now.val + 600⟩ =
        some digest → (H.viem.signMessage signerKey (bigEndian 32 digest.val)).isSome)
    (s : App.State) (dropped : JsString) (sent : ℤ) {stream : OnChainStream}
    (hstream : stream.commitment = hexWord (H.viem.keccak256 b)) :
    ∃ a p q signature res st',
      a = ⟨p.request, signerKey, b, t⟩ ∧
      (∃ callerSignature, p = payload site id (hexWord (H.viem.keccak256 b)) (bytesToHex blob)
        callerSignature issuedAt) ∧
      Granted H.toRuntime now.val (Client.originalMessage p) (Protocol.withdrawTag H.viem) s.enclave
        a q res st' ∧
      res.data = some (bytesToHex (encode (stringify (response a q signature)))) ∧
      unlock H.viem H.caseMap T site id stream (bytesToHex blob) issuedAt sent signMessage
        (network H now numberText s dropped) = .shown t (.object (asValues (response a q signature)))
    := by
  have hclock := now.2
  have hskew := abs_le.mp hrecent
  obtain ⟨challenge, hchallenge⟩ := challenge_built id issuedAt (C := H.caseMap) hV hsite
    (H.viem.keccak256 b) ⟨hissued, by omega⟩
  obtain ⟨callerSignature, hsign, hrecover⟩ := hwallet challenge hchallenge
  have hpermitted : H.caseMap.toLowerCase caller ∈
      permitted H.toRuntime (Protocol.withdrawTag H.viem) t := by
    refine permitted_iff.mpr ?_
    rcases hparty with rfl | rfl
    · refine .inr ⟨fun h => hA.withdraw_settle ?_, rfl⟩
      exact hexWord_injective h
    · exact .inl rfl
  have hpassed := payload_passes ht hecies hsealed hsigner hissued hrecent hchallenge hrecover
    hpermitted
  obtain ⟨q, res, st', hanswered, hgranted⟩ := granted_of_passed hV hpassed (fun q digest hq => by
    obtain rfl := authParams_unique hq (bigint_decimal site.chainId) (bigint_natCast id.val)
    exact hsigns digest) s.enclave
  obtain ⟨signature, hdata, hreceived⟩ :=
    network_authorized hnumber s dropped sent _ hanswered hgranted
  refine ⟨_, _, q, signature, res, st', rfl, ⟨callerSignature, rfl⟩, hgranted, hdata, ?_⟩
  simp only [unlock, hstream, hchallenge, hsign, hreceived]
  exact acceptAuthorization_of_hash hT rfl ht

end honest

section coston2

open Reference

def coston2Host : App.Host where
  toRuntime := coston2Runtime
  decodeStrings := fun _ => .error (js "out of bounds")

theorem chainId_lt : 114 < 2 ^ 53 := by decide

def coston2Site : Site := ⟨114, bytesToHex (bigEndian 20 vault.val), chainId_lt⟩

theorem coston2Site_names : coston2Site.Names coston2Viem coston2 := by
  constructor <;> decide +kernel

/-- The employer's wallet knows the one challenge. -/
def employerWallet (raw : Bytes) : Option JsString :=
  if raw = bigEndian 32 withdrawChallenge.val then some withdrawCallerSignature else none

theorem employerWallet_signs (challenge : Bytes32)
    (h : buildCallerChallenge caseMap coston2Viem
      (challengeParams coston2Viem coston2Site 1 (hexWord commitment) 1100) = some challenge) :
    ∃ signature, employerWallet (bigEndian 32 challenge.val) = some signature ∧
      coston2Viem.recoverMessageAddress (bigEndian 32 challenge.val) signature =
        some streamTerms.employer := by
  have hbuilt : buildCallerChallenge caseMap coston2Viem
      (challengeParams coston2Viem coston2Site 1 (hexWord commitment) 1100) =
        some withdrawChallenge := by decide +kernel
  obtain rfl := Option.some.inj (h.symm.trans hbuilt)
  exact ⟨withdrawCallerSignature, if_pos rfl, by decide +kernel⟩

theorem enclave_signs (digest : Bytes32)
    (h : buildAuthDigest caseMap coston2Viem ⟨Protocol.withdrawTag coston2Viem, coston2Site.chainId,
      coston2Site.vault, (1 : Uint256).val, hexWord commitment, accruedAt streamTerms 1100,
      1100 + 600⟩ = some digest) :
    (coston2Viem.signMessage signerKey (bigEndian 32 digest.val)).isSome := by
  have hbuilt : buildAuthDigest caseMap coston2Viem ⟨Protocol.withdrawTag coston2Viem,
      coston2Site.chainId, coston2Site.vault, (1 : Uint256).val, hexWord commitment,
      accruedAt streamTerms 1100, 1100 + 600⟩ = some withdrawDigest := by decide +kernel
  obtain rfl := Option.some.inj (h.symm.trans hbuilt)
  decide +kernel

theorem coston2Host_keys : configured coston2Host.teeEciesPrivkey = some eciesKey ∧
    configured coston2Host.teeSignerPrivkey = some signerKey ∧
    coston2Host.decrypt eciesKey ciphertext = some Reference.terms := by decide +kernel

/-- What the employer's browser gets. -/
def employerUnlocks (stream : OnChainStream) : Unlocked :=
  unlock coston2Viem caseMap pageReader coston2Site 1 stream (bytesToHex ciphertext) 1100 1100000
    employerWallet (network coston2Host withdrawRequest.now id App.State.initial (js ""))

theorem employerUnlocks_answered {stream : OnChainStream}
    (hstream : stream.commitment = hexWord (coston2Viem.keccak256 Reference.terms)) :
    ∃ a q signature, a.termsHex = Reference.terms ∧
      employerUnlocks stream = .shown streamTerms (.object (asValues (response a q signature))) := by
  have hterms : coston2Viem.keccak256 Reference.terms = commitment := by decide +kernel
  obtain ⟨hecies, hsigner, hsealed⟩ := coston2Host_keys
  have hnumber : ∀ n, n ≤ 1 → id (decimal n) = decimal n := fun _ _ => rfl
  have hrecent : |(1100 : ℤ) - withdrawRequest.now.val| ≤ 300 := by decide
  have hparty : streamTerms.employer = streamTerms.recipient ∨
      streamTerms.employer = streamTerms.employer := .inr rfl
  have hwallet := employerWallet_signs
  have hsigns := enclave_signs
  rw [← hterms] at hwallet hsigns
  obtain ⟨a, p, q, signature, -, -, ha, -, -, -, hunlocked⟩ :=
    unlock_answered (H := coston2Host) coston2Viem_lawful coston2_tags pageReader_lawful hnumber
      coston2Site_names decodeTerms_terms hecies hsigner hsealed (by decide) hrecent hparty hwallet
      hsigns App.State.initial (js "") 1100000 hstream
  exact ⟨a, q, signature, by rw [ha], hunlocked⟩

theorem unlock_sound_coston2 : ∃ w : VaultWorld coston2 Unit, Reached w ∧ ∃ terms auth,
    employerUnlocks (readStream coston2Viem w.state 1) = .shown terms auth ∧
    SameTerms terms streamTerms := by
  obtain ⟨w, hw, -, -, hcommitment⟩ := created_coston2
  have hterms : coston2Viem.keccak256 Reference.terms = commitment := by decide +kernel
  have hstream : (readStream coston2Viem w.state 1).commitment =
      hexWord (coston2Viem.keccak256 Reference.terms) :=
    congrArg hexWord (hcommitment.trans hterms.symm)
  obtain ⟨a, q, signature, ha, hunlocked⟩ := employerUnlocks_answered hstream
  have hH : Reference.terms ∈ {x | x ∈ hashed} := by decide +kernel
  have hhashed : hashedTerms pageReader (.object (asValues (response a q signature))) =
      some Reference.terms := by
    have htext := pageReader_lawful.hashed_hex _ (isHex_bytesToHex a.termsHex)
    rw [hexBytes_bytesToHex, ha] at htext
    rw [← htext, ← ha]
    rfl
  refine ⟨w, hw, _, _, hunlocked, ?_⟩
  refine (unlock_sound coston2Viem_lawful pageReader_lawful rfl encodeTerms_streamTerms
    (spelled_word 1) (hcommitment.trans hterms.symm) hashed_injOn hH hunlocked ?_).1
  intro x hx
  rw [hhashed] at hx
  obtain rfl := Option.some.inj hx
  exact hH

end coston2

end StealthWage.Frontend
