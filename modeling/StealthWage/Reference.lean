import StealthWage.Enclave

/-! # A viem that keeps its promises

`Viem.Lawful` is satisfied by the ABI codec and the checksum addresses written out here, for
every hash function. The hash and the curve are given by their values at the arguments that
one stream on Coston2 needs. -/
namespace StealthWage.Reference
open CallStack Enclave Js Json Protocol Utf8 Vault Words

/-- A hash known at some arguments. -/
def tabulated (table : List (Bytes × Bytes32)) (b : Bytes) : Bytes32 :=
  ((table.find? fun entry => entry.1 = b).map Prod.snd).getD 0

/-! ## Checksum addresses -/

section codec

variable (keccak256 : Bytes → Bytes32)

def upperUnit (u : CodeUnit) : CodeUnit := if 97 ≤ u.val ∧ u.val ≤ 102 then unit (u.val - 32) else u

def nibbles (b : Bytes) : List ℕ := b.flatMap fun x => [x.val / 16, x.val % 16]

def checksumAddress (a : Address) : JsString :=
  let hexAddress := hexOf (bigEndian 20 a.val)
  let hash := bigEndian 32 (keccak256 (hexAddress.map fun u => Fin.ofNat 256 u.val)).val
  js "0x" ++ List.zipWith (fun u n => if 8 ≤ n then upperUnit u else u) hexAddress (nibbles hash)

def isAddress (text : JsString) : Bool :=
  match spelled 20 text with
  | none => false
  | some n => text.map lowerUnit = text ∨ checksumAddress keccak256 (Fin.ofNat _ n) = text

theorem hexPairs_congr {s s' : JsString}
    (h : List.Forall₂ (fun u u' => hexDigit? u = hexDigit? u') s s') : hexPairs s = hexPairs s' := by
  induction s using hexPairs.induct generalizing s' with
  | case1 =>
    obtain rfl := List.forall₂_nil_left_iff.mp h
    rfl
  | case2 u =>
    obtain ⟨u', t, -, ht, rfl⟩ := List.forall₂_cons_left_iff.mp h
    obtain rfl := List.forall₂_nil_left_iff.mp ht
    rfl
  | case3 a b s ih =>
    obtain ⟨a', t, ha, ht, rfl⟩ := List.forall₂_cons_left_iff.mp h
    obtain ⟨b', t, hb, hrest, rfl⟩ := List.forall₂_cons_left_iff.mp ht
    simp only [hexPairs, ha, hb, ih hrest]

theorem hexDigit?_upperUnit : ∀ d, hexDigit? (upperUnit (hexDigit d)) = hexDigit? (hexDigit d) := by
  decide

theorem hexPairs_zipWith (b : Bytes) (ns : List ℕ) (h : 2 * b.length ≤ ns.length) :
    hexPairs (List.zipWith (fun u n => if 8 ≤ n then upperUnit u else u) (hexOf b) ns) = some b := by
  rw [← hexPairs_hexOf b]
  apply hexPairs_congr
  rw [List.forall₂_iff_get]
  have hlen := hexOf_length b
  refine ⟨by simp only [List.length_zipWith]; omega, ?_⟩
  intro i hi hi'
  obtain ⟨d, hd⟩ : ∃ d, (hexOf b).get ⟨i, hi'⟩ = hexDigit d := by
    have hmem := List.get_mem (hexOf b) ⟨i, hi'⟩
    obtain ⟨x, -, hx⟩ := List.mem_flatMap.mp hmem
    simp only [List.mem_cons, List.not_mem_nil, or_false] at hx
    rcases hx with hx | hx
    · exact ⟨_, hx⟩
    · exact ⟨_, hx⟩
  simp only [List.get_eq_getElem, List.getElem_zipWith] at hd ⊢
  rw [hd]
  split_ifs
  · exact hexDigit?_upperUnit d
  · rfl

theorem nibbles_length (b : Bytes) : (nibbles b).length = 2 * b.length := by
  induction b with
  | nil => rfl
  | cons x b ih =>
    simp only [nibbles, List.flatMap_cons, List.length_append] at ih ⊢
    rw [ih]
    simp only [List.length_cons, List.length_nil]
    omega

theorem spelled_checksumAddress (a : Address) :
    spelled 20 (checksumAddress keccak256 a) = some a.val := by
  have hshape : ∀ s, js "0x" ++ s = 48 :: 120 :: s := fun _ => rfl
  have hvalue : value (bigEndian 20 a.val) = a.val := by
    have hlt := a.isLt
    rw [value_bigEndian, Nat.mod_eq_of_lt (hlt.trans_eq (by norm_num))]
  rw [checksumAddress, hshape, spelled, if_pos ⟨rfl, rfl⟩, hexPairs_zipWith]
  · simp [hvalue]
  · simp [nibbles_length]

theorem spelled_address (a : Address) :
    spelled 20 (bytesToHex (bigEndian 20 a.val)) = some a.val := by
  have h := spelled_bytesToHex (bigEndian 20 a.val)
  have hlt := a.isLt
  rwa [bigEndian_length, value_bigEndian, Nat.mod_eq_of_lt (hlt.trans_eq (by norm_num))] at h

/-! ## The ABI -/

def encodeValue : AbiValue → Option Word
  | .address text =>
    if isAddress keccak256 text = true then (spelled 20 text).map (Fin.ofNat _) else none
  | .uint bits n => if bits ≤ 256 ∧ 0 ≤ n ∧ n < 2 ^ bits then some (Fin.ofNat _ n.toNat) else none
  | .bytes32 text => (spelled 32 text).map (Fin.ofNat _)

def decodeValue : AbiType → Word → AbiValue
  | .address, w => .address (checksumAddress keccak256 (lowAddress w))
  | .uint bits, w => .uint bits w.val
  | .bytes32, w => .bytes32 (bytesToHex (bigEndian 32 w.val))

/-- The values from word `i` on. -/
def decodeValues (b : Bytes) : ℕ → List AbiType → List AbiValue
  | _, [] => []
  | i, t :: ts => decodeValue keccak256 t (wordAt b i) :: decodeValues b (i + 1) ts

def viem (recoverMessageAddress : Bytes → JsString → Option JsString)
    (signMessage : JsString → Bytes → Option JsString) : Viem where
  keccak256 := keccak256
  isAddress := isAddress keccak256
  checksumAddress := checksumAddress keccak256
  encodeAbiParameters vs := (vs.mapM (encodeValue keccak256)).map abiEncode
  decodeAbiParameters ts b :=
    if b.length < 32 * ts.length then none else some (decodeValues keccak256 b 0 ts)
  recoverMessageAddress := recoverMessageAddress
  signMessage := signMessage

theorem isAddress_of_spelled {text : JsString} {a : Address} (h : spelled 20 text = some a.val)
    (htext : text.map lowerUnit = text ∨ checksumAddress keccak256 a = text) :
    isAddress keccak256 text = true := by
  have ha : (Fin.ofNat (2 ^ 160) a.val) = a := Fin.ext (Nat.mod_eq_of_lt a.isLt)
  unfold isAddress
  simp only [h, ha, decide_eq_true_eq]
  exact htext

theorem encodeValue_isSome {V : Viem} (hV : V.isAddress = isAddress keccak256) {v : AbiValue}
    (h : V.InRange v) : (encodeValue keccak256 v).isSome := by
  cases v with
  | address text =>
    have hok : isAddress keccak256 text = true := hV ▸ h
    have hs : (spelled 20 text).isSome := by
      unfold isAddress at hok
      cases hn : spelled 20 text with
      | none => simp [hn] at hok
      | some n => rfl
    simp only [encodeValue, hok, if_true, Option.isSome_map, hs]
  | uint bits n =>
    have hrange : bits ≤ 256 ∧ 0 ≤ n ∧ n < 2 ^ bits := h
    rw [encodeValue, if_pos hrange]
    rfl
  | bytes32 text =>
    rw [encodeValue, Option.isSome_map]
    exact h

theorem encodes_of_encodeValue {V : Viem} (hV : V.isAddress = isAddress keccak256) {v : AbiValue}
    {w : Word} (h : encodeValue keccak256 v = some w) : V.Encodes v w := by
  cases v with
  | address text =>
    simp only [encodeValue, Option.ite_none_right_eq_some, Option.map_eq_some_iff] at h
    obtain ⟨hok, n, hn, rfl⟩ := h
    have hlt := spelled_lt hn
    refine ⟨hV ▸ hok, ?_⟩
    rw [hn]
    exact congrArg some (Nat.mod_eq_of_lt (hlt.trans (by norm_num))).symm
  | uint bits n =>
    simp only [encodeValue, Option.ite_none_right_eq_some, Option.some.injEq] at h
    obtain ⟨⟨hbits, h0, hlt⟩, rfl⟩ := h
    have hpow : (2 : ℤ) ^ bits ≤ 2 ^ 256 := pow_le_pow_right₀ (by norm_num) hbits
    refine ⟨h0, hlt, ?_⟩
    have hmod : n.toNat % 2 ^ 256 = n.toNat := Nat.mod_eq_of_lt (by omega)
    simp only [Fin.ofNat, hmod]
    omega
  | bytes32 text =>
    obtain ⟨n, hn, rfl⟩ := Option.map_eq_some_iff.mp h
    intro n' hn'
    obtain rfl := Option.some.inj (hn.symm.trans hn')
    exact Nat.mod_eq_of_lt ((spelled_lt hn).trans_eq (by norm_num))

theorem mapM_isSome {α β : Type} {f : α → Option β} {xs : List α}
    (h : ∀ x ∈ xs, (f x).isSome) : (xs.mapM f).isSome := by
  induction xs with
  | nil => rfl
  | cons x xs ih =>
    obtain ⟨y, hy⟩ := Option.isSome_iff_exists.mp (h x List.mem_cons_self)
    obtain ⟨ys, hys⟩ := Option.isSome_iff_exists.mp
      (ih fun x' hx' => h x' (List.mem_cons_of_mem x hx'))
    simp [List.mapM_cons, hy, hys]

theorem forall₂_mapM {α β : Type} {f : α → Option β} {P : α → β → Prop}
    (hP : ∀ x y, f x = some y → P x y) {xs : List α} {ys : List β} (h : xs.mapM f = some ys) :
    List.Forall₂ P xs ys := by
  induction xs generalizing ys with
  | nil =>
    obtain rfl := Option.some.inj h
    exact .nil
  | cons x xs ih =>
    simp only [List.mapM_cons, Option.bind_eq_bind, Option.bind_eq_some_iff, pure,
      Option.some.injEq] at h
    obtain ⟨y, hy, ys, hys, rfl⟩ := h
    exact .cons (hP x y hy) (ih hys)

/-- The laws hold for every hash and every key store. -/
theorem viem_lawful (recover : Bytes → JsString → Option JsString)
    (signMessage : JsString → Bytes → Option JsString) :
    (viem keccak256 recover signMessage).Lawful where
  isAddress_spelled text h := by
    have hok : isAddress keccak256 text = true := h
    unfold isAddress at hok
    cases hn : spelled 20 text with
    | none => simp [hn] at hok
    | some n => rfl
  isAddress_lower a := by
    have hs := spelled_address a
    refine isAddress_of_spelled keccak256 hs (.inl ?_)
    rw [lower_of_spelled hs]
  isAddress_checksum a :=
    isAddress_of_spelled keccak256 (spelled_checksumAddress keccak256 a) (.inr rfl)
  spelled_checksum a := spelled_checksumAddress keccak256 a
  encode_isSome vs h := by
    have hall := mapM_isSome fun v hv => encodeValue_isSome keccak256 rfl (h v hv)
    simpa [viem] using hall
  encode_words vs b h := by
    obtain ⟨ws, hws, rfl⟩ := Option.map_eq_some_iff.mp h
    refine ⟨ws, rfl, forall₂_mapM ?_ hws⟩
    exact fun v w hv => encodes_of_encodeValue keccak256 rfl hv
  decode_short b h := if_pos h
  decode b h := by
    refine ⟨(wordAt b 5).val, by omega, fun _ => rfl, ?_⟩
    exact if_neg (not_lt.mpr h)

end codec

/-! ## One stream on Coston2

The signing key is the one of the repository's golden vectors; the stream is the first of its
vault and accrues one unit a second from second 1000 on. -/

def employer : Address := 0xf39Fd6e51aad88F6F4ce6aB8827279cffFb92266
def recipient : Address := 0x2222222222222222222222222222222222222222
def token : Address := 0x3333333333333333333333333333333333333333
def vault : Address := 0x1111111111111111111111111111111111111111
def teeSigner : Address := 0x70997970C51812dc3A010C7d01b50e0d17dc79C8

def withdrawHash : Bytes32 := 0x4d87eef0dd0880a75470a03bb68bdfa76333b2fa9ceda4e2954e47973f2eb4cc
def settleHash : Bytes32 := 0x67aa1a059c8b9cf4df674dee80f4163504b46fe5b06ab8639c1a800deefd40f5
def callerHash : Bytes32 := 0x9289c2711cb27ea8b0beb75fb241ed95b62cca7f7f8f3606d6723c09b915d862

/-- The terms blob, with salt 1. -/
def terms : Bytes :=
  abiEncode [addressWord employer, addressWord recipient, addressWord token, 10 ^ 12, 1000, 1000, 1]

def commitment : Bytes32 := 0x02b4d80821354dd9a1bb83154c7d2ef62db9cfeb8cbe2c33d3b6080590f31abd

/-- What is signed at second 1100 for a withdrawal. -/
def withdrawPreimage : Bytes :=
  abiEncode [withdrawHash, 114, addressWord vault, 1, commitment, 100, 1700]

def withdrawDigest : Bytes32 := 0x35c1cde9d9046955602b6de75319cfe6e01978b755fea4b76f9dbb65e10de3e0
def withdrawEthDigest : Bytes32 :=
  0xa9d84982746520ccdaa56067e57b159a3d1bcbacfb59ea730b1c999948f2808d

/-- What is signed at second 1200 for a settlement. -/
def settlePreimage : Bytes :=
  abiEncode [settleHash, 114, addressWord vault, 1, commitment, 200, 1800]

def settleDigest : Bytes32 := 0x85dec9972a0ab4a13790bc187beca89eb631247d04168b65a9bc67670f1e07f6
def settleEthDigest : Bytes32 :=
  0x2f63dfbddce9533e77b63048971ba5d3cbee01ada37c7b113c836d4e1ac6588c

def withdrawChallenge : Bytes32 :=
  0x4dc0a27136c585b8a1476bb2f3884917adc2beb836bf482282a2349b6d7b5554
def settleChallenge : Bytes32 :=
  0x56b203263ea10da161202ad3f439a02fc6f52d4036079f1da79255d9d818cd82

def keccak256 : Bytes → Bytes32 := tabulated
  [(asciiBytes "SW_WITHDRAW_V1", withdrawHash), (asciiBytes "SW_SETTLE_V1", settleHash),
    (asciiBytes "SW_CALLER_AUTH_V1", callerHash),
    (asciiBytes "f39fd6e51aad88f6f4ce6ab8827279cfffb92266",
      0x19682d67812181b19d61f09263ab9e723b258d8d7949f68794d8916171bea91d),
    (terms, commitment), (withdrawPreimage, withdrawDigest), (settlePreimage, settleDigest),
    (ethSignedPreimage withdrawDigest, withdrawEthDigest),
    (ethSignedPreimage settleDigest, settleEthDigest),
    (abiEncode [callerHash, 114, addressWord vault, 1, commitment, withdrawHash, 1100],
      withdrawChallenge),
    (abiEncode [callerHash, 114, addressWord vault, 1, commitment, settleHash, 1200],
      settleChallenge)]

def withdrawR : Bytes32 := 0xe50f581b02e4a92763bdfbf21a104512c1a1a6b910805acc5d09c299f04ace35
def withdrawVs : Bytes32 := 0x54b559e4a71b07dd5e547a4e7e82f942231592aaed2269bcb3caf3e7b281a1ea
def settleR : Bytes32 := 0x88e225a812bbea2e5331e8dfe5660f1334257740e1f80aafd0ea9062b3e88e82
def settleVs : Bytes32 := 0x4106eb5bbe72d6015ad6118311fbb22c32805b7f1c6feeda11c3b5f69cc23f83

def ecrecover (ethDigest : Bytes32) (v : Byte) (r vs : Bytes32) : Address :=
  if (ethDigest, v, r, vs) = (withdrawEthDigest, 27, withdrawR, withdrawVs) ∨
    (ethDigest, v, r, vs) = (settleEthDigest, 28, settleR, settleVs) then teeSigner else 0

def coston2 : Chain := ⟨114, vault, keccak256, ecrecover⟩

def withdrawSignature : Bytes := bigEndian 32 withdrawR.val ++ bigEndian 32 withdrawVs.val ++ [27]
def settleSignature : Bytes := bigEndian 32 settleR.val ++ bigEndian 32 settleVs.val ++ [28]

/-- The employer's signatures over the two challenges. -/
def withdrawCallerSignature : JsString := bytesToHex (abiEncode [
  0x5cc40be8f5aa23239c9aa1d260d95f983f8b44565e4d486055d00db704623a94,
  0x71953a88973e11fb8e4e1eb922b9afcbcf07ceaac94b827f5b6a941af8e75da3] ++ [27])
def settleCallerSignature : JsString := bytesToHex (abiEncode [
  0x392aaf13b16edd7a61c7e24d7e73e775e8c2f68eededdc368c853c47c205c8d1,
  0x2268ae82a665eaee05379ca7b7309d334f16a1de95267dc1b29b1c07384fe803] ++ [28])

def recoverMessageAddress (raw : Bytes) (signature : JsString) : Option JsString :=
  if (raw, signature) = (bigEndian 32 withdrawChallenge.val, withdrawCallerSignature) ∨
    (raw, signature) = (bigEndian 32 settleChallenge.val, settleCallerSignature) then
    some (checksumAddress keccak256 employer)
  else none

def signerKey : JsString :=
  bytesToHex (bigEndian 32 0x59c6995e998f97a5a0044966f0945389dc9e86dae88c7a8412f4603b6b78690d)

def signMessage (key : JsString) (raw : Bytes) : Option JsString :=
  if (key, raw) = (signerKey, bigEndian 32 withdrawDigest.val) then
    some (bytesToHex withdrawSignature)
  else if (key, raw) = (signerKey, bigEndian 32 settleDigest.val) then
    some (bytesToHex settleSignature)
  else none

def coston2Viem : Viem := viem keccak256 recoverMessageAddress signMessage

theorem coston2Viem_lawful : coston2Viem.Lawful := viem_lawful _ _ _

/-- The terms as the enclave reads them. -/
def streamTerms : StreamTerms :=
  ⟨checksumAddress keccak256 employer, checksumAddress keccak256 recipient,
    checksumAddress keccak256 token, 10 ^ 12, 1000, 1000, bytesToHex (bigEndian 32 1)⟩

theorem encodeTerms_streamTerms : encodeTerms coston2Viem streamTerms = some terms := by
  decide +kernel

theorem decodeTerms_terms : decodeTerms coston2Viem terms = some streamTerms := by
  decide +kernel

/-! ## The enclave's run

The employer asks for a withdrawal at second 1100 and for a settlement at second 1200. -/

/-- A case table that leaves text outside ASCII alone. -/
def caseMap : CaseMap where
  toLowerCase s := if s.all fun u => u.val < 128 then s.map lowerUnit else s
  ascii s h := by
    have hall : (s.all fun u => u.val < 128) = true :=
      List.all_eq_true.mpr fun u hu => decide_eq_true (h u hu)
    rw [if_pos hall]
  hex s h := by
    by_contra hn
    have hall : ¬ (s.all fun u => u.val < 128) = true := fun hall =>
      hn fun u hu => of_decide_eq_true (List.all_eq_true.mp hall u hu)
    rw [if_neg hall] at h
    refine hn fun u hu => ?_
    have hu := h u hu
    omega

/-- The terms, encrypted to the enclave's key. -/
def ciphertext : Bytes :=
  abiEncode [
    0x048113019270d444b2b4902782b351e28dddf71ae6a62eec820fd076d8b0cd89,
    0xeb1694cc120beb843afd4acc4c7c2c6829258ece640a5dcf1f5c755d17eb50dc,
    0xb9000102030405060708090a0b0c0d0e0f23c6583dfad3ee225e56937cc9fd13,
    0x49937ee1f9fb179f1273273ea58943952f5d536364787ef9edb683a9017df900,
    0x21c4ca46282857d20c82064b061cd7244d37a15ee9dd9dfa5606c6f7066bb419,
    0x19bf3ef84d8787999bbf742113a3b212c2afc355c2322407a2b4a9af350d5fd9,
    0x5cab51b326d58dace26b9f4243e3ea88860bc58b9c6526b1ad3379ce51ef1578,
    0x6ec06c35489be2c3c1fd7daf6535af35b38b22f3bceb3260af0b0fc96e66c191,
    0x77c017066ce8ea84757c0ce57a49176d7be17e567e97382626264c30dba9b72c,
    0xc5b426387269ea107293de91bebf63fb73dd67ab46b3f0d1b8a2a3b584b8c286] ++ [30]

def eciesKey : JsString := bytesToHex (bigEndian 32
  0x1234567890abcdef1234567890abcdef1234567890abcdef1234567890abcdef)

def coston2Runtime : Runtime where
  viem := coston2Viem
  caseMap := caseMap
  decrypt key c := if key = eciesKey ∧ c = ciphertext then some terms else none
  syntaxError s := s
  teeEciesPrivkey := some eciesKey
  teeSignerPrivkey := some signerKey

/-- A request about the stream, as hex of its JSON text. -/
def message (issuedAt signature : JsString) : JsString :=
  bytesToHex (encode (stringify [(js "streamId", js "1"),
    (js "vault", bytesToHex (bigEndian 20 vault.val)), (js "chainId", js "114"),
    (js "commitment", bytesToHex (bigEndian 32 commitment.val)),
    (js "encryptedTerms", bytesToHex ciphertext), (js "issuedAt", issuedAt),
    (js "callerSignature", signature)]))

def withdrawRequest : Request :=
  ⟨⟨1100, by decide⟩, message (js "1100") withdrawCallerSignature, .authWithdraw⟩

def settleRequest : Request :=
  ⟨⟨1200, by decide⟩, message (js "1200") settleCallerSignature, .authSettle⟩

def withdrawSigning : Signing :=
  ⟨⟨Protocol.withdrawTag coston2Viem, 114, bytesToHex (bigEndian 20 vault.val), 1,
    bytesToHex (bigEndian 32 commitment.val), 100, 1700⟩, 1100, terms, withdrawDigest⟩

def settleSigning : Signing :=
  ⟨⟨Protocol.settleTag coston2Viem, 114, bytesToHex (bigEndian 20 vault.val), 1,
    bytesToHex (bigEndian 32 commitment.val), 200, 1800⟩, 1200, terms, settleDigest⟩

/-! ## The run of the vault

The stream is funded with 500 units; the token moves whatever it is asked to. -/

def createCall : Msg coston2 :=
  ⟨employer, 900, .createStream recipient token commitment 1000 ciphertext, by decide, by decide⟩

def fundCall : Msg coston2 := ⟨employer, 950, .fund 1 500, by decide, by decide⟩

def withdrawCall : Msg coston2 :=
  ⟨recipient, 1150, .withdraw 1 100 1700 withdrawSignature, by decide, by decide⟩

def cancelCall : Msg coston2 :=
  ⟨employer, 1700, .cancelStream 1 200 1800 settleSignature, by decide, by decide⟩

def compliant : Outside TokenCall Unit := ⟨fun _ _ _ => some (), fun _ _ => false⟩

/-- What is hashed on the way. -/
def hashed : List Bytes :=
  [terms, withdrawPreimage, settlePreimage, ethSignedPreimage withdrawDigest,
    ethSignedPreimage settleDigest]

theorem hashed_injOn : Set.InjOn keccak256 {x | x ∈ hashed} := by
  have h : ∀ x ∈ hashed, ∀ y ∈ hashed, keccak256 x = keccak256 y → x = y := by decide +kernel
  exact fun x hx y hy => h x hx y hy

end StealthWage.Reference
