import StealthWage.ProtocolDigest

/-! # The terms blob

The encoder and the decoder list the seven fields in one order, which is the one of the
contract. What is decoded from any blob accrues within a `uint256`. -/
namespace StealthWage.Protocol
open Js Vault Words

variable {V : Viem}

/-- The seven fields agree, hex text in any letter case. -/
structure SameTerms (t t' : StreamTerms) : Prop where
  employer : t.employer.map lowerUnit = t'.employer.map lowerUnit
  recipient : t.recipient.map lowerUnit = t'.recipient.map lowerUnit
  token : t.token.map lowerUnit = t'.token.map lowerUnit
  ratePerSecond : t.ratePerSecond = t'.ratePerSecond
  total : t.total = t'.total
  startTime : t.startTime = t'.startTime
  salt : t.salt.map lowerUnit = t'.salt.map lowerUnit

/-- The values that the seven fields stand for. -/
structure Stands (t : StreamTerms) (employer recipient token : Address) (rate total : Uint256)
    (startTime : Uint64) (salt : Bytes32) : Prop where
  employer : spelled 20 t.employer = some employer.val
  recipient : spelled 20 t.recipient = some recipient.val
  token : spelled 20 t.token = some token.val
  ratePerSecond : t.ratePerSecond = rate.val
  total : t.total = total.val
  startTime : t.startTime = startTime.val
  salt : spelled 32 t.salt = some salt.val

/-- `abi.encode(address,address,address,uint256,uint256,uint64,bytes32)`. -/
def termsBlob (employer recipient token : Address) (rate total : Uint256) (startTime : Uint64)
    (salt : Bytes32) : Bytes :=
  abiEncode [addressWord employer, addressWord recipient, addressWord token, rate, total,
    ⟨startTime.val, by omega⟩, salt]

/-- viem takes the three texts for addresses. -/
def AddressesAccepted (V : Viem) (t : StreamTerms) : Prop :=
  V.isAddress t.employer = true ∧ V.isAddress t.recipient = true ∧ V.isAddress t.token = true

theorem SameTerms.of_stands {t t' : StreamTerms} {e r k : Address} {rate total : Uint256}
    {start : Uint64} {salt : Bytes32} (h : Stands t e r k rate total start salt)
    (h' : Stands t' e r k rate total start salt) : SameTerms t t' where
  employer := (lower_of_spelled h.employer).trans (lower_of_spelled h'.employer).symm
  recipient := (lower_of_spelled h.recipient).trans (lower_of_spelled h'.recipient).symm
  token := (lower_of_spelled h.token).trans (lower_of_spelled h'.token).symm
  ratePerSecond := h.ratePerSecond.trans h'.ratePerSecond.symm
  total := h.total.trans h'.total.symm
  startTime := h.startTime.trans h'.startTime.symm
  salt := (lower_of_spelled h.salt).trans (lower_of_spelled h'.salt).symm

theorem denotes_salt {text : JsString} {w : Word} (h : spelled 32 text = some w.val) :
    Denotes V (.bytes32 text) w :=
  ⟨by simp [Viem.InRange, h], fun _ hw => Fin.ext (hw _ h)⟩

section codec

variable {t : StreamTerms} {e r k : Address} {rate total : Uint256} {start : Uint64} {salt : Bytes32}

theorem encodeTerms_accepted (hV : V.Lawful) (h : Stands t e r k rate total start salt)
    (ha : AddressesAccepted V t) : encodeTerms V t = some (termsBlob e r k rate total start salt) := by
  have hstart : Denotes V (.uint 64 t.startTime) ⟨start.val, by omega⟩ := by
    have hlt := start.isLt
    refine ⟨⟨by norm_num, by rw [h.startTime]; omega, by rw [h.startTime]; omega⟩, ?_⟩
    rintro w ⟨-, -, hw⟩
    have hv := h.startTime
    exact Fin.ext (by simp only; omega)
  exact encode_of_denotes hV
    (.cons (denotes_address ha.1 h.employer) (.cons (denotes_address ha.2.1 h.recipient)
      (.cons (denotes_address ha.2.2 h.token) (.cons (denotes_uint rate h.ratePerSecond)
        (.cons (denotes_uint total h.total) (.cons hstart
          (.cons (denotes_salt h.salt) .nil)))))))

theorem encodeTerms_refused (hV : V.Lawful) (ha : ¬ AddressesAccepted V t) :
    encodeTerms V t = none := by
  refine refused_of_words hV ?_
  rintro w1 w2 w3 w4 w5 w6 w7 ⟨h1, h2, h3, -⟩
  exact ha ⟨h1.1, h2.1, h3.1⟩

theorem lowAddress_addressWord (a : Address) : lowAddress (addressWord a) = a :=
  Fin.ext (Nat.mod_eq_of_lt a.isLt)

/-- What is read out of a canonical blob stands for what was put in. -/
theorem decodeTerms_termsBlob (hV : V.Lawful) (e r k : Address) (rate total : Uint256)
    (start : Uint64) (salt : Bytes32) :
    ∃ t, decodeTerms V (termsBlob e r k rate total start salt) = some t ∧
      Stands t e r k rate total start salt := by
  have hword : ∀ (i : ℕ) (hi : i < 7), wordAt (termsBlob e r k rate total start salt) i =
      [addressWord e, addressWord r, addressWord k, rate, total, ⟨start.val, by omega⟩,
        salt].get ⟨i, hi⟩ := by
    intro i hi
    exact wordAt_abiEncode [addressWord e, addressWord r, addressWord k, rate, total,
      ⟨start.val, by omega⟩, salt] i hi
  have hlen : 224 ≤ (termsBlob e r k rate total start salt).length := by simp [termsBlob]
  obtain ⟨s, -, hs, hdec⟩ := hV.decode _ hlen
  refine ⟨_, by rw [decodeTerms, hdec], ?_, ?_, ?_, ?_, ?_, ?_, ?_⟩
  · rw [hword 0 (by decide)]
    exact (hV.spelled_checksum _).trans (congrArg _ (congrArg _ (lowAddress_addressWord e)))
  · rw [hword 1 (by decide)]
    exact (hV.spelled_checksum _).trans (congrArg _ (congrArg _ (lowAddress_addressWord r)))
  · rw [hword 2 (by decide)]
    exact (hV.spelled_checksum _).trans (congrArg _ (congrArg _ (lowAddress_addressWord k)))
  · rw [hword 3 (by decide)]
    rfl
  · rw [hword 4 (by decide)]
    rfl
  · rw [hword 5 (by decide)] at hs
    exact hs start.isLt
  · rw [hword 6 (by decide)]
    exact spelled_word salt

/-- A blob that the encoder has made stands for its terms. -/
theorem stands_of_encodeTerms (hV : V.Lawful) {b : Bytes} {salt : ℕ}
    (hsalt : spelled 32 t.salt = some salt) (h : encodeTerms V t = some b) :
    ∃ e r k rate total start salt, Stands t e r k rate total start salt ∧
      b = termsBlob e r k rate total start salt := by
  obtain ⟨w1, w2, w3, w4, w5, w6, w7, rfl, h1, h2, h3, h4, h5, h6, h7⟩ := encode_seven hV h
  have hstart : w6.val < 2 ^ 64 := by
    have hlt := h6.2.1
    have heq := h6.2.2
    omega
  refine ⟨⟨w1.val, encodes_address_lt h1⟩, ⟨w2.val, encodes_address_lt h2⟩,
    ⟨w3.val, encodes_address_lt h3⟩, w4, w5, ⟨w6.val, hstart⟩, w7,
    ⟨h1.2, h2.2, h3.2, h4.2.2.symm, h5.2.2.symm, h6.2.2.symm, ?_⟩, rfl⟩
  rw [hsalt, h7 _ hsalt]

theorem termsBlob_injective {e' r' k' : Address} {rate' total' : Uint256} {start' : Uint64}
    {salt' : Bytes32}
    (h : termsBlob e r k rate total start salt = termsBlob e' r' k' rate' total' start' salt') :
    e = e' ∧ r = r' ∧ k = k' ∧ rate = rate' ∧ total = total' ∧ start = start' ∧ salt = salt' := by
  have hwords := abiEncode_injective h
  simp only [List.cons.injEq, Fin.mk.injEq, and_true, addressWord] at hwords
  obtain ⟨he, hr, hk, rfl, rfl, hs, rfl⟩ := hwords
  exact ⟨Fin.ext he, Fin.ext hr, Fin.ext hk, rfl, rfl, Fin.ext hs, rfl⟩

theorem sameTerms_of_blob (hV : V.Lawful) {t' : StreamTerms} {b : Bytes} {n n' : ℕ}
    (hn : spelled 32 t.salt = some n) (hn' : spelled 32 t'.salt = some n')
    (h : encodeTerms V t = some b) (h' : encodeTerms V t' = some b) : SameTerms t t' := by
  obtain ⟨e, r, k, rate, total, start, salt, hs, rfl⟩ := stands_of_encodeTerms hV hn h
  obtain ⟨e', r', k', rate', total', start', salt', hs', heq⟩ := stands_of_encodeTerms hV hn' h'
  obtain ⟨rfl, rfl, rfl, rfl, rfl, rfl, rfl⟩ := termsBlob_injective heq
  exact .of_stands hs hs'

end codec

/-- The terms codec. -/
theorem terms_codec (hV : V.Lawful) :
    (∀ (t : StreamTerms) (e r k : Address) (rate total : Uint256) (start : Uint64)
      (salt : Bytes32), Stands t e r k rate total start salt →
      (termsBlob e r k rate total start salt).length = 224 ∧
      (AddressesAccepted V t → encodeTerms V t = some (termsBlob e r k rate total start salt)) ∧
      (¬ AddressesAccepted V t → encodeTerms V t = none) ∧
      ∃ t', decodeTerms V (termsBlob e r k rate total start salt) = some t' ∧ SameTerms t' t) ∧
    (∀ (t t' : StreamTerms) (b : Bytes) (n n' : ℕ), spelled 32 t.salt = some n →
      spelled 32 t'.salt = some n' → encodeTerms V t = some b → encodeTerms V t' = some b →
      SameTerms t t') ∧
    (∀ (H : Set Bytes) (t t' : StreamTerms) (b b' : Bytes) (n n' : ℕ),
      Set.InjOn V.keccak256 H → b ∈ H → b' ∈ H → spelled 32 t.salt = some n →
      spelled 32 t'.salt = some n' → encodeTerms V t = some b → encodeTerms V t' = some b' →
      commitTo V t = commitTo V t' → SameTerms t t') ∧
    (∀ (b : Bytes) (t : StreamTerms), decodeTerms V b = some t → ∀ now : ℤ,
      (0 ≤ accruedAt t now ∧ accruedAt t now < 2 ^ 256) ∧
        V.InRange (.uint 256 (accruedAt t now))) := by
  refine ⟨?_, fun t t' b n n' hn hn' h h' => sameTerms_of_blob hV hn hn' h h', ?_, ?_⟩
  · intro t e r k rate total start salt hs
    obtain ⟨t', ht', hs'⟩ := decodeTerms_termsBlob hV e r k rate total start salt
    exact ⟨by simp [termsBlob], encodeTerms_accepted hV hs, encodeTerms_refused hV, t', ht',
      .of_stands hs' hs⟩
  · intro H t t' b b' n n' hH hb hb' hn hn' h h' hc
    rw [commitTo, commitTo, h, h', Option.map_some, Option.map_some] at hc
    have hdigest := congrArg value (bytesToHex_injective (Option.some.inj hc))
    rw [value_bigEndian_word, value_bigEndian_word] at hdigest
    obtain rfl := hH hb hb' (Fin.ext hdigest)
    exact sameTerms_of_blob hV hn hn' h h'
  · intro b t h now
    have hrange := accruedAt_decoded hV h now
    exact ⟨hrange, le_rfl, hrange⟩

open Reference in
theorem terms_codec_coston2 :
    ∃ t', decodeTerms coston2Viem (termsBlob employer recipient token (10 ^ 12) 1000 1000 1) =
      some t' ∧ SameTerms t' streamTerms := by
  have hstands : Stands streamTerms employer recipient token (10 ^ 12) 1000 1000 1 := by
    constructor <;> decide +kernel
  exact ((terms_codec coston2Viem_lawful).1 streamTerms _ _ _ _ _ _ _ hstands).2.2.2

end StealthWage.Protocol
