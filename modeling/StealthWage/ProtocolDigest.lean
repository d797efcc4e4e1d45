import StealthWage.Reference
import StealthWage.VaultSpec

/-! # The signed preimages

Authorizations, caller challenges and terms are all seven ABI words. The encoder's word for
each component is determined by it and determines it, and the first word tells the three
kinds apart. -/
namespace StealthWage.Protocol
open Js Vault Words

/-! ## One word for each value -/

section encoding

variable {V : Viem} {C : CaseMap}

/-- The value is accepted, and `w` is its only word. -/
def Denotes (V : Viem) (v : AbiValue) (w : Word) : Prop :=
  V.InRange v ∧ ∀ w', V.Encodes v w' → w' = w

theorem denotes_uint {n : ℤ} (w : Word) (h : n = w.val) : Denotes V (.uint 256 n) w := by
  have hlt := w.isLt
  refine ⟨⟨le_rfl, by omega, by omega⟩, ?_⟩
  rintro w' ⟨-, -, hw⟩
  exact Fin.ext (by omega)

theorem denotes_bytes32 {text : JsString} {w : Word}
    (h : text = bytesToHex (bigEndian 32 w.val)) : Denotes V (.bytes32 text) w := by
  have hs := spelled_word w
  rw [← h] at hs
  refine ⟨by simp [Viem.InRange, hs], ?_⟩
  intro w' hw
  exact Fin.ext (hw _ hs)

theorem denotes_address {text : JsString} {a : Address} (hok : V.isAddress text = true)
    (h : spelled 20 text = some a.val) : Denotes V (.address text) (addressWord a) := by
  refine ⟨hok, ?_⟩
  rintro w' ⟨-, hw⟩
  rw [h] at hw
  exact Fin.ext (Option.some.inj hw).symm

theorem inRange_of_denotes {vs : List AbiValue} {ws : List Word}
    (h : List.Forall₂ (Denotes V) vs ws) : ∀ v ∈ vs, V.InRange v := by
  induction h with
  | nil => simp
  | cons hv _ ih =>
    intro v hmem
    rcases List.mem_cons.mp hmem with rfl | hmem
    · exact hv.1
    · exact ih v hmem

theorem words_of_denotes {vs : List AbiValue} {ws ws' : List Word}
    (h : List.Forall₂ (Denotes V) vs ws) (h' : List.Forall₂ V.Encodes vs ws') : ws' = ws := by
  induction h generalizing ws' with
  | nil => exact List.forall₂_nil_left_iff.mp h'
  | cons hv _ ih =>
    obtain ⟨w', us', hw, hus, rfl⟩ := List.forall₂_cons_left_iff.mp h'
    rw [hv.2 w' hw, ih hus]

theorem encode_of_denotes (hV : V.Lawful) {vs : List AbiValue} {ws : List Word}
    (h : List.Forall₂ (Denotes V) vs ws) : V.encodeAbiParameters vs = some (abiEncode ws) := by
  obtain ⟨b, hb⟩ := Option.isSome_iff_exists.mp (hV.encode_isSome vs (inRange_of_denotes h))
  obtain ⟨ws', rfl, hws⟩ := hV.encode_words vs b hb
  rw [hb, words_of_denotes h hws]

/-- All three kinds of message have seven words. -/
theorem encode_seven (hV : V.Lawful) {v1 v2 v3 v4 v5 v6 v7 : AbiValue} {b : Bytes}
    (h : V.encodeAbiParameters [v1, v2, v3, v4, v5, v6, v7] = some b) :
    ∃ w1 w2 w3 w4 w5 w6 w7 : Word, b = abiEncode [w1, w2, w3, w4, w5, w6, w7] ∧
      V.Encodes v1 w1 ∧ V.Encodes v2 w2 ∧ V.Encodes v3 w3 ∧ V.Encodes v4 w4 ∧
      V.Encodes v5 w5 ∧ V.Encodes v6 w6 ∧ V.Encodes v7 w7 := by
  obtain ⟨ws, rfl, hws⟩ := hV.encode_words _ _ h
  simp only [List.forall₂_cons_left_iff, List.forall₂_nil_left_iff] at hws
  obtain ⟨w1, _, h1, ⟨w2, _, h2, ⟨w3, _, h3, ⟨w4, _, h4, ⟨w5, _, h5, ⟨w6, _, h6, ⟨w7, _, h7,
    rfl, rfl⟩, rfl⟩, rfl⟩, rfl⟩, rfl⟩, rfl⟩, rfl⟩ := hws
  exact ⟨w1, w2, w3, w4, w5, w6, w7, rfl, h1, h2, h3, h4, h5, h6, h7⟩

theorem encodes_hash {w w' : Word}
    (h : V.Encodes (.bytes32 (bytesToHex (bigEndian 32 w.val))) w') : w' = w :=
  Fin.ext (h _ (spelled_word w))

theorem encodes_address_lt {t : JsString} {w : Word} (h : V.Encodes (.address t) w) :
    w.val < 2 ^ 160 :=
  (spelled_lt h.2).trans_eq (by norm_num)

end encoding

/-! ## Agreement with the contract -/

/-- The three tags are different hashes, and none of them looks like a padded address. -/
structure TagsApart (keccak256 : Bytes → Bytes32) : Prop where
  withdraw_settle : Vault.withdrawTag keccak256 ≠ Vault.settleTag keccak256
  withdraw_caller : Vault.withdrawTag keccak256 ≠ keccak256 (asciiBytes "SW_CALLER_AUTH_V1")
  settle_caller : Vault.settleTag keccak256 ≠ keccak256 (asciiBytes "SW_CALLER_AUTH_V1")
  withdraw_large : 2 ^ 160 ≤ (Vault.withdrawTag keccak256).val
  settle_large : 2 ^ 160 ≤ (Vault.settleTag keccak256).val
  caller_large : 2 ^ 160 ≤ (keccak256 (asciiBytes "SW_CALLER_AUTH_V1")).val

section digests

variable {V : Viem} {C : CaseMap}

theorem spelled_vault (hV : V.Lawful) {text : JsString} {a : Address}
    (hok : V.isAddress text = true) (h : text.map lowerUnit = bytesToHex (bigEndian 20 a.val)) :
    spelled 20 text = some a.val := by
  obtain ⟨v, hv⟩ := Option.isSome_iff_exists.mp (hV.isAddress_spelled text hok)
  have hbytes := bytesToHex_injective ((lower_of_spelled hv).symm.trans h)
  have hvalue := congrArg value hbytes
  have ha : a.val < 256 ^ 20 := a.isLt.trans_eq (by norm_num)
  rw [value_bigEndian, value_bigEndian, Nat.mod_eq_of_lt (spelled_lt hv),
    Nat.mod_eq_of_lt ha] at hvalue
  rw [hv, hvalue]

theorem refused_of_words (hV : V.Lawful) {v1 v2 v3 v4 v5 v6 v7 : AbiValue}
    (h : ∀ w1 w2 w3 w4 w5 w6 w7, ¬ (V.Encodes v1 w1 ∧ V.Encodes v2 w2 ∧ V.Encodes v3 w3 ∧
      V.Encodes v4 w4 ∧ V.Encodes v5 w5 ∧ V.Encodes v6 w6 ∧ V.Encodes v7 w7)) :
    V.encodeAbiParameters [v1, v2, v3, v4, v5, v6, v7] = none := by
  by_contra hne
  obtain ⟨b, hb⟩ := Option.ne_none_iff_exists'.mp hne
  obtain ⟨w1, w2, w3, w4, w5, w6, w7, -, hw⟩ := encode_seven hV hb
  exact h w1 w2 w3 w4 w5 w6 w7 hw

/-- The enclave hashes what the contract hashes, for every spelling of the vault that viem
accepts; on another spelling it throws. -/
theorem authValues_encode (hV : V.Lawful) {ch : Chain} {tag : Bytes32} {p : AuthParams}
    {id c a d : Word} (htag : p.tag = bytesToHex (bigEndian 32 tag.val))
    (hchain : p.chainId = ch.chainId.val)
    (hvault : p.vault.map lowerUnit = bytesToHex (bigEndian 20 ch.this.val))
    (hid : p.streamId = id.val)
    (hc : C.toLowerCase p.commitment = bytesToHex (bigEndian 32 c.val))
    (ha : p.cumulativeAccrued = a.val) (hd : p.deadline = d.val) :
    V.encodeAbiParameters (authValues C p) =
      if V.isAddress p.vault = true then some (authPreimage ch tag id c a d) else none := by
  split_ifs with hok
  · refine encode_of_denotes hV ?_
    unfold authValues
    exact .cons (denotes_bytes32 htag) (.cons (denotes_uint _ hchain)
      (.cons (denotes_address hok (spelled_vault hV hok hvault)) (.cons (denotes_uint _ hid)
        (.cons (denotes_bytes32 hc) (.cons (denotes_uint _ ha)
          (.cons (denotes_uint _ hd) .nil))))))
  · refine refused_of_words hV ?_
    rintro w1 w2 w3 w4 w5 w6 w7 ⟨-, -, h3, -⟩
    exact hok h3.1

/-- What is decoded accrues as what was encoded. -/
theorem accruedAt_encoded (hV : V.Lawful) {t t' : StreamTerms} {b : Bytes}
    (hb : encodeTerms V t = some b) (ht : decodeTerms V b = some t') (s : ℤ) :
    accruedAt t s = accruedAt t' s := by
  obtain ⟨w1, w2, w3, w4, w5, w6, w7, rfl, -, -, -, h4, h5, h6, -⟩ := encode_seven hV hb
  obtain ⟨-, hrate, htotal, -, hstart, -⟩ := decodeTerms_range hV ht
  have hw4 : wordAt (abiEncode [w1, w2, w3, w4, w5, w6, w7]) 3 = w4 :=
    wordAt_abiEncode _ 3 (by simp)
  have hw5 : wordAt (abiEncode [w1, w2, w3, w4, w5, w6, w7]) 4 = w5 :=
    wordAt_abiEncode _ 4 (by simp)
  have hw6 : wordAt (abiEncode [w1, w2, w3, w4, w5, w6, w7]) 5 = w6 :=
    wordAt_abiEncode _ 5 (by simp)
  rw [hw4] at hrate
  rw [hw5] at htotal
  rw [hw6] at hstart
  have hlt : w6.val < 2 ^ 64 := by
    have h := h6.2.1
    have heq := h6.2.2
    omega
  refine accruedAt_congr ⟨?_, ?_, ?_⟩ s
  · rw [hrate, h4.2.2]
  · rw [htotal, h5.2.2]
  · rw [hstart hlt, h6.2.2]

theorem encodeTerms_range (hV : V.Lawful) {t : StreamTerms} {b : Bytes}
    (h : encodeTerms V t = some b) :
    0 ≤ t.ratePerSecond ∧ 0 ≤ t.total ∧ 0 ≤ t.startTime := by
  obtain ⟨w1, w2, w3, w4, w5, w6, w7, -, -, -, -, h4, h5, h6, -⟩ := encode_seven hV h
  exact ⟨h4.1, h5.1, h6.1⟩

/-- The hashes of the tags are apart. -/
theorem coston2_tags : TagsApart Reference.coston2Viem.keccak256 := by
  constructor <;> decide +kernel

end digests

end StealthWage.Protocol
