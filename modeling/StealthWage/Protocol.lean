import StealthWage.Js
import StealthWage.Vault

/-! # The shared protocol module

`Viem` is what the protocol calls of the library of that name, and `Viem.Lawful` the part
of its documentation that is relied on. Hex text that viem has made stands for its bytes;
text that a caller supplies stays text. `none` is a thrown error. -/
namespace StealthWage.Protocol
open Js Vault Words

/-- A value handed to the ABI encoder, with the type it is encoded at. -/
inductive AbiValue
  | address (text : JsString)
  | uint (bits : ℕ) (n : ℤ)
  | bytes32 (text : JsString)

inductive AbiType
  | address
  | uint (bits : ℕ)
  | bytes32

structure Viem where
  keccak256 : Bytes → Bytes32
  isAddress : JsString → Bool
  checksumAddress : Address → JsString
  encodeAbiParameters : List AbiValue → Option Bytes
  decodeAbiParameters : List AbiType → Bytes → Option (List AbiValue)
  recoverMessageAddress : Bytes → JsString → Option JsString
  signMessage : JsString → Bytes → Option JsString

/-- The number spelled by `0x` and exactly `n` bytes of hex, in any letter case. -/
def spelled (n : ℕ) : JsString → Option ℕ
  | a :: b :: s =>
    if a = 48 ∧ b = 120 then
      match hexPairs s with
      | some bs => if bs.length = n then some (value bs) else none
      | none => none
    else none
  | _ => none

namespace Viem

variable (V : Viem)

/-- `keccak256` as the hex text that comparisons see. -/
def keccakHex (b : Bytes) : JsString := bytesToHex (bigEndian 32 (V.keccak256 b).val)

/-- The values that the encoder accepts for certain. -/
def InRange : AbiValue → Prop
  | .address text => V.isAddress text = true
  | .uint bits n => bits ≤ 256 ∧ 0 ≤ n ∧ n < 2 ^ bits
  | .bytes32 text => (spelled 32 text).isSome

/-- `w` is the ABI word of the value. Text of another shape than 32 bytes of hex leaves the
word of a `bytes32` open. -/
def Encodes : AbiValue → Word → Prop
  | .address text, w => V.isAddress text = true ∧ spelled 20 text = some w.val
  | .uint bits n, w => 0 ≤ n ∧ n < 2 ^ bits ∧ (w.val : ℤ) = n
  | .bytes32 text, w => ∀ n, spelled 32 text = some n → w.val = n

end Viem

/-- `TERMS_ABI`. -/
def termsAbi : List AbiType :=
  [.address, .address, .address, .uint 256, .uint 256, .uint 64, .bytes32]

/-- The low 20 bytes of a word. -/
def lowAddress (w : Word) : Address := Fin.ofNat _ w.val

/-- What is relied on of viem: addresses are accepted in lower case and in checksum case and
never with other text; the encoder concatenates one word for each value and throws on
integers out of range and on text that is no address; the decoder reads one word for each
parameter, ignores what an address word has above its 20 bytes, and throws when data is
missing. -/
structure Viem.Lawful (V : Viem) : Prop where
  isAddress_spelled : ∀ text, V.isAddress text = true → (spelled 20 text).isSome
  isAddress_lower : ∀ a : Address, V.isAddress (bytesToHex (bigEndian 20 a.val)) = true
  isAddress_checksum : ∀ a, V.isAddress (V.checksumAddress a) = true
  spelled_checksum : ∀ a, spelled 20 (V.checksumAddress a) = some a.val
  encode_isSome : ∀ vs, (∀ v ∈ vs, V.InRange v) → (V.encodeAbiParameters vs).isSome
  encode_words : ∀ vs b, V.encodeAbiParameters vs = some b →
    ∃ ws, b = abiEncode ws ∧ List.Forall₂ V.Encodes vs ws
  decode_short : ∀ b, b.length < 224 → V.decodeAbiParameters termsAbi b = none
  decode : ∀ b, 224 ≤ b.length → ∃ startTime : ℤ, 0 ≤ startTime ∧
    ((wordAt b 5).val < 2 ^ 64 → startTime = (wordAt b 5).val) ∧
    V.decodeAbiParameters termsAbi b = some
      [.address (V.checksumAddress (lowAddress (wordAt b 0))),
        .address (V.checksumAddress (lowAddress (wordAt b 1))),
        .address (V.checksumAddress (lowAddress (wordAt b 2))),
        .uint 256 (wordAt b 3).val, .uint 256 (wordAt b 4).val, .uint 64 startTime,
        .bytes32 (bytesToHex (bigEndian 32 (wordAt b 6).val))]

/-! ## Constants -/

def withdrawTag (V : Viem) : JsString := V.keccakHex (asciiBytes "SW_WITHDRAW_V1")

def settleTag (V : Viem) : JsString := V.keccakHex (asciiBytes "SW_SETTLE_V1")

def callerAuthTag (V : Viem) : JsString := V.keccakHex (asciiBytes "SW_CALLER_AUTH_V1")

def authTtlSeconds : ℤ := 600

def callerAuthWindowSeconds : ℤ := 300

def rateScale : ℤ := 10 ^ 12

/-! ## Terms -/

structure StreamTerms where
  employer : JsString
  recipient : JsString
  token : JsString
  ratePerSecond : ℤ
  total : ℤ
  startTime : ℤ
  salt : JsString
  deriving DecidableEq

def termsValues (t : StreamTerms) : List AbiValue :=
  [.address t.employer, .address t.recipient, .address t.token, .uint 256 t.ratePerSecond,
    .uint 256 t.total, .uint 64 t.startTime, .bytes32 t.salt]

def encodeTerms (V : Viem) (t : StreamTerms) : Option Bytes :=
  V.encodeAbiParameters (termsValues t)

def decodeTerms (V : Viem) (termsHex : Bytes) : Option StreamTerms :=
  match V.decodeAbiParameters termsAbi termsHex with
  | some [.address employer, .address recipient, .address token, .uint _ ratePerSecond,
      .uint _ total, .uint _ startTime, .bytes32 salt] =>
    some ⟨employer, recipient, token, ratePerSecond, total, startTime, salt⟩
  | _ => none

def commitTo (V : Viem) (t : StreamTerms) : Option JsString :=
  (encodeTerms V t).map V.keccakHex

/-! ## Accrual -/

/-- The formula that the enclave signs and the page ticks with. -/
def accruedAt (terms : StreamTerms) (nowSeconds : ℤ) : ℤ :=
  let elapsed := if nowSeconds > terms.startTime then nowSeconds - terms.startTime else 0
  let accrued := (terms.ratePerSecond * elapsed).tdiv rateScale
  if accrued < terms.total then accrued else terms.total

theorem accruedAt_eq_min (terms : StreamTerms) (s : ℤ) : accruedAt terms s =
    min ((terms.ratePerSecond * max (s - terms.startTime) 0).tdiv rateScale) terms.total := by
  have helapsed : (if s > terms.startTime then s - terms.startTime else 0) =
      max (s - terms.startTime) 0 := by
    split_ifs <;> omega
  unfold accruedAt
  simp only [helapsed]
  split_ifs <;> omega

theorem accruedAt_mono {terms : StreamTerms} (hrate : 0 ≤ terms.ratePerSecond) {s s' : ℤ}
    (h : s ≤ s') : accruedAt terms s ≤ accruedAt terms s' := by
  have helapsed : max (s - terms.startTime) 0 ≤ max (s' - terms.startTime) 0 := by omega
  have hproduct := mul_le_mul_of_nonneg_left helapsed hrate
  rw [accruedAt_eq_min, accruedAt_eq_min]
  exact min_le_min_right _ (Int.tdiv_le_tdiv (by decide) hproduct)

theorem accruedAt_le_total (terms : StreamTerms) (s : ℤ) : accruedAt terms s ≤ terms.total := by
  rw [accruedAt_eq_min]
  exact min_le_right _ _

theorem accruedAt_nonneg {terms : StreamTerms} (hrate : 0 ≤ terms.ratePerSecond)
    (htotal : 0 ≤ terms.total) (s : ℤ) : 0 ≤ accruedAt terms s := by
  have hproduct := mul_nonneg hrate (le_max_right (s - terms.startTime) 0)
  rw [accruedAt_eq_min]
  exact le_min (Int.tdiv_nonneg hproduct (by decide)) htotal

/-- Nothing accrues before the start. -/
theorem accruedAt_of_le {terms : StreamTerms} (htotal : 0 ≤ terms.total) {s : ℤ}
    (h : s ≤ terms.startTime) : accruedAt terms s = 0 := by
  have helapsed : max (s - terms.startTime) 0 = 0 := by omega
  rw [accruedAt_eq_min, helapsed, mul_zero, Int.zero_tdiv]
  exact min_eq_left htotal

/-- Only the three figures matter. -/
theorem accruedAt_congr {terms terms' : StreamTerms}
    (h : terms.ratePerSecond = terms'.ratePerSecond ∧ terms.total = terms'.total ∧
      terms.startTime = terms'.startTime) (s : ℤ) : accruedAt terms s = accruedAt terms' s := by
  unfold accruedAt
  rw [h.1, h.2.1, h.2.2]

/-- Decoded figures are those of ABI words. -/
theorem decodeTerms_range {V : Viem} (hV : V.Lawful) {b : Bytes} {t : StreamTerms}
    (h : decodeTerms V b = some t) :
    224 ≤ b.length ∧ t.ratePerSecond = (wordAt b 3).val ∧ t.total = (wordAt b 4).val ∧
    0 ≤ t.startTime ∧ ((wordAt b 5).val < 2 ^ 64 → t.startTime = (wordAt b 5).val) ∧
    t.employer = V.checksumAddress (lowAddress (wordAt b 0)) ∧
    t.recipient = V.checksumAddress (lowAddress (wordAt b 1)) ∧
    t.token = V.checksumAddress (lowAddress (wordAt b 2)) := by
  unfold decodeTerms at h
  by_cases hlen : 224 ≤ b.length
  · obtain ⟨start, h0, hcanon, hdec⟩ := hV.decode b hlen
    rw [hdec] at h
    simp only [Option.some.injEq] at h
    subst h
    exact ⟨hlen, rfl, rfl, h0, hcanon, rfl, rfl, rfl⟩
  · rw [hV.decode_short b (by omega)] at h
    simp at h

theorem accruedAt_decoded {V : Viem} (hV : V.Lawful) {b : Bytes} {t : StreamTerms}
    (h : decodeTerms V b = some t) (s : ℤ) : 0 ≤ accruedAt t s ∧ accruedAt t s < 2 ^ 256 := by
  obtain ⟨-, hrate, htotal, -⟩ := decodeTerms_range hV h
  have hlt := (wordAt b 4).isLt
  have hle := accruedAt_le_total t s
  refine ⟨accruedAt_nonneg (by omega) (by omega) s, ?_⟩
  rw [htotal] at hle
  exact hle.trans_lt (by exact_mod_cast hlt)

/-! ## Digests -/

structure AuthParams where
  tag : JsString
  chainId : ℤ
  vault : JsString
  streamId : ℤ
  commitment : JsString
  cumulativeAccrued : ℤ
  deadline : ℤ
  deriving DecidableEq

def authValues (C : CaseMap) (p : AuthParams) : List AbiValue :=
  [.bytes32 p.tag, .uint 256 p.chainId, .address p.vault, .uint 256 p.streamId,
    .bytes32 (C.toLowerCase p.commitment), .uint 256 p.cumulativeAccrued, .uint 256 p.deadline]

def buildAuthDigest (C : CaseMap) (V : Viem) (p : AuthParams) : Option Bytes32 :=
  (V.encodeAbiParameters (authValues C p)).map V.keccak256

structure ChallengeParams where
  chainId : ℤ
  vault : JsString
  streamId : ℤ
  commitment : JsString
  purpose : JsString
  issuedAt : ℤ

def challengeValues (C : CaseMap) (V : Viem) (p : ChallengeParams) : List AbiValue :=
  [.bytes32 (callerAuthTag V), .uint 256 p.chainId, .address p.vault, .uint 256 p.streamId,
    .bytes32 (C.toLowerCase p.commitment), .bytes32 p.purpose, .uint 256 p.issuedAt]

def buildCallerChallenge (C : CaseMap) (V : Viem) (p : ChallengeParams) : Option Bytes32 :=
  (V.encodeAbiParameters (challengeValues C V p)).map V.keccak256

/-! ## Spellings -/

theorem spelled_bytesToHex (b : Bytes) : spelled b.length (bytesToHex b) = some (value b) := by
  have hshape : bytesToHex b = 48 :: 120 :: hexOf b := rfl
  rw [hshape, spelled, if_pos ⟨rfl, rfl⟩]
  simp [hexPairs_hexOf]

theorem spelled_word (w : Word) : spelled 32 (bytesToHex (bigEndian 32 w.val)) = some w.val := by
  have h := spelled_bytesToHex (bigEndian 32 w.val)
  rwa [bigEndian_length, value_bigEndian_word] at h

theorem lowerUnit_of_hexDigit {u : CodeUnit} {d : Fin 16} (h : hexDigit? u = some d) :
    lowerUnit u = hexDigit d := by
  unfold hexDigit? at h
  split_ifs at h with h1 h2 h3
  all_goals
    obtain rfl := Option.some.inj h
    apply Fin.ext
    simp only [lowerUnit, hexDigit, unit, Fin.lt_def]
    split_ifs <;> simp_all <;> omega

theorem lower_of_hexPairs {s : JsString} {b : Bytes} (h : hexPairs s = some b) :
    s.map lowerUnit = hexOf b := by
  induction s using hexPairs.induct generalizing b with
  | case1 =>
    obtain rfl := Option.some.inj h
    rfl
  | case2 => simp [hexPairs] at h
  | case3 u v s ih =>
    simp only [hexPairs, Option.bind_eq_bind, Option.bind_eq_some_iff, pure,
      Option.some.injEq] at h
    obtain ⟨high, hu, low, hv, rest, hs, rfl⟩ := h
    have hhigh : (16 * high.val + low.val) / 16 = high.val := by omega
    have hlow : (16 * high.val + low.val) % 16 = low.val := by omega
    rw [List.map_cons, List.map_cons, ih hs, lowerUnit_of_hexDigit hu, lowerUnit_of_hexDigit hv]
    simp [hexOf, hhigh, hlow]

/-- Spellings of one number differ in letter case only. -/
theorem lower_of_spelled {n v : ℕ} {s : JsString} (h : spelled n s = some v) :
    s.map lowerUnit = bytesToHex (bigEndian n v) := by
  unfold spelled at h
  split at h
  next a b s =>
    split_ifs at h with hab
    obtain ⟨rfl, rfl⟩ := hab
    split at h
    next bs hbs =>
      split_ifs at h with hlen
      obtain rfl := Option.some.inj h
      rw [List.map_cons, List.map_cons, lower_of_hexPairs hbs, ← hlen, bigEndian_value]
      rfl
    next => simp at h
  next => simp at h

theorem spelled_lt {n v : ℕ} {s : JsString} (h : spelled n s = some v) : v < 256 ^ n := by
  unfold spelled at h
  split at h
  next a b s =>
    split_ifs at h
    split at h
    next bs hbs =>
      split_ifs at h with hlen
      obtain rfl := Option.some.inj h
      exact hlen ▸ value_lt bs
    next => simp at h
  next => simp at h

end StealthWage.Protocol
