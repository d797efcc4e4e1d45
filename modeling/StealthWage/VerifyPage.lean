import StealthWage.ChainReads

/-! # The audit page

Anybody may paste terms; the page hashes them and compares. For one stream the terms are read
from the event that revealed them, whose block is pinned since the node answers no query over a
longer stretch. -/
namespace StealthWage.Frontend
open Js Protocol Utf8 Vault Words

/-! ## Hex text -/

/-- How viem takes text where hex belongs: the bytes that `keccak256` hashes and the bytes that
`decodeAbiParameters` takes apart. -/
structure HexReader where
  hashed : JsString → Option Bytes
  parsed : JsString → Option Bytes

/-- viem's strict `isHex`, which does not count the digits. -/
def isHex (text : JsString) : Bool :=
  (js "0x").isPrefixOf text && (text.drop 2).all fun u => (hexDigit? u).isSome

/-- The bytes after the prefix; an odd digit is filled up on the left. -/
def hexBytes (text : JsString) : Option Bytes :=
  let digits := text.drop 2
  hexPairs (if digits.length % 2 = 1 then 48 :: digits else digits)

/-- The parser drops two characters, whichever they are. Text that is not hex is hashed as it
stands, if at all. -/
structure HexReader.Lawful (T : HexReader) : Prop where
  parsed : ∀ text, T.parsed text = hexBytes text
  hashed_hex : ∀ text, isHex text = true → T.hashed text = hexBytes text
  hashed_text : ∀ text b, T.hashed text = some b → isHex text = true ∨ b = encode text

theorem hexPairs_isSome {s : JsString} (heven : s.length % 2 = 0)
    (hdigits : ∀ u ∈ s, (hexDigit? u).isSome) : (hexPairs s).isSome := by
  induction s using hexPairs.induct with
  | case1 => rfl
  | case2 => simp at heven
  | case3 a b s ih =>
    obtain ⟨high, hhigh⟩ := Option.isSome_iff_exists.mp (hdigits a List.mem_cons_self)
    obtain ⟨low, hlow⟩ := Option.isSome_iff_exists.mp
      (hdigits b (List.mem_cons_of_mem _ List.mem_cons_self))
    have hlength : s.length % 2 = 0 := by
      simp only [List.length_cons] at heven
      omega
    obtain ⟨rest, hrest⟩ := Option.isSome_iff_exists.mp
      (ih hlength fun u hu => hdigits u (List.mem_cons_of_mem _ (List.mem_cons_of_mem _ hu)))
    simp [hexPairs, hhigh, hlow, hrest]

theorem isHex_bytesToHex (b : Bytes) : isHex (bytesToHex b) = true := by
  have hdrop : (bytesToHex b).drop 2 = hexOf b := rfl
  have hprefix : (js "0x").isPrefixOf (bytesToHex b) = true := rfl
  rw [isHex, hprefix, hdrop, Bool.true_and, List.all_eq_true]
  intro u hu
  obtain ⟨x, -, hx⟩ := List.mem_flatMap.mp hu
  simp only [List.mem_cons, List.not_mem_nil, or_false] at hx
  obtain rfl | rfl := hx <;> simp [hexDigit?_hexDigit]

theorem hexBytes_bytesToHex (b : Bytes) : hexBytes (bytesToHex b) = some b := by
  have hdrop : (bytesToHex b).drop 2 = hexOf b := rfl
  have heven : ¬ (hexOf b).length % 2 = 1 := by
    rw [hexOf_length]
    omega
  simp only [hexBytes, hdrop, heven, if_false, hexPairs_hexOf]

/-- A reader that hashes other text as UTF-8. -/
def pageReader : HexReader where
  hashed text := if isHex text then hexBytes text else some (encode text)
  parsed := hexBytes

theorem pageReader_lawful : pageReader.Lawful where
  parsed _ := rfl
  hashed_hex _ h := if_pos h
  hashed_text text b h := by
    by_cases hhex : isHex text = true
    · exact .inl hhex
    · exact .inr (Option.some.inj ((if_neg hhex).symm.trans h)).symm

/-! ## The verdict -/

section verdict

variable (V : Viem) (C : CaseMap) (T : HexReader)

end verdict

variable {ch : Chain} {E : Type*} {V : Viem} {C : CaseMap} {T : HexReader}

theorem keccakHex_eq_hexWord {b : Bytes} {c : Bytes32} :
    V.keccakHex b = hexWord c ↔ V.keccak256 b = c :=
  hexWord_injective.eq_iff (a := V.keccak256 b)

structure Mined where
  block : ℕ
  log : Log

/-- The events of a vault with the blocks they are in. -/
structure History (logs : List Log) where
  mined : List Mined
  head : ℕ
  events : mined.map Mined.log = logs
  ordered : (mined.map Mined.block).Pairwise (· ≤ ·)
  below : ∀ m ∈ mined, m.block ≤ head

section coston2

open Reference

end coston2

end StealthWage.Frontend
