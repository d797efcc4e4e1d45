import StealthWage.Protocol
import StealthWage.PythonServer
import StealthWage.Reference

/-! # Hex in two languages

The TypeScript decoder takes whole bytes in hex behind one prefix or none. The Python one
removes two prefixes in turn, and the library it calls skips white space between two bytes. -/
namespace StealthWage.Python
open Js Json Words

/-! ## Languages -/

/-- White space, and bytes in hex. -/
inductive Spaced : JsString → Prop
  | nil : Spaced []
  | space {u : CodeUnit} {s : JsString} : isAsciiSpace u = true → Spaced s → Spaced (u :: s)
  | byte {u v : CodeUnit} {s : JsString} : (hexDigit? u).isSome → (hexDigit? v).isSome → Spaced s →
      Spaced (u :: v :: s)

/-- An even number of hexadecimal digits, behind `0x`, `0X` or nothing. -/
structure IsHex (s digits : JsString) : Prop where
  leads : s = digits ∨ s = js "0x" ++ digits ∨ s = js "0X" ++ digits
  even : digits.length % 2 = 0
  hex : ∀ u ∈ digits, (hexDigit? u).isSome

/-- What only the Python decoder takes: both prefixes, or white space. -/
def Lenient (s : JsString) : Prop :=
  ∃ t, Spaced t ∧ (s = js "0x0X" ++ t ∨
    (∃ u ∈ t, isAsciiSpace u = true) ∧ (s = t ∨ s = js "0x" ++ t ∨ s = js "0X" ++ t))

/-- Two decoders are one function at `s`, with the language and the law of that function. -/
structure Agree (s : JsString) (x y : Option Bytes) : Prop where
  equal : x = y
  succeeds : x.isSome ↔ ∃ digits, IsHex s digits
  lower : ∀ b, x = some b → ∃ digits, IsHex s digits ∧
    Js.bytesToHex b = js "0x" ++ digits.map lowerUnit ∧
    bytesToHex b = js "0x" ++ digits.map lowerUnit

/-! ## Pairs of digits -/

theorem hexPairs_isSome {s : JsString} :
    (hexPairs s).isSome ↔ s.length % 2 = 0 ∧ ∀ u ∈ s, (hexDigit? u).isSome := by
  induction s using hexPairs.induct with
  | case1 => simp [hexPairs]
  | case2 u => simp [hexPairs]
  | case3 a b s ih =>
    have hlength : (a :: b :: s).length % 2 = s.length % 2 := by
      simp only [List.length_cons]
      omega
    rw [hlength, List.forall_mem_cons, List.forall_mem_cons]
    cases ha : hexDigit? a with
    | none => simp [hexPairs, ha]
    | some high =>
      cases hb : hexDigit? b with
      | none => simp [hexPairs, ha, hb]
      | some low =>
        cases hs : hexPairs s with
        | none => simpa [hexPairs, ha, hb, hs] using ih
        | some bytes => simpa [hexPairs, ha, hb, hs] using ih

/-- A digit is no white space and no prefix letter. -/
theorem plain_of_hexDigit {u : CodeUnit} (h : (hexDigit? u).isSome) :
    isAsciiSpace u = false ∧ u ≠ 120 ∧ u ≠ 88 := by
  unfold hexDigit? at h
  have hrange : 48 ≤ u.val ∧ u.val ≤ 57 ∨ 97 ≤ u.val ∧ u.val ≤ 102 ∨ 65 ≤ u.val ∧ u.val ≤ 70 := by
    split_ifs at h with h1 h2 h3
    · exact .inl h1
    · exact .inr (.inl h2)
    · exact .inr (.inr h3)
    · simp at h
  refine ⟨?_, ?_, ?_⟩
  · simp only [isAsciiSpace, Bool.or_eq_false_iff, Bool.and_eq_false_iff, decide_eq_false_iff_not]
    refine ⟨by omega, ?_⟩
    rintro rfl
    revert hrange
    decide
  · rintro rfl
    revert hrange
    decide
  · rintro rfl
    revert hrange
    decide

theorem fromhex_space {u : CodeUnit} (s : JsString) (h : isAsciiSpace u = true) :
    fromhex (u :: s) = fromhex s := by
  rw [fromhex.eq_def]
  simp only [h, if_true]

/-- Without white space the library reads pairs of digits. -/
theorem fromhex_eq_hexPairs {s : JsString} (h : ∀ u ∈ s, isAsciiSpace u = false) :
    fromhex s = hexPairs s := by
  induction s using hexPairs.induct with
  | case1 => rfl
  | case2 u =>
    simp only [fromhex, h u List.mem_cons_self, Bool.false_eq_true, if_false, hexPairs]
  | case3 a b s ih =>
    have hrest := ih fun u hu => h u (List.mem_cons_of_mem a (List.mem_cons_of_mem b hu))
    simp only [fromhex, h a List.mem_cons_self, Bool.false_eq_true, if_false, hexPairs, hrest]
    cases hexDigit? a <;> cases hexDigit? b <;> cases hexPairs s <;> rfl

theorem spaced_of_fromhex : ∀ s, (fromhex s).isSome → Spaced s
  | [], _ => .nil
  | [u], h => by
    cases hu : isAsciiSpace u with
    | true => exact .space hu .nil
    | false => simp [fromhex, hu] at h
  | u :: v :: t, h => by
    cases hu : isAsciiSpace u with
    | true =>
      rw [fromhex_space _ hu] at h
      exact .space hu (spaced_of_fromhex (v :: t) h)
    | false =>
      simp only [fromhex, hu, Bool.false_eq_true, if_false] at h
      split at h
      next high low rest hhigh hlow hrest =>
        exact .byte (by rw [hhigh]; rfl) (by rw [hlow]; rfl)
          (spaced_of_fromhex t (by rw [hrest]; rfl))
      next => simp at h

/-- The language of the library. -/
theorem fromhex_isSome {s : JsString} : (fromhex s).isSome ↔ Spaced s := by
  refine ⟨spaced_of_fromhex s, fun h => ?_⟩
  induction h with
  | nil => rfl
  | space hu _ ih => rwa [fromhex_space _ hu]
  | byte hu hv _ ih =>
    obtain ⟨high, hhigh⟩ := Option.isSome_iff_exists.mp hu
    obtain ⟨low, hlow⟩ := Option.isSome_iff_exists.mp hv
    obtain ⟨rest, hrest⟩ := Option.isSome_iff_exists.mp ih
    simp only [fromhex, (plain_of_hexDigit hu).1, Bool.false_eq_true, if_false, hhigh, hlow, hrest,
      Option.isSome_some]

theorem spaced_of_hexPairs {s : JsString} (h : (hexPairs s).isSome) : Spaced s := by
  rw [← fromhex_isSome, fromhex_eq_hexPairs]
  · exact h
  · intro u hu
    exact (plain_of_hexDigit ((hexPairs_isSome.mp h).2 u hu)).1

/-! ## Prefixes -/

/-- Neither letter of a prefix is a digit, so what follows one does not start with another. -/
theorem isPrefixOf_spaced {t : JsString} (h : Spaced t) {x : CodeUnit} (hx : x = 120 ∨ x = 88) :
    ([48, x] : JsString).isPrefixOf t = false := by
  have hdigit : hexDigit? x = none := by rcases hx with rfl | rfl <;> decide
  rw [Bool.eq_false_iff, ne_eq, List.isPrefixOf_iff_prefix]
  rintro ⟨r, rfl⟩
  cases h with
  | space hu _ => exact absurd hu (by decide)
  | byte _ hv _ => simp [hdigit] at hv

theorem strip_spaced {t : JsString} (h : Spaced t) :
    strip (js "0x") t = t ∧ strip (js "0X") t = t := by
  constructor
  · rw [strip, show js "0x" = [48, 120] by decide, isPrefixOf_spaced h (.inl rfl)]
    rfl
  · rw [strip, show js "0X" = [48, 88] by decide, isPrefixOf_spaced h (.inr rfl)]
    rfl

/-- What the Python decoder reads behind its prefixes. -/
theorem strip_eq {s t : JsString} (ht : Spaced t)
    (h : s = t ∨ s = js "0x" ++ t ∨ s = js "0X" ++ t ∨ s = js "0x0X" ++ t) :
    strip (js "0X") (strip (js "0x") s) = t := by
  obtain ⟨hlower, hupper⟩ := strip_spaced ht
  rcases h with rfl | rfl | rfl | rfl
  · rw [hlower, hupper]
  · rw [show strip (js "0x") (js "0x" ++ t) = t from rfl, hupper]
  · rfl
  · rfl

theorem strip_cases (start s : JsString) : s = strip start s ∨ s = start ++ strip start s := by
  unfold strip
  split_ifs with h
  · obtain ⟨t, rfl⟩ := List.isPrefixOf_iff_prefix.mp h
    rw [List.drop_left]
    exact .inr rfl
  · exact .inl rfl

theorem leads_strip (s : JsString) : ∃ t, t = strip (js "0X") (strip (js "0x") s) ∧
    (s = t ∨ s = js "0x" ++ t ∨ s = js "0X" ++ t ∨ s = js "0x0X" ++ t) := by
  refine ⟨_, rfl, ?_⟩
  rcases strip_cases (js "0x") s with h | h <;>
    rcases strip_cases (js "0X") (strip (js "0x") s) with h' | h'
  · exact .inl (h.trans h')
  · exact .inr (.inr (.inl (h.trans h')))
  · rw [h'] at h
    exact .inr (.inl h)
  · rw [h'] at h
    exact .inr (.inr (.inr h))

theorem hexToBytes_string (I : Interpreter) (s : JsString) :
    (hexToBytes I (.string s)).toOption = fromhex (strip (js "0X") (strip (js "0x") s)) := by
  simp only [hexToBytes]
  split_ifs with hempty
  · rw [hempty]
    rfl
  · cases fromhex (strip (js "0X") (strip (js "0x") s)) <;> rfl

/-! ## The TypeScript decoder -/

theorem hexToBytes_toOption (s : JsString) :
    (Js.hexToBytes s).toOption = hexPairs (dropHexPrefix s) := by
  unfold Js.hexToBytes
  simp only
  split_ifs with hodd
  · have hnone : hexPairs (dropHexPrefix s) = none := by
      rw [← Option.not_isSome_iff_eq_none, hexPairs_isSome]
      exact fun h => hodd h.1
    rw [hnone]
    rfl
  · cases hexPairs (dropHexPrefix s) <;> rfl

theorem leads_dropHexPrefix (s : JsString) : s = dropHexPrefix s ∨
    s = js "0x" ++ dropHexPrefix s ∨ s = js "0X" ++ dropHexPrefix s := by
  unfold dropHexPrefix
  split
  next a b t =>
    split_ifs with h
    · obtain ⟨rfl, rfl | rfl⟩ := h
      · exact .inr (.inl rfl)
      · exact .inr (.inr rfl)
    · exact .inl rfl
  next => exact .inl rfl

theorem IsHex.hexPairs {s digits : JsString} (h : IsHex s digits) : (hexPairs digits).isSome :=
  hexPairs_isSome.mpr ⟨h.even, h.hex⟩

theorem IsHex.dropHexPrefix {s digits : JsString} (h : IsHex s digits) :
    dropHexPrefix s = digits := by
  rcases h.leads with rfl | rfl | rfl
  · have hspaced := spaced_of_hexPairs h.hexPairs
    unfold Js.dropHexPrefix
    split
    next a b t =>
      refine if_neg ?_
      rintro ⟨rfl, hb⟩
      have hprefix := isPrefixOf_spaced hspaced hb
      simp at hprefix
    next => rfl
  · rfl
  · rfl

/-- The language of the TypeScript decoder. -/
theorem hexToBytes_isSome {s : JsString} :
    (Js.hexToBytes s).toOption.isSome ↔ ∃ digits, IsHex s digits := by
  rw [hexToBytes_toOption]
  constructor
  · intro h
    obtain ⟨heven, hhex⟩ := hexPairs_isSome.mp h
    exact ⟨_, leads_dropHexPrefix s, heven, hhex⟩
  · rintro ⟨digits, h⟩
    rw [h.dropHexPrefix]
    exact h.hexPairs

/-! ## Agreement -/

/-- What only Python takes is no hex. -/
theorem not_isHex_of_lenient {s digits : JsString} (h : Lenient s) : ¬ IsHex s digits := by
  intro hhex
  have hdrop := hhex.dropHexPrefix
  obtain ⟨t, ht, rfl | ⟨⟨u, hu, hspace⟩, hlead⟩⟩ := h
  · obtain rfl : [48, 88] ++ t = digits := hdrop
    have hletter := plain_of_hexDigit (hhex.hex 88 (by simp))
    exact hletter.2.2 rfl
  · have hmem : u ∈ digits := by
      rcases hlead with rfl | rfl | rfl
      · rcases hhex.leads with rfl | h | h
        · exact hu
        · rw [h] at ht
          exact absurd (isPrefixOf_spaced ht (.inl rfl)) (by simp [js])
        · rw [h] at ht
          exact absurd (isPrefixOf_spaced ht (.inr rfl)) (by simp [js])
      · obtain rfl : t = digits := hdrop
        exact hu
      · obtain rfl : t = digits := hdrop
        exact hu
    rw [(plain_of_hexDigit (hhex.hex u hmem)).1] at hspace
    cases hspace

theorem fromhex_of_lenient {s : JsString} (h : Lenient s) :
    (fromhex (strip (js "0X") (strip (js "0x") s))).isSome := by
  obtain ⟨t, ht, hs⟩ := h
  have hleads : s = t ∨ s = js "0x" ++ t ∨ s = js "0X" ++ t ∨ s = js "0x0X" ++ t := by tauto
  rw [strip_eq ht hleads]
  exact fromhex_isSome.mpr ht

theorem fromhex_of_isHex {s digits : JsString} (h : IsHex s digits) :
    fromhex (strip (js "0X") (strip (js "0x") s)) = hexPairs digits := by
  have hleads : s = digits ∨ s = js "0x" ++ digits ∨ s = js "0X" ++ digits ∨
      s = js "0x0X" ++ digits := by
    have := h.leads
    tauto
  rw [strip_eq (spaced_of_hexPairs h.hexPairs) hleads]
  exact fromhex_eq_hexPairs fun u hu => (plain_of_hexDigit (h.hex u hu)).1

/-- Where Python decodes and the text is not one of its own, it is hex. -/
theorem isHex_of_fromhex {s : JsString} (hlenient : ¬ Lenient s)
    (h : (fromhex (strip (js "0X") (strip (js "0x") s))).isSome) : ∃ digits, IsHex s digits := by
  obtain ⟨t, ht, hleads⟩ := leads_strip s
  rw [← ht] at h
  have hspaced := fromhex_isSome.mp h
  have hclean : ∀ u ∈ t, isAsciiSpace u = false := by
    intro u hu
    by_contra hspace
    rw [Bool.not_eq_false] at hspace
    rcases hleads with hs | hs | hs | hs
    · exact hlenient ⟨t, hspaced, .inr ⟨⟨u, hu, hspace⟩, .inl hs⟩⟩
    · exact hlenient ⟨t, hspaced, .inr ⟨⟨u, hu, hspace⟩, .inr (.inl hs)⟩⟩
    · exact hlenient ⟨t, hspaced, .inr ⟨⟨u, hu, hspace⟩, .inr (.inr hs)⟩⟩
    · exact hlenient ⟨t, hspaced, .inl hs⟩
  rw [fromhex_eq_hexPairs hclean] at h
  obtain ⟨heven, hhex⟩ := hexPairs_isSome.mp h
  refine ⟨t, ?_, heven, hhex⟩
  rcases hleads with hs | hs | hs | hs
  · exact .inl hs
  · exact .inr (.inl hs)
  · exact .inr (.inr hs)
  · exact absurd ⟨t, hspaced, .inl hs⟩ hlenient

/-- The decoders are one function but for white space between bytes and a second prefix, which
only Python lets pass. Both read back what they encode. -/
theorem hex_codec (I : Interpreter) :
    (∀ s, Agree s (Js.hexToBytes s).toOption (hexToBytes I (.string s)).toOption ↔ ¬ Lenient s) ∧
    ∀ b, Js.hexToBytes (Js.bytesToHex b) = .ok b ∧
      (hexToBytes I (.string (bytesToHex b))).toOption = some b := by
  constructor
  · intro s
    rw [hexToBytes_string]
    constructor
    · intro h hlenient
      have hpython := fromhex_of_lenient hlenient
      rw [← h.equal] at hpython
      obtain ⟨digits, hhex⟩ := h.succeeds.mp hpython
      exact not_isHex_of_lenient hlenient hhex
    · intro hlenient
      refine ⟨?_, hexToBytes_isSome, fun b hb => ?_⟩
      · cases hts : (Js.hexToBytes s).toOption with
        | some b =>
          obtain ⟨digits, hhex⟩ := hexToBytes_isSome.mp (by rw [hts]; rfl)
          rw [hexToBytes_toOption, hhex.dropHexPrefix] at hts
          rw [fromhex_of_isHex hhex, hts]
        | none =>
          symm
          rw [← Option.not_isSome_iff_eq_none]
          intro hpython
          have hsome := hexToBytes_isSome.mpr (isHex_of_fromhex hlenient hpython)
          simp [hts] at hsome
      · obtain ⟨digits, hhex⟩ := hexToBytes_isSome.mp (by rw [hb]; rfl)
        rw [hexToBytes_toOption, hhex.dropHexPrefix] at hb
        have hlower := Protocol.lower_of_hexPairs hb
        exact ⟨digits, hhex, by rw [Js.bytesToHex, hlower], by rw [bytesToHex, hlower]⟩
  · intro b
    refine ⟨hexToBytes_bytesToHex b, ?_⟩
    have hhex : IsHex (bytesToHex b) (hexOf b) := by
      obtain ⟨heven, hdigits⟩ := hexPairs_isSome.mp
        (Option.isSome_iff_exists.mpr ⟨b, hexPairs_hexOf b⟩)
      exact ⟨.inr (.inl rfl), heven, hdigits⟩
    rw [hexToBytes_string, fromhex_of_isHex hhex, hexPairs_hexOf]

/-- An interpreter with short texts and no ABI library. -/
def bare : Interpreter where
  caseMap := Reference.caseMap
  loadsError := fun _ => js "Expecting value"
  fromhexError := fun _ => js "non-hexadecimal number found in fromhex()"
  repr := fun s => js "'" ++ s ++ js "'"
  format := fun _ => []
  abiDecode := fun _ => .error (js "No module named 'eth_abi'")

/-- A blank between two bytes. -/
theorem blank_counterexample :
    ¬ Agree (js "0x7b 7d") (Js.hexToBytes (js "0x7b 7d")).toOption
      (hexToBytes bare (.string (js "0x7b 7d"))).toOption := by
  intro h
  have hts : (Js.hexToBytes (js "0x7b 7d")).toOption = none := by decide +kernel
  have hpython : (hexToBytes bare (.string (js "0x7b 7d"))).toOption = some [0x7b, 0x7d] := by
    rw [hexToBytes_string]
    decide +kernel
  have hequal := h.equal
  rw [hts, hpython] at hequal
  cases hequal

end StealthWage.Python
