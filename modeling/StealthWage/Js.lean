import StealthWage.Words

/-! # JavaScript strings, hex and decimal text

A JavaScript string is a list of UTF-16 code units, lone surrogates included. The hex codec
is the one of `base/encoding.ts`; `bigint` is the language's own `BigInt` on strings. -/
namespace StealthWage.Js
open Words

abbrev CodeUnit := Fin 65536
abbrev JsString := List CodeUnit

/-- A string literal of the source. -/
def js (s : String) : JsString := s.toList.map fun c => Fin.ofNat 65536 c.toNat

def unit (n : ℕ) : CodeUnit := Fin.ofNat 65536 n

/-! ## Hex -/

def hexDigit? (u : CodeUnit) : Option (Fin 16) :=
  if h : 48 ≤ u.val ∧ u.val ≤ 57 then some ⟨u.val - 48, by omega⟩
  else if h : 97 ≤ u.val ∧ u.val ≤ 102 then some ⟨u.val - 87, by omega⟩
  else if h : 65 ≤ u.val ∧ u.val ≤ 70 then some ⟨u.val - 55, by omega⟩
  else none

def hexDigit (d : Fin 16) : CodeUnit := if d < 10 then unit (48 + d.val) else unit (87 + d.val)

theorem hexDigit?_hexDigit : ∀ d, hexDigit? (hexDigit d) = some d := by decide

/-- The two lower-case digits of each byte. -/
def hexOf (b : Bytes) : JsString :=
  b.flatMap fun x => [hexDigit ⟨x.val / 16, by omega⟩, hexDigit ⟨x.val % 16, by omega⟩]

def bytesToHex (b : Bytes) : JsString := js "0x" ++ hexOf b

def hexPairs : JsString → Option Bytes
  | [] => some []
  | [_] => none
  | a :: b :: s => do
    let high ← hexDigit? a
    let low ← hexDigit? b
    let rest ← hexPairs s
    return ⟨16 * high.val + low.val, by omega⟩ :: rest

/-- `startsWith("0x") || startsWith("0X")`, then `slice(2)`. -/
def dropHexPrefix : JsString → JsString
  | a :: b :: s => if a = 48 ∧ (b = 120 ∨ b = 88) then s else a :: b :: s
  | s => s

/-- The text of a natural number. -/
def decimal (n : ℕ) : JsString :=
  if n = 0 then js "0" else (Nat.digits 10 n).reverse.map fun d => unit (48 + d)

def hexToBytes (h : JsString) : Except JsString Bytes :=
  let s := dropHexPrefix h
  if s.length % 2 ≠ 0 then
    .error (js "invalid hex: odd length (" ++ decimal s.length ++ js ")")
  else
    match hexPairs s with
    | some bs => .ok bs
    | none => .error (js "invalid hex: non-hex characters")

theorem hexPairs_hexOf (b : Bytes) : hexPairs (hexOf b) = some b := by
  induction b with
  | nil => rfl
  | cons x b ih =>
    have hx : x.val / 16 * 16 + x.val % 16 = x.val := Nat.div_add_mod' x.val 16
    simp only [hexOf, List.flatMap_cons, List.cons_append, List.nil_append, hexPairs] at ih ⊢
    rw [hexDigit?_hexDigit, hexDigit?_hexDigit, ih]
    simp only [Option.bind_eq_bind, Option.bind_some, pure]
    congr 2
    exact Fin.ext (by simp only; omega)

theorem hexOf_length (b : Bytes) : (hexOf b).length = 2 * b.length := by
  induction b with
  | nil => rfl
  | cons x b ih =>
    simp only [hexOf, List.flatMap_cons, List.length_append] at ih ⊢
    rw [ih]
    simp only [List.length_cons, List.length_nil]
    omega

theorem hexToBytes_bytesToHex (b : Bytes) : hexToBytes (bytesToHex b) = .ok b := by
  have hdrop : dropHexPrefix (bytesToHex b) = hexOf b := rfl
  have hlen := hexOf_length b
  unfold hexToBytes
  simp only [hdrop, hexPairs_hexOf]
  rw [if_neg (by omega)]

theorem bytesToHex_injective : Function.Injective bytesToHex := by
  intro a b h
  have hok := congrArg hexToBytes h
  rw [hexToBytes_bytesToHex, hexToBytes_bytesToHex] at hok
  exact Except.ok.inj hok

/-! ## Letter case -/

def isAscii (s : JsString) : Prop := ∀ u ∈ s, u.val < 128

def lowerUnit (u : CodeUnit) : CodeUnit :=
  if 65 ≤ u.val ∧ u.val ≤ 90 then unit (u.val + 32) else u

/-- Digits, `x` and the letters of lower-case hex. -/
def isHexText (s : JsString) : Prop :=
  ∀ u ∈ s, (48 ≤ u.val ∧ u.val ≤ 57) ∨ (97 ≤ u.val ∧ u.val ≤ 102) ∨ u.val = 120

/-- `toLowerCase` of the running engine. Its table beyond ASCII is a matter of the Unicode
version; no version maps another character to hex text. -/
structure CaseMap where
  toLowerCase : JsString → JsString
  ascii : ∀ s, isAscii s → toLowerCase s = s.map lowerUnit
  hex : ∀ s, isHexText (toLowerCase s) → isAscii s

/-! ## Numbers -/

/-- `WhiteSpace` and `LineTerminator`. -/
def isSpace (u : CodeUnit) : Bool :=
  (9 ≤ u.val && u.val ≤ 13) || u.val = 32 || u.val = 160 || u.val = 0x1680 ||
  (0x2000 ≤ u.val && u.val ≤ 0x200A) || u.val = 0x2028 || u.val = 0x2029 || u.val = 0x202F ||
  u.val = 0x205F || u.val = 0x3000 || u.val = 0xFEFF

def trim (s : JsString) : JsString := (s.dropWhile isSpace).reverse.dropWhile isSpace |>.reverse

/-- The digits of a base of at most 16, most significant first. -/
def digitsValue (base : ℕ) : ℕ → JsString → Option ℕ
  | acc, [] => some acc
  | acc, u :: s =>
    match hexDigit? u with
    | some d => if d.val < base then digitsValue base (base * acc + d.val) s else none
    | none => none

/-- One or more digits. -/
def digits1 (base : ℕ) (s : JsString) : Option ℕ :=
  if s = [] then none else digitsValue base 0 s

/-- `BigInt(text)`; `none` is the SyntaxError. -/
def bigint (text : JsString) : Option ℤ :=
  match trim text with
  | [] => some 0
  | [u] => (digits1 10 [u]).map Int.ofNat
  | a :: b :: s =>
    if a = 48 ∧ (b = 120 ∨ b = 88) then (digits1 16 s).map Int.ofNat
    else if a = 48 ∧ (b = 111 ∨ b = 79) then (digits1 8 s).map Int.ofNat
    else if a = 48 ∧ (b = 98 ∨ b = 66) then (digits1 2 s).map Int.ofNat
    else if a = 43 then (digits1 10 (b :: s)).map Int.ofNat
    else if a = 45 then (digits1 10 (b :: s)).map fun n => -Int.ofNat n
    else (digits1 10 (a :: b :: s)).map Int.ofNat

/-- `toString` of a `bigint`. -/
def bigintText (n : ℤ) : JsString :=
  if n < 0 then 45 :: decimal n.natAbs else decimal n.natAbs

/-! ## Digits -/

/-- Text of decimal digits only, the empty one included. -/
def isDigits (s : JsString) : Prop := ∀ u ∈ s, 48 ≤ u.val ∧ u.val ≤ 57

instance (s : JsString) : Decidable (isDigits s) := List.decidableBAll _ _

/-- The number that digits denote. -/
def numberOf (s : JsString) : ℕ := s.foldl (fun acc u => 10 * acc + (u.val - 48)) 0

theorem foldl_digits (s : JsString) (acc : ℕ) :
    s.foldl (fun acc u => 10 * acc + (u.val - 48)) acc = acc * 10 ^ s.length + numberOf s := by
  unfold numberOf
  induction s generalizing acc with
  | nil => simp
  | cons u s ih =>
    rw [List.foldl_cons, List.foldl_cons, ih (10 * acc + (u.val - 48)), ih (10 * 0 + (u.val - 48)),
      List.length_cons, pow_succ]
    ring

theorem numberOf_append (s t : JsString) :
    numberOf (s ++ t) = numberOf s * 10 ^ t.length + numberOf t := by
  have h := foldl_digits t (numberOf s)
  rwa [numberOf, ← List.foldl_append] at h

theorem numberOf_lt {s : JsString} (h : isDigits s) : numberOf s < 10 ^ s.length := by
  induction s with
  | nil => decide
  | cons u s ih =>
    have hu := h u List.mem_cons_self
    have hs := ih fun v hv => h v (List.mem_cons_of_mem u hv)
    have hcons : numberOf (u :: s) = (u.val - 48) * 10 ^ s.length + numberOf s := by
      rw [← List.singleton_append, numberOf_append]
      simp [numberOf]
    have hdigit : (u.val - 48) * 10 ^ s.length ≤ 9 * 10 ^ s.length :=
      Nat.mul_le_mul_right _ (by omega)
    rw [hcons, List.length_cons, pow_succ]
    omega

theorem numberOf_replicate_zero (n : ℕ) : numberOf (List.replicate n 48) = 0 := by
  induction n with
  | zero => rfl
  | succ n ih =>
    rw [List.replicate_succ, ← List.singleton_append, numberOf_append, ih]
    simp [numberOf]

theorem hexDigit?_digit {u : CodeUnit} (h : 48 ≤ u.val ∧ u.val ≤ 57) :
    hexDigit? u = some ⟨u.val - 48, by omega⟩ := dif_pos h

theorem digitsValue_digits {s : JsString} (h : isDigits s) (acc : ℕ) :
    digitsValue 10 acc s = some (s.foldl (fun acc u => 10 * acc + (u.val - 48)) acc) := by
  induction s generalizing acc with
  | nil => rfl
  | cons u s ih =>
    have hu := h u List.mem_cons_self
    rw [digitsValue, hexDigit?_digit hu, List.foldl_cons]
    simp only [show u.val - 48 < 10 by omega, if_true]
    exact ih (fun v hv => h v (List.mem_cons_of_mem u hv)) _

theorem digits1_digits {s : JsString} (h : isDigits s) (hne : s ≠ []) :
    digits1 10 s = some (numberOf s) := by
  rw [digits1, if_neg hne, digitsValue_digits h]
  rfl

theorem isSpace_of_digit {u : CodeUnit} (h : 48 ≤ u.val ∧ u.val ≤ 57) : isSpace u = false := by
  simp only [isSpace, Bool.or_eq_false_iff, Bool.and_eq_false_iff, decide_eq_false_iff_not]
  omega

theorem dropWhile_isSpace {s : JsString} (h : isDigits s) : s.dropWhile isSpace = s := by
  cases s with
  | nil => rfl
  | cons u s => rw [List.dropWhile_cons_of_neg (by simp [isSpace_of_digit (h u List.mem_cons_self)])]

theorem trim_digits {s : JsString} (h : isDigits s) : trim s = s := by
  have hr : isDigits s.reverse := fun u hu => h u (List.mem_reverse.mp hu)
  unfold trim
  rw [dropWhile_isSpace h, dropWhile_isSpace hr, List.reverse_reverse]

/-- `BigInt` reads digits as the number they denote, and no digits as zero. -/
theorem bigint_digits {s : JsString} (h : isDigits s) : bigint s = some (numberOf s : ℤ) := by
  unfold bigint
  rw [trim_digits h]
  rcases s with _ | ⟨a, _ | ⟨b, s⟩⟩
  · rfl
  · simp only [digits1_digits h (List.cons_ne_nil _ _), Option.map_some, Int.ofNat_eq_natCast]
  · have ha := h a List.mem_cons_self
    have hb := h b (List.mem_cons_of_mem a List.mem_cons_self)
    have hne : ∀ k : CodeUnit, 57 < k.val → b ≠ k := by
      rintro k hk rfl
      omega
    have hna : ∀ k : CodeUnit, k.val < 48 → a ≠ k := by
      rintro k hk rfl
      omega
    simp only [hne 120 (by decide), hne 88 (by decide), hne 111 (by decide), hne 79 (by decide),
      hne 98 (by decide), hne 66 (by decide), hna 43 (by decide), hna 45 (by decide), or_self,
      and_false, if_false]
    rw [digits1_digits h (List.cons_ne_nil _ _)]
    rfl

/-! ## The literals of `BigInt` -/

/-- One or more digits of the base. -/
def isNumeral (base : ℕ) (s : JsString) : Prop :=
  s ≠ [] ∧ ∀ u ∈ s, ∃ d, hexDigit? u = some d ∧ d.val < base

/-- The base that a letter after a zero stands for. -/
def radixOf (u : CodeUnit) : Option ℕ :=
  if u = 120 ∨ u = 88 then some 16
  else if u = 111 ∨ u = 79 then some 8
  else if u = 98 ∨ u = 66 then some 2
  else none

/-- Nothing, digits behind a sign or none, or `0x`, `0o` or `0b` and digits of that base. -/
def isBareLiteral : JsString → Prop
  | [] => True
  | [u] => isNumeral 10 [u]
  | a :: b :: s => isNumeral 10 (a :: b :: s) ∨ (a = 43 ∨ a = 45) ∧ isNumeral 10 (b :: s) ∨
      a = 48 ∧ ∃ base, radixOf b = some base ∧ isNumeral base s

/-- A literal with white space around it. -/
def isIntegerLiteral (s : JsString) : Prop := isBareLiteral (trim s)

theorem digitsValue_isSome {base acc : ℕ} {s : JsString} :
    (digitsValue base acc s).isSome ↔ ∀ u ∈ s, ∃ d, hexDigit? u = some d ∧ d.val < base := by
  induction s generalizing acc with
  | nil => simp [digitsValue]
  | cons u s ih =>
    rw [digitsValue, List.forall_mem_cons]
    cases hd : hexDigit? u with
    | none => simp
    | some d =>
      simp only [Option.some.injEq, exists_eq_left']
      split_ifs with hlt
      · rw [ih]
        simp [hlt]
      · simp [hlt]

theorem digits1_isSome {base : ℕ} {s : JsString} : (digits1 base s).isSome ↔ isNumeral base s := by
  unfold digits1 isNumeral
  split_ifs with h
  · simp [h]
  · rw [digitsValue_isSome]
    simp [h]

/-- What no decimal numeral contains. -/
theorem not_isNumeral {u : CodeUnit} {s : JsString} (hu : u ∈ s)
    (h : u.val < 48 ∨ 57 < u.val) : ¬ isNumeral 10 s := by
  rintro ⟨-, hall⟩
  obtain ⟨d, hd, hlt⟩ := hall u hu
  unfold hexDigit? at hd
  split_ifs at hd with h1 h2 h3 <;> simp only [Option.some.injEq] at hd <;> subst hd <;>
    simp only at hlt <;> omega

theorem radixOf_large {u : CodeUnit} {base : ℕ} (h : radixOf u = some base) : 57 < u.val := by
  unfold radixOf at h
  split_ifs at h with hx ho hb
  · rcases hx with rfl | rfl <;> decide
  · rcases ho with rfl | rfl <;> decide
  · rcases hb with rfl | rfl <;> decide

/-- The grammar of `BigInt`. -/
theorem bigint_isSome {s : JsString} : (bigint s).isSome ↔ isIntegerLiteral s := by
  unfold bigint isIntegerLiteral
  rcases trim s with _ | ⟨a, _ | ⟨b, t⟩⟩
  · simp [isBareLiteral]
  · rw [Option.isSome_map, digits1_isSome]
    rfl
  · have hradix : ∀ {base}, radixOf b = some base → ¬ isNumeral 10 (a :: b :: t) := fun hb =>
      not_isNumeral (List.mem_cons_of_mem a List.mem_cons_self) (.inr (radixOf_large hb))
    have hsign : a.val < 48 → ¬ isNumeral 10 (a :: b :: t) := fun ha =>
      not_isNumeral List.mem_cons_self (.inl ha)
    simp only [isBareLiteral]
    by_cases ha : a = 48
    · subst ha
      cases hb : radixOf b with
      | none =>
        unfold radixOf at hb
        split_ifs at hb with hx ho hn
        simp only [hx, ho, hn, and_false, if_false]
        rw [if_neg (by decide), if_neg (by decide), Option.isSome_map, digits1_isSome]
        simp
      | some base =>
        have hten := hradix hb
        unfold radixOf at hb
        split_ifs at hb with hx ho hn <;> obtain rfl := Option.some.inj hb
        · simp [hx, hten, digits1_isSome]
        · simp [hx, ho, hten, digits1_isSome]
        · simp [hx, ho, hn, hten, digits1_isSome]
    · simp only [ha, false_and, if_false, or_false]
      split_ifs with hplus hminus
      · subst hplus
        simp [hsign (by decide), digits1_isSome]
      · subst hminus
        simp [hsign (by decide), digits1_isSome]
      · simp [hplus, hminus, digits1_isSome]

/-! ## Decimal text reads back -/

theorem unit_digit {d : ℕ} (h : d < 10) : (unit (48 + d)).val = 48 + d :=
  Nat.mod_eq_of_lt (by omega)

theorem numberOf_map (ds : List ℕ) (h : ∀ d ∈ ds, d < 10) :
    numberOf (ds.map fun d => unit (48 + d)) = ds.foldl (fun acc d => 10 * acc + d) 0 := by
  unfold numberOf
  rw [List.foldl_map]
  refine List.foldl_ext _ _ 0 fun acc d hd => ?_
  rw [unit_digit (h d hd), Nat.add_sub_cancel_left]

theorem foldl_reverse_digits (n : ℕ) :
    (Nat.digits 10 n).reverse.foldl (fun acc d => 10 * acc + d) 0 = n := by
  rw [List.foldl_reverse]
  have h := Nat.ofDigits_digits 10 n
  rw [Nat.ofDigits_eq_foldr] at h
  simpa [Nat.add_comm] using h

/-- Every unit of a decimal text is a digit. -/
theorem isDigits_decimal (n : ℕ) : isDigits (decimal n) := by
  intro u h
  unfold decimal at h
  split_ifs at h
  · rw [List.mem_singleton.mp h]
    decide
  · obtain ⟨d, hd, rfl⟩ := List.mem_map.mp h
    have hlt : d < 10 := Nat.digits_lt_base (by decide) (List.mem_reverse.mp hd)
    rw [unit_digit hlt]
    omega

theorem numberOf_decimal (n : ℕ) : numberOf (decimal n) = n := by
  unfold decimal
  split_ifs with h
  · subst h
    rfl
  · rw [numberOf_map, foldl_reverse_digits]
    intro d hd
    exact Nat.digits_lt_base (by decide) (List.mem_reverse.mp hd)

/-- `BigInt` reads every decimal text back. -/
theorem bigint_decimal (n : ℕ) : bigint (decimal n) = some (n : ℤ) := by
  rw [bigint_digits (isDigits_decimal n), numberOf_decimal]

theorem bigint_bigintText {n : ℤ} (h : 0 ≤ n) : bigint (bigintText n) = some n := by
  rw [bigintText, if_neg (not_lt.mpr h), bigint_decimal, Int.natAbs_of_nonneg h]

end StealthWage.Js
