import StealthWage.Json

/-! # Printed JSON reads back

The printed text is free of lone surrogates, so it survives UTF-8, and the parser finds in
it exactly the members that were printed. -/
namespace StealthWage.Json
open Js Utf8 Words

/-! ## Strings -/

theorem hex4_hexDigit {a b c d : Fin 16} {u : CodeUnit}
    (h : 4096 * a.val + 256 * b.val + 16 * c.val + d.val = u.val) :
    hex4 (hexDigit a) (hexDigit b) (hexDigit c) (hexDigit d) = some u := by
  have hself : unit u.val = u := Fin.ext (unit_val u.isLt)
  simp only [hex4, hexDigit?_hexDigit, Option.bind_eq_bind, Option.bind_some, h, hself, pure]

theorem stringBody_close (rest : JsString) : stringBody (34 :: rest) = some ([], rest) := by
  rw [stringBody.eq_def]
  rfl

theorem stringBody_plain {u : CodeUnit} (h34 : u ≠ 34) (h92 : u ≠ 92) (h32 : ¬ u.val < 32)
    (rest : JsString) :
    stringBody (u :: rest) = (stringBody rest).map fun p => (u :: p.1, p.2) := by
  rw [stringBody.eq_def]
  simp only [h34, h92, h32, if_false]

/-- A backslash and one character. -/
theorem stringBody_escaped {e x : CodeUnit} (he : e ≠ 117) (hx : escaped e = some x)
    (rest : JsString) :
    stringBody (92 :: e :: rest) = (stringBody rest).map fun p => (x :: p.1, p.2) := by
  rw [stringBody.eq_def]
  simp only [show (92 : CodeUnit) ≠ 34 by decide, he, if_true, if_false, hx]
  cases stringBody rest <;> rfl

theorem stringBody_unicodeEscape (u : CodeUnit) (rest : JsString) :
    stringBody (unicodeEscape u ++ rest) =
      (stringBody rest).map fun p => (u :: p.1, p.2) := by
  have hshape : js "\\u" = [92, 117] := by decide
  rw [unicodeEscape, hshape]
  simp only [List.cons_append, List.nil_append]
  rw [stringBody.eq_def]
  have hdigits := hex4_hexDigit (a := ⟨u.val / 4096, by omega⟩) (b := ⟨u.val / 256 % 16, by omega⟩)
    (c := ⟨u.val / 16 % 16, by omega⟩) (d := ⟨u.val % 16, by omega⟩) (u := u) (by dsimp only; omega)
  simp only [show (92 : CodeUnit) ≠ 34 by decide, if_true, if_false, hdigits]
  cases stringBody rest <;> rfl

theorem stringBody_escape (u : CodeUnit) (rest : JsString) :
    stringBody (escape u ++ rest) = (stringBody rest).map fun p => (u :: p.1, p.2) := by
  unfold escape
  split_ifs with h8 h9 h10 h12 h13 h34 h92 hu
  · exact h8 ▸ stringBody_escaped (e := 98) (by decide) (by decide) rest
  · exact h9 ▸ stringBody_escaped (e := 116) (by decide) (by decide) rest
  · exact h10 ▸ stringBody_escaped (e := 110) (by decide) (by decide) rest
  · exact h12 ▸ stringBody_escaped (e := 102) (by decide) (by decide) rest
  · exact h13 ▸ stringBody_escaped (e := 114) (by decide) (by decide) rest
  · exact h34 ▸ stringBody_escaped (e := 34) (by decide) (by decide) rest
  · exact h92 ▸ stringBody_escaped (e := 92) (by decide) (by decide) rest
  · exact stringBody_unicodeEscape u rest
  · exact stringBody_plain h34 h92 (fun h => hu (.inl h)) rest

theorem high_plain {u : CodeUnit} (h : isHigh u = true) : u ≠ 34 ∧ u ≠ 92 ∧ ¬ u.val < 32 := by
  simp only [isHigh, Bool.and_eq_true, decide_eq_true_eq] at h
  refine ⟨?_, ?_, by omega⟩ <;>
  · rintro rfl
    exact absurd h.1 (by decide)

theorem low_plain {u : CodeUnit} (h : isLow u = true) : u ≠ 34 ∧ u ≠ 92 ∧ ¬ u.val < 32 := by
  simp only [isLow, Bool.and_eq_true, decide_eq_true_eq] at h
  refine ⟨?_, ?_, by omega⟩ <;>
  · rintro rfl
    exact absurd h.1 (by decide)

theorem stringBody_quoteBody (s rest : JsString) :
    stringBody (quoteBody s ++ 34 :: rest) = some (s, rest) := by
  induction s using quoteBody.induct with
  | case1 => exact stringBody_close rest
  | case2 u =>
    rw [quoteBody, stringBody_escape, stringBody_close]
    rfl
  | case3 a b s hab ih =>
    have hpair := hab
    rw [Bool.and_eq_true] at hab
    obtain ⟨ha34, ha92, ha32⟩ := high_plain hab.1
    obtain ⟨hb34, hb92, hb32⟩ := low_plain hab.2
    rw [quoteBody, if_pos hpair]
    simp only [List.cons_append]
    rw [stringBody_plain ha34 ha92 ha32, stringBody_plain hb34 hb92 hb32, ih]
    rfl
  | case4 a b s hab ih =>
    rw [quoteBody, if_neg hab, List.append_assoc, stringBody_escape, ih]
    rfl

/-! ## Values -/

section values

variable {numberText : JsString → JsString}

/-- The text ends here, or a comma or a closing bracket is next. -/
def Ends (rest : JsString) : Prop := ∀ u ∈ rest.head?, u = 44 ∨ u = 93 ∨ u = 125

/-- What is printed of the value reads back, whatever comes after it. -/
def ReadsBack (numberText : JsString → JsString) (v : Value) : Prop :=
  ∀ n rest, (text numberText v).length < n → Ends rest →
    parseValue scalar n (text numberText v ++ rest) = some (v, rest)

theorem skipSpace_of_ne {u : CodeUnit} (s : JsString) (h : u ≠ 9 ∧ u ≠ 10 ∧ u ≠ 13 ∧ u ≠ 32) :
    skipSpace (u :: s) = u :: s := by
  simp [skipSpace, h]

theorem readsBack_string (s : JsString) : ReadsBack numberText (.string s) := by
  intro n rest hn _
  obtain ⟨k, rfl⟩ : ∃ k, n = k + 1 := ⟨n - 1, by omega⟩
  rw [text, quote, List.cons_append, parseValue, skipSpace_of_ne _ (by decide)]
  simp only [if_true, List.append_assoc, List.singleton_append, stringBody_quoteBody,
    Option.map_some]

theorem readsBack_nil : ReadsBack numberText (.array []) := by
  intro n rest hn _
  obtain ⟨k, rfl⟩ : ∃ k, n = k + 1 := ⟨n - 1, by omega⟩
  rw [text, List.cons_append, parseValue, skipSpace_of_ne _ (by decide)]
  simp [skipSpace_of_ne]

/-! ## Integers -/

theorem isDigit_of_mem_decimal {n : ℕ} {u : CodeUnit} (h : u ∈ decimal n) : isDigit u = true := by
  have hu := isDigits_decimal n u h
  simp only [isDigit, Bool.and_eq_true, decide_eq_true_eq]
  exact hu

/-- The first digit is a zero only of zero itself. -/
theorem decimal_cons (n : ℕ) : ∃ u s, decimal n = u :: s ∧ (u = 48 → s = []) := by
  by_cases hn : n = 0
  · exact ⟨48, [], by rw [decimal, if_pos hn]; decide, fun _ => rfl⟩
  · have hdigits : Nat.digits 10 n ≠ [] := Nat.digits_ne_nil_iff_ne_zero.mpr hn
    obtain ⟨ds, d, hlast⟩ := (List.eq_nil_or_concat' _).resolve_left hdigits
    have hd : d ≠ 0 := by
      have hne := Nat.getLast_digit_ne_zero 10 hn
      simpa [hlast] using hne
    have hlt : d < 10 := Nat.digits_lt_base (by decide) (hlast ▸ by simp : d ∈ Nat.digits 10 n)
    refine ⟨unit (48 + d), (ds.reverse.map fun d => unit (48 + d)), ?_, fun h => ?_⟩
    · rw [decimal, if_neg hn, hlast]
      simp
    · have hval := congrArg Fin.val h
      rw [unit_val (by omega)] at hval
      have : d = 0 := by simpa using hval
      exact absurd this hd

theorem dropWhile_isDigit {s rest : JsString} (hs : ∀ u ∈ s, isDigit u = true) (h : Ends rest) :
    (s ++ rest).dropWhile isDigit = rest := by
  rw [List.dropWhile_append_of_pos hs]
  cases rest with
  | nil => rfl
  | cons u rest =>
    refine List.dropWhile_cons_of_neg ?_
    rcases h u rfl with rfl | rfl | rfl <;> decide

theorem number_decimal (n : ℕ) {rest : JsString} (h : Ends rest) :
    integerPart (decimal n ++ rest) = some rest ∧ fraction rest = some rest ∧
      exponent rest = some rest := by
  refine ⟨?_, ?_, ?_⟩
  · obtain ⟨u, s, hcons, hzero⟩ := decimal_cons n
    have hall : ∀ v ∈ u :: s, isDigit v = true := fun v hv => isDigit_of_mem_decimal (hcons ▸ hv)
    rw [hcons, List.cons_append, integerPart]
    split_ifs with hu
    · rw [hzero hu, List.nil_append]
    · rw [someDigits, if_pos (hall u (by simp)),
        dropWhile_isDigit (fun v hv => hall v (List.mem_cons_of_mem u hv)) h]
  · cases rest with
    | nil => rfl
    | cons u rest =>
      refine if_neg ?_
      rcases h u rfl with rfl | rfl | rfl <;> decide
  · cases rest with
    | nil => rfl
    | cons u rest =>
      refine if_neg ?_
      rcases h u rfl with rfl | rfl | rfl <;> decide

theorem number_bigintText (n : ℤ) {rest : JsString} (h : Ends rest) :
    number (bigintText n ++ rest) = some rest := by
  obtain ⟨hinteger, hfraction, hexponent⟩ := number_decimal n.natAbs h
  have hsign : (if (bigintText n ++ rest).head? = some 45 then (bigintText n ++ rest).tail
      else bigintText n ++ rest) = decimal n.natAbs ++ rest := by
    obtain ⟨u, s, hcons, -⟩ := decimal_cons n.natAbs
    have hu : u ≠ 45 := by
      rintro rfl
      exact absurd (isDigit_of_mem_decimal (n := n.natAbs) (u := 45) (by simp [hcons])) (by decide)
    unfold bigintText
    by_cases hneg : n < 0
    · rw [if_pos hneg]
      rfl
    · rw [if_neg hneg, if_neg]
      simpa [hcons] using hu
  simp only [number, hsign, hinteger, hfraction, hexponent, Option.bind_eq_bind, Option.bind_some]

/-- An integer reads back where it prints as its digits. -/
theorem readsBack_integer (n : ℤ)
    (hn : numberText (bigintText n) = bigintText n) :
    ReadsBack numberText (.number (bigintText n)) := by
  intro k rest hk h
  obtain ⟨k, rfl⟩ : ∃ j, k = j + 1 := ⟨k - 1, by omega⟩
  obtain ⟨u, s, hcons, hplain⟩ : ∃ u s, bigintText n = u :: s ∧ (isDigit u = true ∨ u = 45) := by
    unfold bigintText
    split_ifs
    · exact ⟨45, _, rfl, .inr rfl⟩
    · obtain ⟨u, s, hcons, -⟩ := decimal_cons n.natAbs
      exact ⟨u, s, hcons, .inl (isDigit_of_mem_decimal (by rw [hcons]; simp))⟩
  have hu : 45 ≤ u.val ∧ u.val ≤ 57 := by
    rcases hplain with hdigit | rfl
    · simp only [isDigit, Bool.and_eq_true, decide_eq_true_eq] at hdigit
      omega
    · decide
  have hne : ∀ c : CodeUnit, c.val < 45 ∨ 57 < c.val → u ≠ c := by
    rintro c hc rfl
    omega
  have hnumber := number_bigintText n h
  rw [text, hn]
  rw [hcons, List.cons_append] at hnumber ⊢
  rw [parseValue, skipSpace_of_ne _ ⟨hne 9 (by decide), hne 10 (by decide), hne 13 (by decide),
    hne 32 (by decide)⟩]
  simp only [hne 34 (by decide), hne 123 (by decide), hne 91 (by decide), if_false]
  rw [scalar.eq_def]
  simp only [hne 116 (by decide), hne 102 (by decide), hne 110 (by decide), if_false, hnumber,
    Option.map_some, List.length_append]
  congr 3
  rw [show s.length + rest.length + 1 - rest.length = (u :: s).length by simp; omega,
    ← List.cons_append, List.take_left']
  rfl

/-! ## Objects -/

theorem parseMembers_text (m : JsString × Value) (ms : List (JsString × Value))
    (h : ∀ p ∈ m :: ms, ReadsBack numberText p.2) (n : ℕ) (rest : JsString)
    (hn : (quote m.1 ++ 58 :: (text numberText m.2 ++ membersTail numberText ms)).length < n) :
    parseMembers scalar n
      (quote m.1 ++ 58 :: (text numberText m.2 ++ membersTail numberText ms) ++ rest) =
      some (m :: ms, rest) := by
  induction ms generalizing m n with
  | nil =>
    obtain ⟨k, rfl⟩ : ∃ k, n = k + 1 := ⟨n - 1, by omega⟩
    have hvalue := h m List.mem_cons_self k (125 :: rest)
      (by simp only [List.length_append, List.length_cons, membersTail] at hn; omega)
      (by simp [Ends])
    simp only [membersTail, List.append_assoc, List.cons_append, List.nil_append, quote]
    rw [parseMembers, skipSpace_of_ne _ (by decide)]
    simp only [if_true, stringBody_quoteBody, skipSpace_of_ne _ (show (58 : CodeUnit) ≠ 9 ∧ _ by decide),
      hvalue, skipSpace_of_ne _ (show (125 : CodeUnit) ≠ 9 ∧ _ by decide)]
  | cons m' ms ih =>
    obtain ⟨k, rfl⟩ : ∃ k, n = k + 1 := ⟨n - 1, by omega⟩
    simp only [List.length_append, List.length_cons, membersTail] at hn
    have hrest := ih m' (fun p hp => h p (List.mem_cons_of_mem _ hp)) k
      (by simp only [List.length_append, List.length_cons]; omega)
    have hvalue := h m List.mem_cons_self k
      (44 :: (quote m'.1 ++ 58 :: (text numberText m'.2 ++ membersTail numberText ms) ++ rest))
      (by omega) (by simp [Ends])
    simp only [List.append_assoc, List.cons_append] at hvalue hrest
    simp only [membersTail, List.append_assoc, List.cons_append]
    rw [quote, List.cons_append, List.append_assoc, List.singleton_append, parseMembers,
      skipSpace_of_ne _ (by decide)]
    simp only [if_true, stringBody_quoteBody, skipSpace_of_ne _ (show (58 : CodeUnit) ≠ 9 ∧ _ by decide),
      hvalue, skipSpace_of_ne _ (show (44 : CodeUnit) ≠ 9 ∧ _ by decide),
      show (44 : CodeUnit) ≠ 125 by decide, if_false, hrest, Option.map_some]

theorem distinct_keys {β : Type} {ms : List (JsString × β)}
    (h : (ms.map Prod.fst).Pairwise (· ≠ ·)) : ms.Pairwise fun p q => p.1 ≠ q.1 :=
  List.pairwise_map.mp h

theorem foldl_assign (ms acc : List (JsString × Value))
    (h : (acc ++ ms).Pairwise fun p q => p.1 ≠ q.1) : ms.foldl assign acc = acc ++ ms := by
  induction ms generalizing acc with
  | nil => simp
  | cons m ms ih =>
    have hm : (acc.any fun p => p.1 = m.1) = false := by
      rw [List.any_eq_false]
      intro p hp
      have hne := (List.pairwise_append.mp h).2.2 p hp m List.mem_cons_self
      simpa using hne
    have hstep : assign acc m = acc ++ [m] := by simp [assign, hm]
    rw [List.foldl_cons, hstep, ih]
    · simp
    · simpa using h

/-! ## Keys -/

theorem assign_keys {ms : List (JsString × Value)} (h : (ms.map Prod.fst).Nodup)
    (m : JsString × Value) : ((assign ms m).map Prod.fst).Nodup := by
  unfold assign
  split_ifs with hany
  · have hkeys : (ms.map fun p => if p.1 = m.1 then m else p).map Prod.fst = ms.map Prod.fst := by
      rw [List.map_map]
      refine List.map_congr_left fun p _ => ?_
      by_cases hp : p.1 = m.1 <;> simp [hp]
    rwa [hkeys]
  · have hnew : m.1 ∉ ms.map Prod.fst := by
      intro hmem
      obtain ⟨p, hp, hkey⟩ := List.mem_map.mp hmem
      exact hany (List.any_eq_true.mpr ⟨p, hp, by simpa using hkey⟩)
    rw [List.map_append, List.map_singleton, ← List.concat_eq_append]
    exact h.concat hnew

theorem foldl_assign_keys (ms : List (JsString × Value)) {acc : List (JsString × Value)}
    (h : (acc.map Prod.fst).Nodup) : ((ms.foldl assign acc).map Prod.fst).Nodup := by
  induction ms generalizing acc with
  | nil => exact h
  | cons m ms ih => exact ih (assign_keys h m)

/-- No key is twice in an object that was parsed. -/
theorem keys_of_parseValue {leaf : JsString → Option (Value × JsString)}
    (hleaf : ∀ s ms r, leaf s ≠ some (.object ms, r)) {n : ℕ} {s r : JsString}
    {ms : List (JsString × Value)} (h : parseValue leaf n s = some (.object ms, r)) :
    (ms.map Prod.fst).Nodup := by
  cases n with
  | zero => cases h
  | succ n =>
    rw [parseValue] at h
    split at h
    next => cases h
    next u t hskip =>
      split_ifs at h with hquote hbrace hempty hbracket hempty'
      · obtain ⟨_, -, hpair⟩ := Option.map_eq_some_iff.mp h
        cases hpair
      · obtain ⟨hobject, -⟩ := Prod.mk.inj (Option.some.inj h)
        obtain rfl := Value.object.inj hobject
        exact List.nodup_nil
      · obtain ⟨p, -, hpair⟩ := Option.map_eq_some_iff.mp h
        obtain ⟨hobject, -⟩ := Prod.mk.inj hpair
        obtain rfl := Value.object.inj hobject
        exact foldl_assign_keys p.1 List.nodup_nil
      · cases Option.some.inj h
      · obtain ⟨_, -, hpair⟩ := Option.map_eq_some_iff.mp h
        cases hpair
      · exact absurd h (hleaf _ _ _)

/-- What a scalar can be; only `null` starts with `n`. -/
theorem scalar_simple {s r : JsString} {v : Value} (h : scalar s = some (v, r)) :
    (v = .null ∧ s.head? = some 110) ∨ (∃ b, v = .bool b) ∨ ∃ t, v = .number t := by
  cases s with
  | nil => cases h
  | cons u t =>
    rw [scalar.eq_def] at h
    simp only at h
    split_ifs at h with htrue hfalse hnull
    · obtain ⟨_, -, hpair⟩ := Option.map_eq_some_iff.mp h
      exact .inr (.inl ⟨true, (Prod.mk.inj hpair).1.symm⟩)
    · obtain ⟨_, -, hpair⟩ := Option.map_eq_some_iff.mp h
      exact .inr (.inl ⟨false, (Prod.mk.inj hpair).1.symm⟩)
    · obtain ⟨_, -, hpair⟩ := Option.map_eq_some_iff.mp h
      exact .inl ⟨(Prod.mk.inj hpair).1.symm, by rw [hnull]; rfl⟩
    · obtain ⟨_, -, hpair⟩ := Option.map_eq_some_iff.mp h
      exact .inr (.inr ⟨_, (Prod.mk.inj hpair).1.symm⟩)

theorem scalar_ne_object (s : JsString) (ms : List (JsString × Value)) (r : JsString) :
    scalar s ≠ some (.object ms, r) := by
  intro h
  obtain ⟨hv, -⟩ | ⟨_, hv⟩ | ⟨_, hv⟩ := scalar_simple h <;> cases hv

theorem readsBack_object {ms : List (JsString × Value)} (hne : ms ≠ [])
    (hkeys : ms.Pairwise fun p q => p.1 ≠ q.1) (h : ∀ p ∈ ms, ReadsBack numberText p.2) :
    ReadsBack numberText (.object ms) := by
  intro n rest hn _
  obtain ⟨k, rfl⟩ : ∃ k, n = k + 1 := ⟨n - 1, by omega⟩
  cases ms with
  | nil => exact absurd rfl hne
  | cons m ms =>
    rw [text] at hn ⊢
    have hmembers := parseMembers_text m ms h k rest (by rw [List.length_cons] at hn; omega)
    have hskip : (skipSpace (quote m.1 ++ 58 :: (text numberText m.2 ++ membersTail numberText ms) ++
        rest)).head? ≠ some 125 := by
      rw [quote, List.cons_append, List.cons_append, skipSpace_of_ne _ (by decide), List.head?_cons]
      decide
    rw [List.cons_append, parseValue, skipSpace_of_ne _ (by decide)]
    simp only [show (123 : CodeUnit) ≠ 34 by decide, if_false, if_true, hskip, hmembers,
      Option.map_some]
    rw [foldl_assign _ [] (by simpa using hkeys), List.nil_append]

theorem parse_text {v : Value} (h : ReadsBack numberText v) : parse (text numberText v) = some v := by
  have hvalue := h _ [] (Nat.lt_succ_self _) (by simp [Ends])
  rw [List.append_nil] at hvalue
  rw [parse, hvalue]
  rfl

end values

/-! ## Objects of strings -/

/-- The members as the parser returns them. -/
def asValues (ms : List (JsString × JsString)) : List (JsString × Value) :=
  ms.map fun m => (m.1, .string m.2)

theorem membersText_eq (numberText : JsString → JsString) (m : JsString × JsString)
    (ms : List (JsString × JsString)) :
    membersText (m :: ms) =
      quote m.1 ++ 58 :: (text numberText (.string m.2) ++ membersTail numberText (asValues ms)) := by
  induction ms generalizing m with
  | nil => simp [membersText, memberText, asValues, text, membersTail]
  | cons m' ms ih =>
    rw [membersText, ih m']
    · simp [memberText, asValues, text, membersTail]
    · simp

theorem stringify_eq_text (numberText : JsString → JsString) (ms : List (JsString × JsString)) :
    stringify ms = text numberText (.object (asValues ms)) := by
  cases ms with
  | nil => rfl
  | cons m ms =>
    rw [stringify, membersText_eq numberText]
    simp only [asValues, List.map_cons, text]

/-- An object of strings with distinct keys reads back member by member. -/
theorem parse_stringify (ms : List (JsString × JsString)) (hne : ms ≠ [])
    (hkeys : ms.Pairwise fun p q => p.1 ≠ q.1) :
    parse (stringify ms) = some (.object (asValues ms)) := by
  rw [stringify_eq_text id]
  refine parse_text (readsBack_object (by simpa [asValues] using hne) ?_ fun p hp => ?_)
  · rw [asValues, List.pairwise_map]
    exact hkeys
  · obtain ⟨m, -, rfl⟩ := List.mem_map.mp hp
    exact readsBack_string m.2

/-! ## No lone surrogates -/

theorem wellFormed_plain {u : CodeUnit} (h : isHigh u = false ∧ isLow u = false) (s : JsString) :
    wellFormed (u :: s) = wellFormed s := by
  cases s with
  | nil => simp [wellFormed, h]
  | cons v s => simp [wellFormed, h]

theorem hexDigit_plain : ∀ d, isHigh (hexDigit d) = false ∧ isLow (hexDigit d) = false := by
  decide

theorem wellFormed_escape (u : CodeUnit) (s : JsString) :
    wellFormed (escape u ++ s) = wellFormed s := by
  have hback : ∀ e t, isHigh e = false ∧ isLow e = false →
      wellFormed (92 :: e :: t) = wellFormed t := by
    intro e t he
    rw [wellFormed_plain (by decide), wellFormed_plain he]
  unfold escape
  split_ifs with h8 h9 h10 h12 h13 h34 h92 hu
  · exact hback 98 s (by decide)
  · exact hback 116 s (by decide)
  · exact hback 110 s (by decide)
  · exact hback 102 s (by decide)
  · exact hback 114 s (by decide)
  · exact hback 34 s (by decide)
  · exact hback 92 s (by decide)
  · have hshape : js "\\u" = [92, 117] := by decide
    rw [unicodeEscape, hshape]
    simp only [List.cons_append, List.nil_append]
    rw [hback 117 _ (by decide)]
    simp only [wellFormed_plain (hexDigit_plain _)]
  · simp only [not_or, Bool.not_eq_true] at hu
    exact wellFormed_plain ⟨hu.2.1, hu.2.2⟩ s

theorem wellFormed_quoteBody (s t : JsString) :
    wellFormed (quoteBody s ++ t) = wellFormed t := by
  induction s using quoteBody.induct with
  | case1 => rfl
  | case2 u => exact wellFormed_escape u t
  | case3 a b s hab ih =>
    rw [quoteBody, if_pos hab]
    simp only [List.cons_append]
    rw [wellFormed, if_pos hab, ih]
  | case4 a b s hab ih => rw [quoteBody, if_neg hab, List.append_assoc, wellFormed_escape, ih]

theorem wellFormed_quote (s t : JsString) : wellFormed (quote s ++ t) = wellFormed t := by
  rw [quote, List.cons_append, wellFormed_plain (by decide), List.append_assoc,
    wellFormed_quoteBody, List.singleton_append, wellFormed_plain (by decide)]

theorem wellFormed_stringify (ms : List (JsString × JsString)) :
    wellFormed (stringify ms) = true := by
  rw [stringify, wellFormed_plain (by decide)]
  induction ms with
  | nil => decide
  | cons m ms ih =>
    have hmember : ∀ t, wellFormed (memberText m ++ t) = wellFormed t := by
      intro t
      rw [memberText, List.append_assoc, wellFormed_quote, List.cons_append,
        wellFormed_plain (by decide), wellFormed_quote]
    cases ms with
    | nil =>
      rw [membersText, hmember]
      decide
    | cons m' ms =>
      rw [membersText, hmember, wellFormed_plain (by decide)]
      · exact ih
      · simp

/-- What is printed of the value leaves no half of a pair behind. -/
def Whole (numberText : JsString → JsString) (v : Value) : Prop :=
  ∀ t, wellFormed (text numberText v ++ t) = wellFormed t

section whole

variable {numberText : JsString → JsString}

theorem whole_string (s : JsString) : Whole numberText (.string s) := fun t => wellFormed_quote s t

theorem whole_nil : Whole numberText (.array []) := fun t => by
  rw [text, List.cons_append, List.singleton_append, wellFormed_plain (by decide),
    wellFormed_plain (by decide)]

theorem wellFormed_plains {s : JsString} (h : ∀ u ∈ s, u.val < 0x80) (t : JsString) :
    wellFormed (s ++ t) = wellFormed t := by
  induction s with
  | nil => rfl
  | cons u s ih =>
    have hu := h u List.mem_cons_self
    have hplain : isHigh u = false ∧ isLow u = false := by
      simp only [isHigh, isLow, Bool.and_eq_false_iff, decide_eq_false_iff_not]
      omega
    rw [List.cons_append, wellFormed_plain hplain, ih fun v hv => h v (List.mem_cons_of_mem u hv)]

theorem whole_integer (n : ℤ) (hn : numberText (bigintText n) = bigintText n) :
    Whole numberText (.number (bigintText n)) := by
  intro t
  have hdecimal : ∀ u ∈ decimal n.natAbs, u.val < 0x80 := by
    intro u hu
    have hdigit := isDigits_decimal _ u hu
    omega
  rw [text, hn]
  refine wellFormed_plains (fun u hu => ?_) t
  unfold bigintText at hu
  split_ifs at hu
  · rcases List.mem_cons.mp hu with rfl | hu
    · decide
    · exact hdecimal u hu
  · exact hdecimal u hu

theorem wellFormed_membersTail (ms : List (JsString × Value)) (h : ∀ p ∈ ms, Whole numberText p.2)
    (t : JsString) : wellFormed (membersTail numberText ms ++ t) = wellFormed t := by
  induction ms with
  | nil => exact wellFormed_plain (by decide) t
  | cons m ms ih =>
    rw [membersTail, List.cons_append, wellFormed_plain (by decide), List.append_assoc,
      wellFormed_quote, List.cons_append, wellFormed_plain (by decide), List.append_assoc,
      h m List.mem_cons_self, ih fun p hp => h p (List.mem_cons_of_mem m hp)]

theorem whole_object {ms : List (JsString × Value)} (h : ∀ p ∈ ms, Whole numberText p.2) :
    Whole numberText (.object ms) := by
  intro t
  cases ms with
  | nil =>
    rw [text, List.cons_append, List.singleton_append, wellFormed_plain (by decide),
      wellFormed_plain (by decide)]
  | cons m ms =>
    rw [text, List.cons_append, wellFormed_plain (by decide), List.append_assoc, wellFormed_quote,
      List.cons_append, wellFormed_plain (by decide), List.append_assoc, h m List.mem_cons_self,
      wellFormed_membersTail ms fun p hp => h p (List.mem_cons_of_mem m hp)]

theorem Whole.wellFormed {v : Value} (h : Whole numberText v) :
    Utf8.wellFormed (text numberText v) = true := by
  have hempty := h []
  rwa [List.append_nil] at hempty

end whole

/-- What a client reads out of the bytes of a printed object. -/
theorem parse_decode_stringify (ms : List (JsString × JsString)) (hne : ms ≠ [])
    (hkeys : ms.Pairwise fun p q => p.1 ≠ q.1) :
    parse (decode (encode (stringify ms))) = some (.object (asValues ms)) := by
  rw [decode_encode _ (wellFormed_stringify ms), parse_stringify ms hne hkeys]

end StealthWage.Json
