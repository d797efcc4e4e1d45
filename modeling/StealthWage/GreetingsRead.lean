import StealthWage.Greetings

/-! # What all three read alike

UTF-8 of an object whose members are all called `name`: whichever of them repeat, the three
libraries end up with the last one. -/
namespace StealthWage.Greetings
open Js Json Utf8 Words

/-! ## UTF-8 -/

theorem decodeRunes_encodePoint {c : ℕ} (hc : Scalar c) (bs : Bytes) :
    Go.decodeRunes (encodePoint c ++ bs) = utf16 c ++ Go.decodeRunes bs := by
  unfold Scalar at hc
  have htail : ∀ n, Go.continues 0x80 0xBF (byte (0x80 + n % 64)) = true := by
    intro n
    simp only [Go.continues, tail_val, Bool.and_eq_true, decide_eq_true_eq]
    omega
  unfold encodePoint
  split_ifs with h1 h2 h3
  · have hb : (byte c).val = c := byte_val (by omega)
    rw [List.singleton_append, Go.decodeRunes.eq_def]
    simp only [hb, h1, if_true, utf16, show c < 0x10000 by omega, List.singleton_append]
  · have hb : (byte (0xC0 + c / 64)).val = 0xC0 + c / 64 := byte_val (by omega)
    have hpoint : (0xC0 + c / 64 - 0xC0) * 64 + (0x80 + c % 64 - 0x80) = c := by omega
    rw [List.cons_append, List.singleton_append, Go.decodeRunes.eq_def]
    simp only [hb, tail_val, htail, hpoint, if_true]
    rw [if_neg (by omega), if_pos (by omega), utf16, if_pos (by omega), List.singleton_append]
  · have hb : (byte (0xE0 + c / 4096)).val = 0xE0 + c / 4096 := byte_val (by omega)
    have hsecond : Go.continues (if 0xE0 + c / 4096 = 0xE0 then 0xA0 else 0x80)
        (if 0xE0 + c / 4096 = 0xED then 0x9F else 0xBF) (byte (0x80 + c / 64 % 64)) = true := by
      simp only [Go.continues, tail_val, Bool.and_eq_true, decide_eq_true_eq]
      split_ifs <;> omega
    have hpoint : ((0xE0 + c / 4096 - 0xE0) * 64 + (0x80 + c / 64 % 64 - 0x80)) * 64 +
        (0x80 + c % 64 - 0x80) = c := by omega
    simp only [List.cons_append, List.nil_append]
    rw [Go.decodeRunes.eq_def]
    simp only [hb, hsecond, tail_val, htail, hpoint, Bool.and_self, if_true]
    rw [if_neg (by omega), if_neg (by omega), if_pos (by omega), utf16, if_pos (by omega),
      List.singleton_append]
  · have hb : (byte (0xF0 + c / 262144)).val = 0xF0 + c / 262144 := byte_val (by omega)
    have hsecond : Go.continues (if 0xF0 + c / 262144 = 0xF0 then 0x90 else 0x80)
        (if 0xF0 + c / 262144 = 0xF4 then 0x8F else 0xBF) (byte (0x80 + c / 4096 % 64)) = true := by
      simp only [Go.continues, tail_val, Bool.and_eq_true, decide_eq_true_eq]
      split_ifs <;> omega
    have hpoint : (((0xF0 + c / 262144 - 0xF0) * 64 + (0x80 + c / 4096 % 64 - 0x80)) * 64 +
        (0x80 + c / 64 % 64 - 0x80)) * 64 + (0x80 + c % 64 - 0x80) = c := by omega
    simp only [List.cons_append, List.nil_append]
    rw [Go.decodeRunes.eq_def]
    simp only [hb, hsecond, tail_val, htail, hpoint, Bool.and_self, if_true]
    rw [if_neg (by omega), if_neg (by omega), if_neg (by omega), if_pos (by omega)]

theorem decodeUtf8_encodePoint {c : ℕ} (hc : Scalar c) (bs : Bytes) :
    Python.decodeUtf8 (encodePoint c ++ bs) = (Python.decodeUtf8 bs).map (utf16 c ++ ·) := by
  unfold Scalar at hc
  have htail : ∀ n, Python.continuation (byte (0x80 + n % 64)) = true := by
    intro n
    simp only [Python.continuation, tail_val, Bool.and_eq_true, decide_eq_true_eq]
    omega
  unfold encodePoint
  split_ifs with h1 h2 h3
  · have hb : (byte c).val = c := byte_val (by omega)
    rw [List.singleton_append, Python.decodeUtf8.eq_def]
    simp only [hb, h1, if_true, utf16, show c < 0x10000 by omega, List.singleton_append]
  · have hb : (byte (0xC0 + c / 64)).val = 0xC0 + c / 64 := byte_val (by omega)
    have hpoint : (0xC0 + c / 64) % 32 * 64 + (0x80 + c % 64) % 64 = c := by omega
    rw [List.cons_append, List.singleton_append, Python.decodeUtf8.eq_def]
    simp only [hb, tail_val, htail, if_true, hpoint]
    rw [if_neg (by omega), if_neg (by omega), if_pos (by omega), utf16, if_pos (by omega)]
    rfl
  · have hb : (byte (0xE0 + c / 4096)).val = 0xE0 + c / 4096 := byte_val (by omega)
    have hpoint : (0xE0 + c / 4096) % 16 * 4096 + (0x80 + c / 64 % 64) % 64 * 64 +
        (0x80 + c % 64) % 64 = c := by omega
    simp only [List.cons_append, List.nil_append]
    rw [Python.decodeUtf8.eq_def]
    simp only [hb, tail_val, htail, hpoint, Bool.and_self, Bool.true_and, decide_eq_true_eq]
    rw [if_neg (by omega), if_neg (by omega), if_neg (by omega), if_pos (by omega),
      if_pos (by omega), utf16, if_pos (by omega)]
    rfl
  · have hb : (byte (0xF0 + c / 262144)).val = 0xF0 + c / 262144 := byte_val (by omega)
    have hpoint : (0xF0 + c / 262144) % 8 * 262144 + (0x80 + c / 4096 % 64) % 64 * 4096 +
        (0x80 + c / 64 % 64) % 64 * 64 + (0x80 + c % 64) % 64 = c := by omega
    simp only [List.cons_append, List.nil_append]
    rw [Python.decodeUtf8.eq_def]
    simp only [hb, tail_val, htail, hpoint, Bool.and_self, Bool.true_and, Bool.and_eq_true,
      decide_eq_true_eq]
    rw [if_neg (by omega), if_neg (by omega), if_neg (by omega), if_neg (by omega),
      if_pos (by omega), if_pos (by omega)]

/-- Go and Python read every well-formed string back. -/
theorem decodeRunes_encode {s : JsString} (h : wellFormed s = true) :
    Go.decodeRunes (encode s) = s := by
  obtain ⟨cs, hcs, hencode, hunits⟩ := exists_points h
  rw [hencode]
  conv_rhs => rw [hunits]
  clear hencode hunits
  induction cs with
  | nil => rfl
  | cons c cs ih =>
    obtain ⟨hc, hcs⟩ := List.forall_mem_cons.mp hcs
    rw [List.flatMap_cons, decodeRunes_encodePoint hc, ih hcs, List.flatMap_cons]

theorem decodeUtf8_encode {s : JsString} (h : wellFormed s = true) :
    Python.decodeUtf8 (encode s) = some s := by
  obtain ⟨cs, hcs, hencode, hunits⟩ := exists_points h
  rw [hencode]
  conv_rhs => rw [hunits]
  clear hencode hunits
  induction cs with
  | nil => rfl
  | cons c cs ih =>
    obtain ⟨hc, hcs⟩ := List.forall_mem_cons.mp hcs
    rw [List.flatMap_cons, decodeUtf8_encodePoint hc, ih hcs, List.flatMap_cons]
    rfl

/-! ## Documents -/

/-- A string or nothing, which Go takes for a name. -/
def IsNameValue (v : Value) : Prop := v = .null ∨ ∃ s, v = .string s

/-- A JSON text of an object whose members are all called `name`, the last of them for good. -/
structure Introduces (t name : JsString) : Prop where
  whole : (parse t).isSome
  members : ∃ ms, Go.rawMembers t = some (ms ++ [(js "name", .string name)]) ∧
    ∀ m ∈ ms, m.1 = js "name" ∧ IsNameValue m.2

/-- The numbers that only Python has are not in the way. -/
theorem pyScalar_null {s r : JsString} (h : scalar s = some (.null, r)) :
    Python.pyScalar s = some (.null, r) := by
  have hnull : s.head? = some 110 := by
    obtain ⟨-, hhead⟩ | ⟨_, hv⟩ | ⟨_, hv⟩ := scalar_simple h
    · exact hhead
    · cases hv
    · cases hv
  have hnone : ∀ word : JsString, word ≠ [] → word.head? ≠ some 110 →
      Python.constant word s = none := by
    intro word hne hhead
    obtain ⟨u, word, rfl⟩ := List.exists_cons_of_ne_nil hne
    obtain ⟨t, rfl⟩ := List.head?_eq_some_iff.mp hnull
    have hu : (u == 110) = false := by simpa using hhead
    simp only [Python.constant, literal, List.isPrefixOf_cons_cons, hu, Bool.false_and,
      Bool.false_eq_true, if_false, Option.map_none]
  simp only [Python.pyScalar, hnone (js "NaN") (by decide) (by decide),
    hnone (js "Infinity") (by decide) (by decide), hnone (js "-Infinity") (by decide) (by decide), h]

theorem parseValue_python {n : ℕ} {s r : JsString} {v : Value} (hv : IsNameValue v)
    (h : parseValue scalar n s = some (v, r)) : parseValue Python.pyScalar n s = some (v, r) := by
  cases n with
  | zero => cases h
  | succ n =>
    have hobject : ∀ ms, v ≠ .object ms := by
      rintro ms rfl
      rcases hv with hv | ⟨_, hv⟩ <;> cases hv
    have harray : ∀ items, v ≠ .array items := by
      rintro items rfl
      rcases hv with hv | ⟨_, hv⟩ <;> cases hv
    rw [parseValue] at h ⊢
    split at h
    next => cases h
    next u t hskip =>
      split_ifs at h ⊢ with hquote hbrace hempty hbracket hempty'
      · exact h
      · exact absurd (Prod.mk.inj (Option.some.inj h)).1.symm (hobject [])
      · obtain ⟨p, -, hpair⟩ := Option.map_eq_some_iff.mp h
        exact absurd (Prod.mk.inj hpair).1.symm (hobject _)
      · exact absurd (Prod.mk.inj (Option.some.inj h)).1.symm (harray [])
      · obtain ⟨p, -, hpair⟩ := Option.map_eq_some_iff.mp h
        exact absurd (Prod.mk.inj hpair).1.symm (harray _)
      · rcases hv with rfl | ⟨x, rfl⟩
        · exact pyScalar_null h
        · obtain ⟨hv, -⟩ | ⟨_, hv⟩ | ⟨_, hv⟩ := scalar_simple h <;> cases hv

theorem parseMembers_python {n : ℕ} {s r : JsString} {ms : List (JsString × Value)}
    (hms : ∀ m ∈ ms, IsNameValue m.2) (h : parseMembers scalar n s = some (ms, r)) :
    parseMembers Python.pyScalar n s = some (ms, r) := by
  induction n generalizing s r ms with
  | zero => cases h
  | succ n ih =>
    rw [parseMembers] at h ⊢
    split at h
    next => cases h
    next q t hskip =>
      split_ifs at h ⊢ with hquote
      split at h
      next => cases h
      next key r₁ hkey =>
        split at h
        next => cases h
        next c r₂ hcolon =>
          split_ifs at h with hc
          split at h
          next => cases h
          next v r₃ hvalue =>
            split at h
            next => cases h
            next e r₄ hend =>
              split_ifs at h with hbrace hcomma
              · obtain ⟨rfl, rfl⟩ := Prod.mk.inj (Option.some.inj h)
                have hv := hms (key, v) List.mem_cons_self
                simp only [hc, if_true, parseValue_python hv hvalue, hend, hbrace]
              · obtain ⟨p, hp, hpair⟩ := Option.map_eq_some_iff.mp h
                obtain ⟨rfl, rfl⟩ := Prod.mk.inj hpair
                have hv := hms (key, v) List.mem_cons_self
                have hrest := ih (fun m hm => hms m (List.mem_cons_of_mem _ hm)) hp
                simp only [hc, if_true, parseValue_python hv hvalue, hend, hcomma,
                  show (44 : CodeUnit) ≠ 125 by decide, if_false, hrest, Option.map_some]

/-! ## The last name -/

theorem foldl_assign_name {ms : List (JsString × Value)} (hms : ∀ m ∈ ms, m.1 = js "name")
    (v : Value) : (ms ++ [(js "name", v)]).foldl assign [] = [(js "name", v)] := by
  have hone : ∀ w w' : Value, assign [(js "name", w)] (js "name", w') = [(js "name", w')] := by
    intro w w'
    simp [assign]
  have hfold : ms.foldl assign [] = [] ∨ ∃ w, ms.foldl assign [] = [(js "name", w)] := by
    induction ms using List.reverseRecOn with
    | nil => exact .inl rfl
    | append_singleton ms m ih =>
      obtain ⟨key, w⟩ := m
      obtain rfl : key = js "name" := hms (key, w) (by simp)
      rw [List.foldl_append]
      rcases ih fun m' hm' => hms m' (List.mem_append_left _ hm') with hnil | ⟨w', hw'⟩
      · rw [hnil]
        exact .inr ⟨w, rfl⟩
      · rw [hw']
        exact .inr ⟨w, hone w' w⟩
  rw [List.foldl_append]
  rcases hfold with hnil | ⟨w, hw⟩
  · rw [hnil]
    rfl
  · rw [hw]
    exact hone w v

theorem replaceLone_plain {s : JsString} (h : Plain s) : Go.replaceLone s = s := by
  have hsurrogate : ∀ u ∈ s, isHigh u = false ∧ isLow u = false := by
    intro u hu
    have hlt := (h u hu).1
    simp only [isHigh, isLow, Bool.and_eq_false_iff, decide_eq_false_iff_not]
    omega
  clear h
  induction s using Go.replaceLone.induct with
  | case1 => rfl
  | case2 u =>
    obtain ⟨hhigh, hlow⟩ := hsurrogate u List.mem_cons_self
    simp [Go.replaceLone, hhigh, hlow]
  | case3 a b s hab ih =>
    rw [(hsurrogate a List.mem_cons_self).1] at hab
    cases hab
  | case4 a b s hab ih =>
    obtain ⟨hhigh, hlow⟩ := hsurrogate a List.mem_cons_self
    rw [Go.replaceLone, if_neg hab, hhigh, hlow,
      ih fun u hu => hsurrogate u (List.mem_cons_of_mem a hu)]
    rfl

theorem setName_last {ms : List (JsString × Value)}
    (hms : ∀ m ∈ ms, m.1 = js "name" ∧ IsNameValue m.2) {name : JsString} (hplain : Plain name)
    (start : JsString) :
    Go.setName start (ms ++ [(js "name", .string name)]) = some name := by
  have hnames : Go.namesName (js "name") = true := by decide
  induction ms generalizing start with
  | nil =>
    rw [List.nil_append, Go.setName.eq_def]
    simp only [hnames, if_true]
    rw [replaceLone_plain hplain]
    rfl
  | cons m ms ih =>
    obtain ⟨key, v⟩ := m
    obtain ⟨hkey, hv⟩ := hms (key, v) List.mem_cons_self
    obtain rfl : key = js "name" := hkey
    have hrest := ih fun m hm => hms m (List.mem_cons_of_mem _ hm)
    rw [List.cons_append, Go.setName.eq_def]
    simp only [hnames, if_true]
    rcases hv with hv | ⟨s, hv⟩
    · obtain rfl : v = .null := hv
      exact hrest start
    · obtain rfl : v = .string s := hv
      exact hrest (Go.replaceLone s)

/-! ## Three readings -/

theorem skipSpace_cons {u c : CodeUnit} {s r : JsString} (h : skipSpace (u :: s) = c :: r) :
    (u = 9 ∨ u = 10 ∨ u = 13 ∨ u = 32) ∧ skipSpace s = c :: r ∨ u = c ∧ s = r := by
  by_cases hspace : u = 9 ∨ u = 10 ∨ u = 13 ∨ u = 32
  · have hskip : skipSpace (u :: s) = skipSpace s := by
      rw [skipSpace, List.dropWhile_cons_of_pos]
      · rfl
      · simpa [or_assoc] using hspace
    exact .inl ⟨hspace, hskip ▸ h⟩
  · simp only [not_or] at hspace
    rw [skipSpace_of_ne s hspace] at h
    exact .inr (List.cons.inj h)

/-- What is next is a blank, or where the blanks end. -/
theorem next_of_skipSpace {c : CodeUnit} {s r : JsString} (hc : 9 ≤ c.val ∧ c.val < 128)
    (h : skipSpace s = c :: r) : ∃ u s', s = u :: s' ∧ (9 ≤ u.val ∧ u.val < 128) := by
  cases s with
  | nil => cases h
  | cons u s =>
    refine ⟨u, s, rfl, ?_⟩
    rcases skipSpace_cons h with ⟨hspace, -⟩ | ⟨rfl, -⟩
    · rcases hspace with rfl | rfl | rfl | rfl <;> decide
    · exact hc

/-- Before the brace and the first quote there are only blanks. -/
theorem ascii_start {t body r : JsString} (ht : skipSpace t = 123 :: body)
    (hbody : skipSpace body = 34 :: r) : ∃ u v t', t = u :: v :: t' ∧
      (9 ≤ u.val ∧ u.val < 128) ∧ (9 ≤ v.val ∧ v.val < 128) := by
  obtain ⟨u, s, rfl, hu⟩ := next_of_skipSpace (by decide) ht
  obtain ⟨v, t', rfl, hv⟩ : ∃ v t', s = v :: t' ∧ (9 ≤ v.val ∧ v.val < 128) := by
    rcases skipSpace_cons ht with ⟨-, hs⟩ | ⟨-, rfl⟩
    · exact next_of_skipSpace (by decide) hs
    · exact next_of_skipSpace (by decide) hbody
  exact ⟨u, v, t', rfl, hu, hv⟩

theorem quote_of_parseMembers {leaf : JsString → Option (Value × JsString)} {n : ℕ} {s : JsString}
    {p : List (JsString × Value) × JsString} (h : parseMembers leaf n s = some p) :
    ∃ r, skipSpace s = 34 :: r := by
  cases n with
  | zero => cases h
  | succ n =>
    rw [parseMembers] at h
    split at h
    next => cases h
    next q r hq =>
      split_ifs at h with h34
      exact ⟨r, by rw [hq, h34]⟩

theorem parseValue_members {leaf : JsString → Option (Value × JsString)} {n : ℕ}
    {t body rest : JsString} {ms : List (JsString × Value)} (ht : skipSpace t = 123 :: body)
    (hsome : (skipSpace body).head? ≠ some 125) (h : parseMembers leaf n body = some (ms, rest)) :
    parseValue leaf (n + 1) t = some (.object (ms.foldl assign []), rest) := by
  rw [parseValue, ht]
  simp only [show (123 : CodeUnit) ≠ 34 by decide, if_false, if_true, hsome, h, Option.map_some]

/-- The document as the parsers meet it: it starts with two characters of ASCII. -/
theorem Introduces.parsed {t name : JsString} (h : Introduces t name) :
    ∃ (ms : List (JsString × Value)) (u v : CodeUnit) (t' rest : JsString),
      t = u :: v :: t' ∧ (9 ≤ u.val ∧ u.val < 128) ∧ (9 ≤ v.val ∧ v.val < 128) ∧
      Go.rawMembers t = some (ms ++ [(js "name", .string name)]) ∧
      (∀ m ∈ ms, m.1 = js "name" ∧ IsNameValue m.2) ∧ skipSpace rest = [] ∧
      parseValue scalar (t.length + 1) t = some (.object [(js "name", .string name)], rest) ∧
      parseValue Python.pyScalar (t.length + 1) t =
        some (.object [(js "name", .string name)], rest) := by
  obtain ⟨ms, hraw, hms⟩ := h.members
  have hvalues : ∀ m ∈ ms ++ [(js "name", Value.string name)], IsNameValue m.2 := by
    intro m hm
    rcases List.mem_append.mp hm with hm | hm
    · exact (hms m hm).2
    · obtain rfl := List.mem_singleton.mp hm
      exact .inr ⟨name, rfl⟩
  have hfold := foldl_assign_name (fun m hm => (hms m hm).1) (.string name)
  have hmembers := hraw
  unfold Go.rawMembers at hmembers
  split at hmembers
  next => cases hmembers
  next b body hskip =>
    split_ifs at hmembers with hb hempty
    · exact absurd (Option.some.inj hmembers).symm (by simp)
    obtain ⟨⟨ms', rest⟩, hparse, hpair⟩ := Option.map_eq_some_iff.mp hmembers
    obtain rfl : ms' = ms ++ [(js "name", .string name)] := hpair
    subst hb
    have hobject := parseValue_members hskip hempty hparse
    have hpython := parseValue_members hskip hempty (parseMembers_python hvalues hparse)
    rw [hfold] at hobject hpython
    have hrest : skipSpace rest = [] := by
      have hwhole := h.whole
      rw [parse, hobject] at hwhole
      by_contra hne
      simp [hne] at hwhole
    obtain ⟨r, hquote⟩ := quote_of_parseMembers hparse
    obtain ⟨u, v, t', rfl, hu, hv⟩ := ascii_start hskip hquote
    exact ⟨ms, u, v, t', rest, rfl, hu, hv, hraw, hms, hrest, hobject, hpython⟩

theorem detectEncoding_ascii {b0 b1 : Byte} (h0 : 9 ≤ b0.val ∧ b0.val < 128)
    (h1 : 9 ≤ b1.val ∧ b1.val < 128) (bs : Bytes) :
    Python.detectEncoding (b0 :: b1 :: bs) = (.utf8, 0) := by
  have hmark : ∀ (x : Byte) (mark : Bytes), x.val = 0 ∨ 128 ≤ x.val →
      (x :: mark).isPrefixOf (b0 :: b1 :: bs) = false := by
    intro x mark hx
    have hne : (x == b0) = false := by
      rw [beq_eq_false_iff_ne]
      rintro rfl
      omega
    rw [List.isPrefixOf_cons_cons, hne, Bool.false_and]
  have hb0 : b0 ≠ 0 := by
    rintro rfl
    exact absurd h0.1 (by decide)
  have hb1 : b1 ≠ 0 := by
    rintro rfl
    exact absurd h1.1 (by decide)
  unfold Python.detectEncoding
  simp only [hmark 0 _ (by decide), hmark 0xFF _ (by decide), hmark 0xFE _ (by decide),
    hmark 0xEF _ (by decide), if_false, Bool.false_eq_true]
  match bs with
  | [] => simp only [hb0, hb1, if_false]
  | [_] => rfl
  | _ :: _ :: _ => simp only [hb0, hb1, if_false]

section reading

variable {t name : JsString}

theorem goReads_of_introduces (ht : wellFormed t = true) (h : Introduces t name) (hne : name ≠ [])
    (hplain : Plain name) : GoReads (encode t) name := by
  obtain ⟨ms, _, _, _, rest, -, -, -, hraw, hms, -, hparse, -⟩ := h.parsed
  refine ⟨?_, hne⟩
  unfold Go.decodeHello
  simp only [decodeRunes_encode ht, hparse, hraw, Option.bind_some, setName_last hms hplain]

theorem tsReads_of_introduces (ht : wellFormed t = true) (h : Introduces t name)
    (hne : name ≠ []) : TsReads (encode t) name := by
  obtain ⟨_, _, _, _, rest, -, -, -, -, -, hrest, hparse, -⟩ := h.parsed
  refine ⟨?_, hne⟩
  rw [decode_encode t ht, parse, hparse]
  exact if_pos hrest

/-- The first two bytes keep Python from taking the document for UTF-16 or UTF-32. -/
theorem pythonReads_of_introduces (L : Libraries) (ht : wellFormed t = true)
    (h : Introduces t name) (hne : name ≠ []) : PythonReads L (encode t) name := by
  obtain ⟨_, u, v, t', rest, hsplit, hu, hv, -, -, hrest, -, hparse⟩ := h.parsed
  have hbytes : encode t = byte u.val :: byte v.val :: encode t' := by
    rw [hsplit, encode_plain hu.2, encode_plain hv.2]
  have hdetect : Python.detectEncoding (encode t) = (.utf8, 0) := by
    have hub : (byte u.val).val = u.val := byte_val (by omega)
    have hvb : (byte v.val).val = v.val := byte_val (by omega)
    rw [hbytes]
    exact detectEncoding_ascii (by rwa [hub]) (by rwa [hvb]) _
  refine ⟨.string name, ?_, by simpa [Python.falsy] using hne, rfl⟩
  rw [Python.loads, Python.decodeBytes, hdetect]
  simp only [List.drop_zero, decodeUtf8_encode ht, Option.bind_some]
  rw [Python.loadsText, hparse]
  exact if_pos hrest

/-- Whatever repeats in the document, each library ends up with its last name. -/
theorem alike_of_introduces (L : Libraries) {m : Message} (hbytes : m.bytes = encode t)
    (ht : wellFormed t = true) (h : Introduces t name) (hne : name ≠ []) (hplain : Plain name) :
    Alike L m :=
  .inr ⟨name, hbytes ▸ goReads_of_introduces ht h hne hplain,
    hbytes ▸ pythonReads_of_introduces L ht h hne, hbytes ▸ tsReads_of_introduces ht h hne, hplain⟩

end reading

/-! ## Interchangeable -/

/-- The three implementations answer a sequence of greetings alike, byte for byte, exactly where
each message is read alike. A document with a plain name is one of them. -/
theorem greetings_interchangeable (L : Libraries) :
    (∀ ms : List Message,
      (∀ pre m post, ms = pre ++ m :: post → Same L (run L pre) m) ↔ ∀ m ∈ ms, Alike L m) ∧
    ∀ (m : Message) (t name : JsString), m.bytes = encode t → wellFormed t = true →
      Introduces t name → name ≠ [] → Plain name → Alike L m := by
  constructor
  · exact interchangeable
  · intro m t name hbytes ht h hne hplain
    exact alike_of_introduces L hbytes ht h hne hplain

def libraries : Libraries := ⟨Contract.host, Python.bare, fun _ => []⟩

/-- An object with one member. -/
def document (name : JsString) : JsString :=
  Json.text id (.object [(js "name", .string name)])

theorem introduces_document (name : JsString) : Introduces (document name) name := by
  have hreads : ∀ p ∈ [(js "name", Value.string name)], ReadsBack id p.2 := by
    intro p hp
    obtain rfl := List.mem_singleton.mp hp
    exact readsBack_string name
  constructor
  · rw [document, parse_text (readsBack_object (by simp) (by simp) hreads)]
    rfl
  · refine ⟨[], ?_, by simp⟩
    have hmembers := parseMembers_text (js "name", .string name) [] hreads
      (text id (.object [(js "name", .string name)])).length [] (by simp [text])
    rw [List.append_nil] at hmembers
    have hquote : (skipSpace (quote (js "name") ++ 58 :: (text id (.string name) ++
        membersTail id []))).head? ≠ some 125 := by
      rw [quote, List.cons_append, skipSpace_of_ne _ (by decide), List.head?_cons]
      decide
    unfold Go.rawMembers
    rw [document, text, skipSpace_of_ne _ (by decide)]
    simp only [text] at hmembers hquote ⊢
    simp only [if_true, hquote, if_false, hmembers, Option.map_some, List.nil_append]

def greeting (name : JsString) : Message where
  text := bytesToHex (encode (document name))
  bytes := encode (document name)
  hex := hexToBytes_bytesToHex _

theorem greetings_interchangeable_flare :
    Same libraries (run libraries [greeting (js "Ada")]) (greeting (js "Flare")) := by
  obtain ⟨hiff, hintroduces⟩ := greetings_interchangeable libraries
  have hread : ∀ m ∈ [greeting (js "Ada"), greeting (js "Flare")], Alike libraries m := by
    intro m hm
    rcases List.mem_cons.mp hm with rfl | hm
    · exact hintroduces _ (document (js "Ada")) (js "Ada") rfl (by decide +kernel)
        (introduces_document _) (by decide) (by decide)
    · obtain rfl := List.mem_singleton.mp hm
      exact hintroduces _ (document (js "Flare")) (js "Flare") rfl (by decide +kernel)
        (introduces_document _) (by decide) (by decide)
  exact (hiff _).mpr hread [greeting (js "Ada")] (greeting (js "Flare")) [] rfl

/-- Go escapes the markup in a name, TypeScript does not. -/
theorem markup_counterexample :
    ¬ ∀ (ms pre : List Message) (m : Message) (post : List Message), ms = pre ++ m :: post →
      Same libraries (run libraries pre) m := by
  intro h
  obtain ⟨⟨r, -, hresult⟩, -⟩ := h [greeting (js "<")] [] (greeting (js "<")) [] rfl
  have hdata := hresult.tsData (by decide +kernel)
  exact absurd hdata (by decide +kernel)

end StealthWage.Greetings
