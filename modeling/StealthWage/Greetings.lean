import StealthWage.GoGreeting
import StealthWage.JsonRoundtrip
import StealthWage.StatusTable

/-! # Three implementations of the greeting

One process of each implementation gets the same messages. They stay alike exactly as long as the
three JSON libraries find the same name in a message and the three printers have nothing in it
that they write differently. -/
namespace StealthWage.Greetings
open App (Host greetingOf)
open Base (hexArg parseJson_eq_ok property)
open Contract (toOption_eq_some)
open Enclave (HandlerResult refuse)
open Js Json Utf8 Words

/-! ## Messages and processes -/

/-- The hex of an action and the bytes that it stands for. -/
structure Message where
  text : JsString
  bytes : Bytes
  hex : hexToBytes text = .ok bytes

/-- The libraries of the three processes. -/
structure Libraries where
  host : Host
  interpreter : Python.Interpreter
  decodeError : Bytes → JsString

structure Processes where
  go : Go.State
  python : Python.State
  ts : App.State

def Processes.initial : Processes := ⟨Go.State.initial, Python.State.initial, App.State.initial⟩

variable (L : Libraries)

/-- The state after one message; an exception changes nothing. -/
def step (p : Processes) (m : Message) : Processes where
  go := (Go.processSayHello L.decodeError m.bytes p.go).2
  python := match Python.handleSayHello L.interpreter (.string m.text) p.python with
    | .ok r => r.2
    | .error _ => p.python
  ts := (App.handleSayHello L.host (.string m.text) p.ts).2

def run (ms : List Message) : Processes := ms.foldl (step L) Processes.initial

/-- Counts and last greetings are the same. -/
structure Level (p : Processes) : Prop where
  pythonCount : p.python.greetingCount = p.go.greetingCount
  tsCount : p.ts.greetingCount = p.go.greetingCount
  pythonGreeting : p.python.lastGreeting = p.go.lastGreeting
  tsGreeting : p.ts.lastGreeting = p.go.lastGreeting

/-- The three results: the same status, and the same data where it is 1. -/
structure SameResult (go python ts : HandlerResult) : Prop where
  pythonStatus : python.status = go.status
  tsStatus : ts.status = go.status
  pythonData : go.status = 1 → python.data = go.data
  tsData : go.status = 1 → ts.data = go.data

/-- What is asked of one message. -/
structure Same (p : Processes) (m : Message) : Prop where
  result : ∃ r, Python.handleSayHello L.interpreter (.string m.text) p.python = .ok r ∧
    SameResult (Go.processSayHello L.decodeError m.bytes p.go).1 r.1
      (App.handleSayHello L.host (.string m.text) p.ts).1
  level : Level (step L p m)

/-! ## Names -/

/-- The name that Go's decoder finds in the bytes. -/
def GoReads (b : Bytes) (name : JsString) : Prop := Go.decodeHello b = some name ∧ name ≠ []

/-- The name that Python finds, in the words it has for it. -/
def PythonReads (b : Bytes) (name : JsString) : Prop :=
  ∃ v, Python.loads b = some (.object [(js "name", v)]) ∧ Python.falsy v = false ∧
    Python.formatted L.interpreter v = name

def TsReads (b : Bytes) (name : JsString) : Prop :=
  parse (decode b) = some (.object [(js "name", .string name)]) ∧ name ≠ []

/-- ASCII, but neither markup nor DEL: what the three printers write alike. -/
def Plain (s : JsString) : Prop := ∀ u ∈ s, u.val < 127 ∧ u ≠ 60 ∧ u ≠ 62 ∧ u ≠ 38

instance (s : JsString) : Decidable (Plain s) := List.decidableBAll _ _

/-- The three find no name, or the same plain one. -/
def Alike (m : Message) : Prop :=
  (∀ name, ¬ GoReads m.bytes name ∧ ¬ PythonReads L m.bytes name ∧ ¬ TsReads m.bytes name) ∨
  ∃ name, GoReads m.bytes name ∧ PythonReads L m.bytes name ∧ TsReads m.bytes name ∧ Plain name

/-! ## Reading -/

def goName (m : Message) : Option JsString := (Go.decodeHello m.bytes).filter (· ≠ [])

/-- What stands for the name in Python's greeting. -/
def pythonName (m : Message) : Option JsString :=
  match Python.readHello L.interpreter (.string m.text) with
  | .ok (.ok name) => some (Python.formatted L.interpreter name)
  | _ => none

def tsName (m : Message) : Option JsString := (App.readHello L.host (.string m.text)).toOption

theorem pyScalar_ne_object (s : JsString) (ms : List (JsString × Value)) (r : JsString) :
    Python.pyScalar s ≠ some (.object ms, r) := by
  intro h
  have hconstant : ∀ word, Python.constant word s ≠ some (.object ms, r) := by
    intro word hword
    obtain ⟨_, -, hpair⟩ := Option.map_eq_some_iff.mp hword
    cases hpair
  unfold Python.pyScalar at h
  cases hnan : Python.constant (js "NaN") s with
  | some p =>
    simp only [hnan] at h
    exact hconstant _ (hnan.trans h)
  | none =>
    cases hinfinity : Python.constant (js "Infinity") s with
    | some p =>
      simp only [hnan, hinfinity] at h
      exact hconstant _ (hinfinity.trans h)
    | none =>
      cases hminus : Python.constant (js "-Infinity") s with
      | some p =>
        simp only [hnan, hinfinity, hminus] at h
        exact hconstant _ (hminus.trans h)
      | none =>
        simp only [hnan, hinfinity, hminus] at h
        split at h
        · split_ifs at h
          cases h
        · exact scalar_ne_object s ms r h

theorem parse_keys {s : JsString} {ms : List (JsString × Value)} (h : parse s = some (.object ms)) :
    (ms.map Prod.fst).Nodup := by
  unfold parse at h
  split at h
  next v r hvalue =>
    split_ifs at h
    obtain rfl := Option.some.inj h
    exact keys_of_parseValue scalar_ne_object hvalue
  next => cases h

theorem loads_keys {b : Bytes} {ms : List (JsString × Value)}
    (h : Python.loads b = some (.object ms)) : (ms.map Prod.fst).Nodup := by
  obtain ⟨s, -, h⟩ := Option.bind_eq_some_iff.mp h
  unfold Python.loadsText at h
  split at h
  next v r hvalue =>
    split_ifs at h
    obtain rfl := Option.some.inj h
    exact keys_of_parseValue pyScalar_ne_object hvalue
  next => cases h

/-- An object without unknown fields has one member at most. -/
theorem sole_name {members : List (JsString × Value)} (hkeys : (members.map Prod.fst).Nodup)
    {r : JsString → JsString → Prop} [DecidableRel r]
    (hunknown : ((members.map Prod.fst).filter (· ≠ js "name")).insertionSort r = []) :
    members = [] ∨ ∃ v, members = [(js "name", v)] := by
  have hnone : (members.map Prod.fst).filter (· ≠ js "name") = [] :=
    List.Perm.eq_nil (hunknown ▸ (List.perm_insertionSort r _).symm)
  have hname : ∀ m ∈ members, m.1 = js "name" := by
    intro m hm
    have hfilter := List.filter_eq_nil_iff.mp hnone m.1 (List.mem_map_of_mem hm)
    simpa using hfilter
  match members, hkeys, hname with
  | [], _, _ => exact .inl rfl
  | [(key, v)], _, hname =>
    obtain rfl : key = js "name" := hname (key, v) List.mem_cons_self
    exact .inr ⟨v, rfl⟩
  | m :: m' :: members, hkeys, hname =>
    have hsame : m.1 = m'.1 := (hname m (by simp)).trans (hname m' (by simp)).symm
    exact absurd hsame (by simp_all)

theorem no_unknown (v : Value) {r : JsString → JsString → Prop} [DecidableRel r] :
    (([(js "name", v)].map Prod.fst).filter (· ≠ js "name")).insertionSort r = [] := by
  simp

theorem property_name (v : Value) : property (.object [(js "name", v)]) (js "name") = some v := by
  simp [property]

theorem get_name (v default : Value) : Python.get [(js "name", v)] (js "name") default = v := by
  simp [Python.get]

variable {L}

theorem goName_eq_some {m : Message} {name : JsString} :
    goName m = some name ↔ GoReads m.bytes name := by
  rw [goName, Option.filter_eq_some_iff, GoReads, decide_eq_true_eq]

theorem tsName_eq_some {m : Message} {name : JsString} :
    tsName L m = some name ↔ TsReads m.bytes name := by
  have hhex : hexArg (some (.string m.text)) = .ok m.bytes := by
    rw [hexArg, m.hex]
    rfl
  rw [tsName, toOption_eq_some]
  unfold App.readHello
  rw [hhex]
  constructor
  · intro h
    simp only at h
    split at h
    next => cases h
    next members hjson =>
      have hparse := parseJson_eq_ok.mp hjson
      split at h
      next => cases h
      next hunknown =>
        rcases sole_name (parse_keys hparse) hunknown with rfl | ⟨v, rfl⟩
        · cases h
        · rw [property_name] at h
          split at h
          next u name' hv =>
            obtain rfl := Except.ok.inj h
            obtain rfl := Option.some.inj hv
            exact ⟨hparse, List.cons_ne_nil u name'⟩
          next => cases h
    next => cases h
  · rintro ⟨hparse, hne⟩
    obtain ⟨u, name, rfl⟩ := List.exists_cons_of_ne_nil hne
    simp only [parseJson_eq_ok.mpr hparse, no_unknown, property_name]

theorem pythonName_eq_some {m : Message} {name : JsString} :
    pythonName L m = some name ↔ PythonReads L m.bytes name := by
  have hhex := Python.hexToBytes_hex L.interpreter m.hex
  unfold pythonName Python.readHello
  rw [hhex]
  constructor
  · intro h
    simp only at h
    cases hloads : Python.loads m.bytes with
    | none =>
      rw [hloads] at h
      cases h
    | some v =>
      rw [hloads] at h
      cases v with
      | object members =>
        simp only at h
        split at h
        next found hfound =>
          split at hfound
          next => cases hfound
          next hunknown =>
            split_ifs at hfound with hfalsy
            · cases hfound
            obtain rfl := Except.ok.inj (Except.ok.inj hfound)
            rcases sole_name (loads_keys hloads) hunknown with rfl | ⟨v, rfl⟩
            · exact absurd rfl hfalsy
            · rw [get_name] at hfalsy h
              exact ⟨v, hloads, Bool.not_eq_true _ ▸ hfalsy, Option.some.inj h⟩
        next => cases h
      | _ => cases h
  · rintro ⟨v, hloads, hfalsy, hname⟩
    simp only [hloads, no_unknown, get_name, hfalsy, Bool.false_eq_true, if_false, hname]

theorem alike_iff {m : Message} : Alike L m ↔
    goName m = none ∧ pythonName L m = none ∧ tsName L m = none ∨
    ∃ name, goName m = some name ∧ pythonName L m = some name ∧ tsName L m = some name ∧
      Plain name := by
  simp only [Alike, goName_eq_some, pythonName_eq_some, tsName_eq_some,
    Option.eq_none_iff_forall_ne_some, ne_eq, forall_and]

variable (L)

/-! ## Printing -/

theorem escape_plain {u : CodeUnit} (h : u.val < 127 ∧ u ≠ 60 ∧ u ≠ 62 ∧ u ≠ 38) :
    Python.asciiEscape u = escape u ∧ Go.htmlEscape u = escape u := by
  have hsurrogate : isHigh u = false ∧ isLow u = false := by
    simp only [isHigh, isLow, Bool.and_eq_false_iff, decide_eq_false_iff_not]
    omega
  have hline : u ≠ 0x2028 ∧ u ≠ 0x2029 := by
    constructor <;>
    · rintro rfl
      exact absurd h.1 (by decide)
  constructor
  · unfold Python.asciiEscape
    split_ifs with hcontrol
    · rfl
    · simp only [not_or] at hcontrol
      have hne : u ≠ 8 ∧ u ≠ 9 ∧ u ≠ 10 ∧ u ≠ 12 ∧ u ≠ 13 := by
        refine ⟨?_, ?_, ?_, ?_, ?_⟩ <;>
        · rintro rfl
          exact hcontrol.1 (by decide)
      simp only [escape, hne, hcontrol, hsurrogate, if_false, or_self, Bool.false_eq_true]
    · exact absurd h.1 ‹_›
  · simp only [Go.htmlEscape, escape, hsurrogate, hline, h.2, or_false, Bool.false_eq_true]

theorem quoteBody_plain {s : JsString} (h : Plain s) : quoteBody s = s.flatMap escape := by
  induction s using quoteBody.induct with
  | case1 => rfl
  | case2 u => exact (List.flatMap_singleton ..).symm
  | case3 a b s hab ih =>
    have ha := (h a List.mem_cons_self).1
    simp only [Bool.and_eq_true, isHigh, decide_eq_true_eq] at hab
    omega
  | case4 a b s hab ih =>
    rw [quoteBody, if_neg hab, ih fun u hu => h u (List.mem_cons_of_mem a hu)]
    rfl

theorem flatMap_plain {s : JsString} (h : Plain s) :
    s.flatMap Python.asciiEscape = quoteBody s ∧ s.flatMap Go.htmlEscape = quoteBody s := by
  rw [quoteBody_plain h]
  constructor
  · exact List.flatMap_congr fun u hu => (escape_plain (h u hu)).1
  · exact List.flatMap_congr fun u hu => (escape_plain (h u hu)).2

theorem plain_append {s t : JsString} : Plain (s ++ t) ↔ Plain s ∧ Plain t := by
  unfold Plain
  exact List.forall_mem_append

/-- The words around the name are plain. -/
theorem plain_greetingOf {name : JsString} : Plain (greetingOf name) ↔ Plain name := by
  have hleft : Plain (js "Hello, ") := by decide
  have hright : Plain (js "! Welcome to Flare Confidential Compute.") := by decide
  rw [greetingOf, plain_append, plain_append]
  exact ⟨fun h => h.1.2, fun h => ⟨⟨hleft, h⟩, hright⟩⟩

theorem greetingOf_injective : Function.Injective greetingOf := by
  intro a b h
  rw [greetingOf, greetingOf] at h
  exact List.append_cancel_left (List.append_cancel_right h)

/-- What the three printers have in common. -/
def around (content : JsString) (n : ℕ) : JsString :=
  123 :: (quote (js "greeting") ++ 58 :: 34 :: (content ++ 34 :: 44 ::
    (quote (js "greetingNumber") ++ 58 :: (decimal n ++ [125]))))

theorem ts_numbered (content : JsString) (n : ℕ) :
    App.numbered (js "greeting") (js "greetingNumber") content n =
      around (quoteBody content) n := by
  have hquote : quote content = 34 :: (quoteBody content ++ [34]) := rfl
  simp only [App.numbered, text, membersTail, around, hquote, List.cons_append, List.append_assoc,
    List.nil_append, id]

theorem python_numbered (content : JsString) (n : ℕ) :
    Python.numbered (js "greeting") (js "greetingNumber") content n =
      around (content.flatMap Python.asciiEscape) n := by
  have hgreeting : Python.asciiQuote (js "greeting") = quote (js "greeting") := by decide +kernel
  have hnumber : Python.asciiQuote (js "greetingNumber") = quote (js "greetingNumber") := by
    decide +kernel
  rw [Python.numbered, hgreeting, hnumber]
  simp only [Python.asciiQuote, around, List.cons_append, List.append_assoc, List.nil_append]

theorem go_numbered (content : JsString) (n : ℕ) :
    Go.numbered (js "greeting") (js "greetingNumber") content n =
      around (content.flatMap Go.htmlEscape) n := by
  have hgreeting : Go.htmlQuote (js "greeting") = quote (js "greeting") := by decide +kernel
  have hnumber : Go.htmlQuote (js "greetingNumber") = quote (js "greetingNumber") := by
    decide +kernel
  rw [Go.numbered, hgreeting, hnumber]
  simp only [Go.htmlQuote, around, List.cons_append, List.append_assoc, List.nil_append]

theorem around_injective {s t : JsString} {n : ℕ} (h : around s n = around t n) : s = t := by
  simp only [around, List.cons.injEq, true_and, List.append_cancel_left_eq] at h
  exact List.append_cancel_right h

/-! ## What differs -/

/-- What no printer but Python's escapes, or none but Go's, is in the text as it is. -/
theorem mem_quoteBody {s : JsString} (hs : wellFormed s = true) {u : CodeUnit} (hu : u ∈ s)
    (hraw : 32 ≤ u.val ∧ u ≠ 34 ∧ u ≠ 92) : u ∈ quoteBody s := by
  have hescape : isHigh u = false ∧ isLow u = false → u ∈ escape u := by
    intro hplain
    have hne : u ≠ 8 ∧ u ≠ 9 ∧ u ≠ 10 ∧ u ≠ 12 ∧ u ≠ 13 ∧ ¬ u.val < 32 := by
      refine ⟨?_, ?_, ?_, ?_, ?_, not_lt.mpr hraw.1⟩ <;>
      · rintro rfl
        exact absurd hraw.1 (by decide)
    simp only [escape, hne, hraw.2, hplain, if_false, or_self, Bool.false_eq_true,
      List.mem_singleton]
  induction s using quoteBody.induct with
  | case1 => cases hu
  | case2 v =>
    obtain rfl := List.mem_singleton.mp hu
    simp only [wellFormed, Bool.and_eq_true, Bool.not_eq_true'] at hs
    exact hescape hs
  | case3 a b s hab ih =>
    rw [wellFormed, if_pos hab] at hs
    rw [quoteBody, if_pos hab]
    rcases List.mem_cons.mp hu with rfl | hu
    · exact List.mem_cons_self
    · rcases List.mem_cons.mp hu with rfl | hu
      · exact List.mem_cons_of_mem a List.mem_cons_self
      · exact List.mem_cons_of_mem a (List.mem_cons_of_mem b (ih hs hu))
  | case4 a b s hab ih =>
    rw [wellFormed, if_neg hab] at hs
    simp only [Bool.and_eq_true, Bool.not_eq_true'] at hs
    rw [quoteBody, if_neg hab, List.mem_append]
    rcases List.mem_cons.mp hu with rfl | hu
    · exact .inl (hescape hs.1)
    · exact .inr (ih hs.2 hu)

theorem plain_unicodeEscape (u : CodeUnit) : Plain (unicodeEscape u) := by
  have hdigit : ∀ d : Fin 16, (hexDigit d).val < 127 ∧ hexDigit d ≠ 60 ∧ hexDigit d ≠ 62 ∧
      hexDigit d ≠ 38 := by decide
  have hstart : Plain (js "\\u") := by decide
  intro v hv
  rcases List.mem_append.mp hv with hv | hv
  · exact hstart v hv
  · simp only [List.mem_cons, List.not_mem_nil, or_false] at hv
    rcases hv with rfl | rfl | rfl | rfl <;> exact hdigit _

theorem plain_escape {u : CodeUnit} (h : u.val < 32 ∨ u = 34 ∨ u = 92) : Plain (escape u) := by
  unfold escape
  split_ifs with h8 h9 h10 h12 h13 h34 h92 hu
  · decide
  · decide
  · decide
  · decide
  · decide
  · decide
  · decide
  · exact plain_unicodeEscape u
  · rcases h with h | h | h
    · exact absurd (.inl h) hu
    · exact absurd h h34
    · exact absurd h h92

/-- Python writes ASCII without DEL. -/
theorem asciiEscape_lt (u : CodeUnit) : ∀ v ∈ Python.asciiEscape u, v.val < 127 := by
  intro v hv
  unfold Python.asciiEscape at hv
  split_ifs at hv with hcontrol hplain
  · exact (plain_escape hcontrol v hv).1
  · rw [List.mem_singleton.mp hv]
    exact hplain
  · exact (plain_unicodeEscape u v hv).1

/-- Go writes no markup; what is beyond ASCII it writes as it is. -/
theorem htmlEscape_mem {u v : CodeUnit} (hv : v ∈ Go.htmlEscape u) :
    (v.val < 127 ∨ v = u) ∧ v ≠ 60 ∧ v ≠ 62 ∧ v ≠ 38 := by
  have hplain : ∀ s : JsString, Plain s → v ∈ s →
      (v.val < 127 ∨ v = u) ∧ v ≠ 60 ∧ v ≠ 62 ∧ v ≠ 38 := fun s hs hv =>
    ⟨.inl (hs v hv).1, (hs v hv).2⟩
  unfold Go.htmlEscape at hv
  split_ifs at hv with h8 h9 h10 h12 h13 h34 h92 hu
  · exact hplain _ (by decide) hv
  · exact hplain _ (by decide) hv
  · exact hplain _ (by decide) hv
  · exact hplain _ (by decide) hv
  · exact hplain _ (by decide) hv
  · exact hplain _ (by decide) hv
  · exact hplain _ (by decide) hv
  · exact hplain _ (plain_unicodeEscape u) hv
  · simp only [not_or] at hu
    obtain rfl := List.mem_singleton.mp hv
    exact ⟨.inr rfl, hu.2.1, hu.2.2.1, hu.2.2.2.1⟩

theorem wellFormed_around {s : JsString} (hs : ∀ t, wellFormed (s ++ t) = wellFormed t) (n : ℕ) :
    wellFormed (around s n) = true := by
  have hdecimal : ∀ u ∈ decimal n, u.val < 0x80 := fun u hu => by
    have hdigit := isDigits_decimal n u hu
    omega
  rw [around, wellFormed_plain (by decide), wellFormed_quote, wellFormed_plain (by decide),
    wellFormed_plain (by decide), hs, wellFormed_plain (by decide), wellFormed_plain (by decide),
    wellFormed_quote, wellFormed_plain (by decide), wellFormed_plains hdecimal]
  decide

theorem encode_injOn {s t : JsString} (hs : wellFormed s = true) (ht : wellFormed t = true)
    (h : encode s = encode t) : s = t := by
  rw [← decode_encode s hs, h, decode_encode t ht]

/-- Where the three write the same bytes for a name, it is plain. -/
theorem plain_of_printed {s : JsString} (hs : wellFormed s = true) {n : ℕ}
    (hpython : encode (around (s.flatMap Python.asciiEscape) n) = encode (around (quoteBody s) n))
    (hgo : encode (around (s.flatMap Go.htmlEscape) n) = encode (around (quoteBody s) n)) :
    Plain s := by
  have hts := wellFormed_around (wellFormed_quoteBody s) n
  have hascii : ∀ u ∈ s.flatMap Python.asciiEscape, u.val < 127 := by
    intro u hu
    obtain ⟨v, -, hv⟩ := List.mem_flatMap.mp hu
    exact asciiEscape_lt v u hv
  have hpythonText : s.flatMap Python.asciiEscape = quoteBody s := by
    refine around_injective (encode_injOn (wellFormed_around (wellFormed_plains ?_) n) hts hpython)
    intro u hu
    have hlt := hascii u hu
    omega
  have hlt : ∀ u ∈ s, u.val < 127 := by
    intro u hu
    by_cases hraw : 32 ≤ u.val ∧ u ≠ 34 ∧ u ≠ 92
    · exact hascii u (hpythonText ▸ mem_quoteBody hs hu hraw)
    · by_contra hge
      refine hraw ⟨by omega, ?_, ?_⟩ <;>
      · rintro rfl
        exact hge (by decide)
  have hgoText : s.flatMap Go.htmlEscape = quoteBody s := by
    refine around_injective (encode_injOn (wellFormed_around (wellFormed_plains ?_) n) hts hgo)
    intro u hu
    obtain ⟨v, hv, hu⟩ := List.mem_flatMap.mp hu
    have hv := hlt v hv
    rcases (htmlEscape_mem hu).1 with hu | rfl <;> omega
  intro u hu
  refine ⟨hlt u hu, ?_⟩
  by_cases hraw : 32 ≤ u.val ∧ u ≠ 34 ∧ u ≠ 92
  · obtain ⟨v, -, hu⟩ := List.mem_flatMap.mp (hgoText ▸ mem_quoteBody hs hu hraw)
    exact (htmlEscape_mem hu).2
  · refine ⟨?_, ?_, ?_⟩ <;>
    · rintro rfl
      exact hraw (by decide)

/-! ## One message -/

/-- What a process does with the name that it finds. -/
def Greets (print : JsString → JsString) (name : Option JsString) (count : ℕ) (last : JsString)
    (res : HandlerResult) (count' : ℕ) (last' : JsString) : Prop :=
  match name with
  | none => res.status = 0 ∧ count' = count ∧ last' = last
  | some name => res.status = 1 ∧
    res.data = some (bytesToHex (encode (around (print (greetingOf name)) (count + 1)))) ∧
    count' = count + 1 ∧ last' = greetingOf name

variable {L}

theorem go_greets (m : Message) (s : Go.State) :
    Greets (·.flatMap Go.htmlEscape) (goName m) s.greetingCount s.lastGreeting
      (Go.processSayHello L.decodeError m.bytes s).1
      (Go.processSayHello L.decodeError m.bytes s).2.greetingCount
      (Go.processSayHello L.decodeError m.bytes s).2.lastGreeting := by
  unfold Go.processSayHello goName
  match Go.decodeHello m.bytes with
  | none => exact ⟨rfl, rfl, rfl⟩
  | some [] => exact ⟨rfl, rfl, rfl⟩
  | some (u :: name) =>
    exact ⟨rfl, congrArg (fun t => some (bytesToHex (encode t))) (go_numbered _ _), rfl, rfl⟩

theorem ts_greets (m : Message) (s : App.State) :
    Greets quoteBody (tsName L m) s.greetingCount s.lastGreeting
      (App.handleSayHello L.host (.string m.text) s).1
      (App.handleSayHello L.host (.string m.text) s).2.greetingCount
      (App.handleSayHello L.host (.string m.text) s).2.lastGreeting := by
  unfold App.handleSayHello tsName
  cases App.readHello L.host (.string m.text) with
  | error text => exact ⟨rfl, rfl, rfl⟩
  | ok name =>
    exact ⟨rfl, congrArg (fun t => some (bytesToHex (encode t))) (ts_numbered _ _), rfl, rfl⟩

theorem python_greets (m : Message) (s : Python.State) :
    ∃ r, Python.handleSayHello L.interpreter (.string m.text) s = .ok r ∧
      Greets (·.flatMap Python.asciiEscape) (pythonName L m) s.greetingCount s.lastGreeting
        r.1 r.2.greetingCount r.2.lastGreeting := by
  obtain ⟨r, hr⟩ := Contract.handleSayHello_ok L.interpreter m.text s
  refine ⟨r, hr, ?_⟩
  unfold Python.handleSayHello at hr
  unfold pythonName
  cases hread : Python.readHello L.interpreter (.string m.text) with
  | error e =>
    rw [hread] at hr
    cases hr
  | ok found =>
    rw [hread] at hr
    cases found with
    | error text =>
      obtain rfl := Except.ok.inj hr
      exact ⟨rfl, rfl, rfl⟩
    | ok name =>
      obtain rfl := Except.ok.inj hr
      exact ⟨rfl, congrArg (fun t => some (bytesToHex (encode t))) (python_numbered _ _), rfl, rfl⟩

namespace Greets

variable {print print' : JsString → JsString} {name name' : Option JsString}
  {count count' count₁ count₁' : ℕ} {last last' last₁ last₁' : JsString} {res res' : HandlerResult}

/-- Two processes that were level and find the same name answer alike. -/
theorem agree (h : Greets print name count last res count₁ last₁)
    (h' : Greets print' name count last res' count₁' last₁')
    (hprint : ∀ n, name = some n → print' (greetingOf n) = print (greetingOf n)) :
    res'.status = res.status ∧ (res.status = 1 → res'.data = res.data) ∧
      count₁' = count₁ ∧ last₁' = last₁ := by
  cases name with
  | none =>
    obtain ⟨hstatus, hcount, hlast⟩ := h
    obtain ⟨hstatus', hcount', hlast'⟩ := h'
    refine ⟨hstatus'.trans hstatus.symm, fun hone => ?_, hcount'.trans hcount.symm,
      hlast'.trans hlast.symm⟩
    rw [hstatus] at hone
    cases hone
  | some name =>
    obtain ⟨hstatus, hdata, hcount, hlast⟩ := h
    obtain ⟨hstatus', hdata', hcount', hlast'⟩ := h'
    refine ⟨hstatus'.trans hstatus.symm, fun _ => ?_, hcount'.trans hcount.symm,
      hlast'.trans hlast.symm⟩
    rw [hdata', hdata, hprint name rfl]

/-- The status shows whether there is a name, and the last greeting shows which. -/
theorem name_eq (h : Greets print name count last res count₁ last₁)
    (h' : Greets print' name' count' last' res' count₁' last₁')
    (hstatus : res'.status = res.status) (hlast : last₁' = last₁) : name' = name := by
  cases name with
  | none =>
    cases name' with
    | none => rfl
    | some name' =>
      rw [h.1, h'.1] at hstatus
      cases hstatus
  | some name =>
    cases name' with
    | none =>
      rw [h.1, h'.1] at hstatus
      cases hstatus
    | some name' =>
      obtain ⟨-, -, -, hgreeting⟩ := h
      obtain ⟨-, -, -, hgreeting'⟩ := h'
      rw [hgreeting, hgreeting'] at hlast
      exact congrArg some (greetingOf_injective hlast)

theorem printed {name : JsString} (h : Greets print (some name) count last res count₁ last₁)
    (h' : Greets print' (some name) count last' res' count₁' last₁')
    (hdata : res.status = 1 → res'.data = res.data) :
    encode (around (print' (greetingOf name)) (count + 1)) =
      encode (around (print (greetingOf name)) (count + 1)) := by
  obtain ⟨hone, hres, -, -⟩ := h
  obtain ⟨-, hres', -, -⟩ := h'
  have hsame := hdata hone
  rw [hres, hres'] at hsame
  exact bytesToHex_injective (Option.some.inj hsame)

end Greets

/-! ## Go's names -/

theorem wellFormed_append {s : JsString} (hs : wellFormed s = true) (t : JsString) :
    wellFormed (s ++ t) = wellFormed t := by
  induction s using quoteBody.induct with
  | case1 => rfl
  | case2 u =>
    simp only [wellFormed, Bool.and_eq_true, Bool.not_eq_true'] at hs
    exact wellFormed_plain hs t
  | case3 a b s hab ih =>
    rw [wellFormed, if_pos hab] at hs
    rw [List.cons_append, List.cons_append, wellFormed, if_pos hab, ih hs]
  | case4 a b s hab ih =>
    rw [wellFormed, if_neg hab] at hs
    simp only [Bool.and_eq_true, Bool.not_eq_true'] at hs
    rw [List.cons_append, wellFormed_plain hs.1, ih hs.2]

theorem wellFormed_replaceLone (s : JsString) : wellFormed (Go.replaceLone s) = true := by
  have hunit : ∀ u : CodeUnit,
      isHigh (if isHigh u || isLow u then replacement else u) = false ∧
      isLow (if isHigh u || isLow u then replacement else u) = false := by
    intro u
    split_ifs with hu
    · decide
    · rw [Bool.not_eq_true, Bool.or_eq_false_iff] at hu
      exact hu
  induction s using Go.replaceLone.induct with
  | case1 => rfl
  | case2 u =>
    rw [Go.replaceLone, wellFormed_plain (hunit u)]
    rfl
  | case3 a b s hab ih => rw [Go.replaceLone, if_pos hab, wellFormed, if_pos hab, ih]
  | case4 a b s hab ih =>
    rw [Go.replaceLone, if_neg hab, wellFormed_plain (hunit a), ih]

theorem wellFormed_setName {name r : JsString} {ms : List (JsString × Value)}
    (hname : wellFormed name = true) (h : Go.setName name ms = some r) : wellFormed r = true := by
  induction ms generalizing name with
  | nil =>
    obtain rfl := Option.some.inj h
    exact hname
  | cons m ms ih =>
    obtain ⟨key, v⟩ := m
    rw [Go.setName.eq_def] at h
    simp only at h
    split_ifs at h
    split at h
    next s => exact ih (wellFormed_replaceLone s) h
    next => exact ih hname h
    next => cases h

theorem wellFormed_goName {m : Message} {name : JsString} (h : goName m = some name) :
    wellFormed name = true := by
  obtain ⟨h, -⟩ := Option.filter_eq_some_iff.mp h
  unfold Go.decodeHello at h
  simp only at h
  split at h
  next =>
    obtain rfl := Option.some.inj h
    rfl
  next =>
    obtain ⟨ms, -, hset⟩ := Option.bind_eq_some_iff.mp h
    exact wellFormed_setName rfl hset
  next => cases h

/-! ## Staying alike -/

theorem wellFormed_greetingOf {name : JsString} (h : wellFormed name = true) :
    wellFormed (greetingOf name) = true := by
  have hleft : ∀ u ∈ js "Hello, ", u.val < 0x80 :=
    fun u hu => lt_trans ((by decide : Plain (js "Hello, ")) u hu).1 (by decide)
  rw [greetingOf, List.append_assoc, wellFormed_plains hleft, wellFormed_append h]
  decide +kernel

theorem step_python {p : Processes} {m : Message} {r : HandlerResult × Python.State}
    (h : Python.handleSayHello L.interpreter (.string m.text) p.python = .ok r) :
    (step L p m).python = r.2 := by
  simp only [step, h]

/-- Processes that were level stay so over a message that is read alike. -/
theorem same_of_alike {p : Processes} (hp : Level p) {m : Message} (h : Alike L m) :
    Same L p m := by
  obtain ⟨r, hr, hpython⟩ := python_greets (L := L) m p.python
  have hgo := go_greets (L := L) m p.go
  have hts := ts_greets (L := L) m p.ts
  obtain ⟨hpythonName, htsName, hplain⟩ : pythonName L m = goName m ∧ tsName L m = goName m ∧
      ∀ name, goName m = some name → Plain name := by
    rcases alike_iff.mp h with ⟨hgoName, hpythonName, htsName⟩ | ⟨name, hgoName, hpythonName,
      htsName, hplain⟩
    · refine ⟨hpythonName.trans hgoName.symm, htsName.trans hgoName.symm, fun name hname => ?_⟩
      cases hgoName.symm.trans hname
    · refine ⟨hpythonName.trans hgoName.symm, htsName.trans hgoName.symm, fun name' hname => ?_⟩
      obtain rfl := Option.some.inj (hgoName.symm.trans hname)
      exact hplain
  rw [hpythonName, hp.pythonCount, hp.pythonGreeting] at hpython
  rw [htsName, hp.tsCount, hp.tsGreeting] at hts
  have hprint := fun name hname => flatMap_plain (plain_greetingOf.mpr (hplain name hname))
  obtain ⟨hpythonStatus, hpythonData, hpythonCount, hpythonLast⟩ := hgo.agree hpython
    fun name hname => (hprint name hname).1.trans (hprint name hname).2.symm
  obtain ⟨htsStatus, htsData, htsCount, htsLast⟩ := hgo.agree hts
    fun name hname => (hprint name hname).2.symm
  rw [← step_python hr] at hpythonCount hpythonLast
  exact ⟨⟨r, hr, hpythonStatus, htsStatus, hpythonData, htsData⟩, hpythonCount, htsCount,
    hpythonLast, htsLast⟩

/-- A message that leaves no difference was read alike. -/
theorem alike_of_same {p : Processes} (hp : Level p) {m : Message} (h : Same L p m) :
    Alike L m := by
  obtain ⟨⟨r, hr, hresult⟩, hlevel⟩ := h
  obtain ⟨r', hr', hpython⟩ := python_greets (L := L) m p.python
  obtain rfl := Except.ok.inj (hr.symm.trans hr')
  have hgo := go_greets (L := L) m p.go
  have hts := ts_greets (L := L) m p.ts
  have hlast := hlevel.pythonGreeting
  rw [step_python hr] at hlast
  have hpythonName := hgo.name_eq hpython hresult.pythonStatus hlast
  have htsName := hgo.name_eq hts hresult.tsStatus hlevel.tsGreeting
  cases hgoName : goName m with
  | none => exact alike_iff.mpr (.inl ⟨hgoName, hpythonName.trans hgoName, htsName.trans hgoName⟩)
  | some name =>
    rw [hgoName] at hpythonName htsName hgo
    refine alike_iff.mpr (.inr ⟨name, hgoName, hpythonName, htsName, plain_greetingOf.mp ?_⟩)
    rw [hpythonName, hp.pythonCount] at hpython
    rw [htsName, hp.tsCount] at hts
    have hpythonBytes := hgo.printed hpython hresult.pythonData
    have htsBytes := hgo.printed hts hresult.tsData
    exact plain_of_printed (wellFormed_greetingOf (wellFormed_goName hgoName))
      (hpythonBytes.trans htsBytes.symm) htsBytes.symm

theorem level_run {ms : List Message} (h : ∀ m ∈ ms, Alike L m) : Level (run L ms) := by
  induction ms using List.reverseRecOn with
  | nil => exact ⟨rfl, rfl, rfl, rfl⟩
  | append_singleton ms m ih =>
    have hlevel := ih fun m' hm' => h m' (List.mem_append_left _ hm')
    rw [run, List.foldl_append]
    exact (same_of_alike hlevel (h m (by simp))).level

theorem interchangeable (ms : List Message) :
    (∀ pre m post, ms = pre ++ m :: post → Same L (run L pre) m) ↔ ∀ m ∈ ms, Alike L m := by
  constructor
  · intro h
    have hall : ∀ pre post, ms = pre ++ post → ∀ m ∈ pre, Alike L m := by
      intro pre
      induction pre using List.reverseRecOn with
      | nil => exact fun _ _ m hm => nomatch hm
      | append_singleton pre m ih =>
        intro post hsplit m' hm'
        rw [List.append_assoc] at hsplit
        have hpre := ih _ hsplit
        rcases List.mem_append.mp hm' with hm' | hm'
        · exact hpre m' hm'
        · obtain rfl := List.mem_singleton.mp hm'
          exact alike_of_same (level_run hpre) (h pre m' post hsplit)
    exact hall ms [] (List.append_nil ms).symm
  · rintro h pre m post rfl
    exact same_of_alike (level_run fun m' hm' => h m' (List.mem_append_left _ hm')) (h m (by simp))

end StealthWage.Greetings
