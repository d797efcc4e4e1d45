import StealthWage.HexCodec

/-! # Dispatch by name

Operations are registered under names and asked for in `bytes32` hex. On the names that can be
registered the padding is injective, so the lists of both frameworks are searched as if the names
themselves had been sent. -/
namespace StealthWage.Dispatch
open Base Js Json Utf8 Words

/-! ## Names -/

/-- What can be registered and read back: Unicode of at most 32 bytes, the last of them not 0. -/
@[ext]
structure Name where
  text : JsString
  unicode : wellFormed text = true
  short : (encode text).length ≤ 32
  trimmed : (encode text).getLast? ≠ some 0

instance : DecidableEq Name := fun n m => decidable_of_iff (n.text = m.text) Name.ext_iff.symm

def Name.empty : Name := ⟨[], rfl, by decide, by decide⟩

def Name.bytes32 (n : Name) : JsString := bytesToHex (padded n.text)

/-- `bytes32` hex in any letter case, with its prefix or without. -/
def Spells (n : Name) (w : JsString) : Prop :=
  w.map lowerUnit = n.bytes32 ∨ w.map lowerUnit = hexOf (padded n.text)

/-- How a command is sent: spelled out, or if it is empty not at all. -/
def Sends (n : Name) (v : Option Value) : Prop :=
  (∃ w, Spells n w ∧ v = some (.string w)) ∨ n = Name.empty ∧ (v = none ∨ v = some (.string []))

/-- Both handlers that are registered under one pair of names. -/
structure Registration (σ τ : Type) where
  opType : Name
  opCommand : Name
  handler : Handler σ
  pythonHandler : Python.Handler τ

section registrations

variable {σ τ : Type}

def register (regs : List (Registration σ τ)) : Option (Framework σ) :=
  regs.foldlM (fun f r => f.handle r.opType.text r.opCommand.text r.handler) []

def pythonRegister (regs : List (Registration σ τ)) : Option (Python.Framework τ) :=
  regs.foldlM (fun f r => f.handle r.opType.text r.opCommand.text r.pythonHandler) []

/-- The first registration of exactly this pair, or else the first of the type alone. -/
def choose (regs : List (Registration σ τ)) (t c : Name) : Option (Registration σ τ) :=
  (regs.find? fun r => r.opType = t ∧ r.opCommand = c).or
    (regs.find? fun r => r.opType = t ∧ r.opCommand = Name.empty)

end registrations

/-! ## Padding -/

/-- Without the zeros at its end a padded name is the name. -/
theorem rdropWhile_padded (n : Name) :
    (padded n.text).rdropWhile (· = 0) = encode n.text := by
  have hzeros : ∀ k (b : Bytes), (b ++ List.replicate k 0).rdropWhile (· = 0) =
      b.rdropWhile (· = 0) := by
    intro k b
    induction k with
    | zero => rw [List.replicate_zero, List.append_nil]
    | succ k ih =>
      rw [List.replicate_succ', ← List.append_assoc, List.rdropWhile_concat_pos _ _ _ (by simp), ih]
  rw [padded, hzeros]
  rcases List.eq_nil_or_concat (encode n.text) with hnil | ⟨b, x, hx⟩
  · rw [hnil]
    rfl
  · rw [List.concat_eq_append] at hx
    have htrimmed := n.trimmed
    rw [hx, List.getLast?_concat] at htrimmed
    rw [hx, List.rdropWhile_concat_neg _ _ _ (by simpa using htrimmed)]

theorem bytes32_injective : Function.Injective Name.bytes32 := by
  intro n m h
  have hbytes := congrArg (List.rdropWhile (· = 0)) (bytesToHex_injective h)
  rw [rdropWhile_padded, rdropWhile_padded] at hbytes
  have htext := congrArg decode hbytes
  rw [decode_encode _ n.unicode, decode_encode _ m.unicode] at htext
  exact Name.ext htext

theorem padded_length (n : Name) : (padded n.text).length = 32 := by
  have hshort := n.short
  rw [padded, List.length_append, List.length_replicate]
  omega

/-! ## Normal form -/

theorem isAscii_of_map {w : JsString} (h : isAscii (w.map lowerUnit)) : isAscii w := by
  intro u hu
  have hlower := h _ (List.mem_map_of_mem hu)
  unfold lowerUnit at hlower
  split_ifs at hlower with hupper
  · omega
  · exact hlower

theorem isAscii_hexOf (b : Bytes) : isAscii (hexOf b) := by
  have hdigit : ∀ d, (hexDigit d).val < 128 := by decide
  intro u hu
  obtain ⟨x, -, hx⟩ := List.mem_flatMap.mp hu
  rcases List.mem_pair.mp hx with rfl | rfl
  · exact hdigit _
  · exact hdigit _

theorem startsWith0x_hexOf (b : Bytes) : startsWith0x (hexOf b) = false := by
  have hspaced := Python.spaced_of_hexPairs (Option.isSome_iff_exists.mpr ⟨b, hexPairs_hexOf b⟩)
  exact Python.isPrefixOf_spaced hspaced (.inl rfl)

/-- Every spelling has the registered form once it is in lower case and has its prefix. -/
theorem Spells.normal {n : Name} {w : JsString} (h : Spells n w) (C : CaseMap) :
    w ≠ [] ∧ (if startsWith0x (C.toLowerCase w) then C.toLowerCase w
      else js "0x" ++ C.toLowerCase w) = n.bytes32 := by
  have hlength := padded_length n
  have hdigits := hexOf_length (padded n.text)
  constructor
  · rintro rfl
    rcases h with h | h
    · cases h
    · rw [← h] at hdigits
      simp only [List.map_nil, List.length_nil] at hdigits
      omega
  · have hprefix : isAscii (js "0x") := by
      intro u hu
      rcases List.mem_pair.mp (show u ∈ [48, 120] from hu) with rfl | rfl <;> decide
    have hascii : isAscii (w.map lowerUnit) := by
      rcases h with h | h
      · rw [h]
        intro u hu
        rcases List.mem_append.mp hu with hu | hu
        · exact hprefix u hu
        · exact isAscii_hexOf _ u hu
      · rw [h]
        exact isAscii_hexOf _
    rw [C.ascii w (isAscii_of_map hascii)]
    rcases h with h | h
    · rw [h]
      rfl
    · rw [h, startsWith0x_hexOf]
      rfl

theorem normalize_spells {n : Name} {w : JsString} (h : Spells n w) (C : CaseMap) :
    Base.normalize C (some (.string w)) = some n.bytes32 := by
  obtain ⟨hne, hnormal⟩ := h.normal C
  have htruthy : falsy (some (.string w)) = false := by
    rw [falsy, List.isEmpty_eq_false_iff]
    exact hne
  unfold Base.normalize
  rw [htruthy]
  exact congrArg some hnormal

theorem normalize_sends {n : Name} {v : Option Value} (h : Sends n v) (C : CaseMap) :
    Base.normalize C v = some n.bytes32 := by
  rcases h with ⟨w, hw, rfl⟩ | ⟨rfl, rfl | rfl⟩
  · exact normalize_spells hw C
  · rfl
  · rfl

theorem python_normalize_spells {n : Name} {w : JsString} (h : Spells n w) (I : Python.Interpreter) :
    Python.normalize I (.string w) = .ok n.bytes32 := by
  obtain ⟨hne, hnormal⟩ := h.normal I.caseMap
  have htruthy : Python.falsy (.string w) = false := by
    rw [Python.falsy, List.isEmpty_eq_false_iff]
    exact hne
  rw [Python.normalize, htruthy]
  exact congrArg Except.ok hnormal

/-- Python's default for a command that is absent is the empty string. -/
theorem python_normalize_sends {n : Name} {v : Option Value} (h : Sends n v)
    (I : Python.Interpreter) :
    Python.normalize I (v.getD (.string [])) = .ok n.bytes32 := by
  rcases h with ⟨w, hw, rfl⟩ | ⟨rfl, rfl | rfl⟩
  · exact python_normalize_spells hw I
  · rfl
  · rfl

/-! ## Routes -/

section routes

variable {σ τ : Type} (regs : List (Registration σ τ))

def Registration.route (r : Registration σ τ) : Route σ :=
  ⟨r.opType.bytes32, r.opCommand.bytes32, r.handler⟩

def Registration.pythonRoute (r : Registration σ τ) : Python.Route τ :=
  ⟨r.opType.bytes32, r.opCommand.bytes32, r.pythonHandler⟩

/-- A step that appends what it makes of an item. -/
theorem foldlM_append {ι ρ : Type} {step : List ρ → ι → Option (List ρ)} {g : ι → ρ}
    (h : ∀ f r, step f r = some (f ++ [g r])) (xs : List ι) (f : List ρ) :
    xs.foldlM step f = some (f ++ xs.map g) := by
  induction xs generalizing f with
  | nil => simp
  | cons r xs ih =>
    rw [List.foldlM_cons, h, Option.bind_eq_bind, Option.bind_some, ih]
    simp

theorem register_eq : register regs = some (regs.map Registration.route) := by
  refine foldlM_append (fun f r => ?_) regs []
  simp only [Framework.handle, stringToBytes32Hex, not_lt.mpr r.opType.short,
    not_lt.mpr r.opCommand.short, if_false, Option.bind_eq_bind, Option.bind_some]
  rfl

theorem pythonRegister_eq : pythonRegister regs = some (regs.map Registration.pythonRoute) := by
  refine foldlM_append (fun f r => ?_) regs []
  simp only [Python.Framework.handle, Python.stringToBytes32Hex, r.opType.unicode, r.opType.short,
    r.opCommand.unicode, r.opCommand.short, and_self, if_true, Option.bind_eq_bind,
    Option.bind_some]
  rfl

/-- Comparing hex is comparing names. -/
theorem find?_names {ρ : Type} (g : Registration σ τ → ρ) (opType opCommand : ρ → JsString)
    (ht : ∀ r, opType (g r) = r.opType.bytes32) (hc : ∀ r, opCommand (g r) = r.opCommand.bytes32)
    (t c : Name) :
    ((regs.map g).find? fun x => opType x = t.bytes32 ∧ opCommand x = c.bytes32) =
      (regs.find? fun r => r.opType = t ∧ r.opCommand = c).map g := by
  rw [List.find?_map]
  congr 2
  funext r
  simp only [Function.comp_apply, ht, hc, bytes32_injective.eq_iff]

theorem route_eq (t c : Name) :
    Framework.route (regs.map Registration.route) t.bytes32 c.bytes32 =
      (choose regs t c).map Registration.route := by
  have hfind := find?_names regs Registration.route Route.opType Route.opCommand (fun _ => rfl)
    (fun _ => rfl) t
  rw [Framework.route, choose, Option.map_or, hfind c]
  exact congrArg _ (hfind Name.empty)

theorem pythonRoute_eq (t c : Name) :
    Python.Framework.route (regs.map Registration.pythonRoute) t.bytes32 c.bytes32 =
      (choose regs t c).map Registration.pythonRoute := by
  have hfind := find?_names regs Registration.pythonRoute Python.Route.opType Python.Route.opCommand
    (fun _ => rfl) (fun _ => rfl) t
  rw [Python.Framework.route, choose, Option.map_or, hfind c]
  exact congrArg _ (hfind Name.empty)

/-! ## Faithfulness -/

/-- A request for the pair may select the registration. -/
def concerns (t c : Name) (r : Registration σ τ) : Bool :=
  r.opType = t ∧ (r.opCommand = c ∨ r.opCommand = Name.empty)

variable {regs}

theorem choose_concerns {t c : Name} {r : Registration σ τ} (h : choose regs t c = some r) :
    r ∈ regs ∧ r.opType = t ∧ (r.opCommand = c ∨ r.opCommand = Name.empty) := by
  rcases Option.or_eq_some_iff.mp h with hexact | ⟨-, hdefault⟩
  · have hr := List.find?_some hexact
    rw [decide_eq_true_eq] at hr
    exact ⟨List.mem_of_find?_eq_some hexact, hr.1, .inl hr.2⟩
  · have hr := List.find?_some hdefault
    rw [decide_eq_true_eq] at hr
    exact ⟨List.mem_of_find?_eq_some hdefault, hr.1, .inr hr.2⟩

variable (regs)

theorem choose_filter (t c : Name) : choose (regs.filter (concerns t c)) t c = choose regs t c := by
  unfold choose
  rw [List.find?_filter, List.find?_filter]
  congr 2 <;>
  · funext r
    simp only [concerns, decide_eq_true_eq, decide_eq_decide]
    tauto

/-- Both frameworks answer with the first registration of exactly the pair that is sent, or else
with the first default of its type, and no other registration has a say in it. -/
theorem dispatch_faithful (C : CaseMap) (I : Python.Interpreter) (t c : Name) {tw : JsString}
    {cw : Option Value} (ht : Spells t tw) (hc : Sends c cw) :
    (∃ f, register regs = some f ∧
      f.lookup C (some (.string tw)) cw = some ((choose regs t c).map Registration.handler)) ∧
    (∃ f, pythonRegister regs = some f ∧ f.lookup I (.string tw) (cw.getD (.string [])) =
      .ok ((choose regs t c).map Registration.pythonHandler)) ∧
    (∀ r, choose regs t c = some r →
      r ∈ regs ∧ r.opType = t ∧ (r.opCommand = c ∨ r.opCommand = Name.empty)) ∧
    ∀ regs', regs'.filter (concerns t c) = regs.filter (concerns t c) →
      choose regs' t c = choose regs t c := by
  refine ⟨⟨_, register_eq regs, ?_⟩, ⟨_, pythonRegister_eq regs, ?_⟩, fun r => choose_concerns,
    fun regs' hsame => ?_⟩
  · simp only [Framework.lookup, normalize_spells ht C, normalize_sends hc C, Option.bind_eq_bind,
      Option.bind_some, pure, route_eq, Option.map_map]
    rfl
  · simp only [Python.Framework.lookup, python_normalize_spells ht I, python_normalize_sends hc I,
      bind, Except.bind, pure, Except.pure, pythonRoute_eq, Option.map_map]
    rfl
  · rw [← choose_filter regs', hsame, choose_filter regs]

end routes

def streamName : Name := ⟨js "STREAM", by decide, by decide, by decide⟩
def settleName : Name := ⟨js "AUTH_SETTLE", by decide, by decide, by decide⟩
def withdrawName : Name := ⟨js "AUTH_WITHDRAW", by decide, by decide, by decide⟩

/-- A settle handler, a default and a withdraw handler of one type. -/
def mixed : List (Registration Unit Unit) :=
  let handler (status : ℕ) : Enclave.HandlerResult := ⟨none, status, none⟩
  [⟨streamName, settleName, fun _ s => some (handler 2, s), fun _ s => .ok (handler 2, s)⟩,
    ⟨streamName, Name.empty, fun _ s => some (handler 3, s), fun _ s => .ok (handler 3, s)⟩,
    ⟨streamName, withdrawName, fun _ s => some (handler 4, s), fun _ s => .ok (handler 4, s)⟩]

theorem dispatch_faithful_mixed :
    ∃ f, register mixed = some f ∧
      f.lookup Reference.caseMap
        (some (.string ((hexOf (padded (js "STREAM"))).map Reference.upperUnit)))
        (some (.string withdrawName.bytes32)) =
      some ((choose mixed streamName withdrawName).map Registration.handler) :=
  (dispatch_faithful mixed Reference.caseMap Python.bare streamName withdrawName
    (.inr (by decide +kernel)) (.inl ⟨_, .inl (by decide +kernel), rfl⟩)).1

end StealthWage.Dispatch
