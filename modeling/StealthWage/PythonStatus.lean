import StealthWage.HexCodec
import StealthWage.ServerStatus

/-! # The statuses of the Python server

The Python server leaves most of the checks to the exceptions of the dictionaries; a value without
the method that is called on it raises one that nothing catches. -/
namespace StealthWage.Python
open Base (property emptyBytes32 padded startsWith0x)
open Contract Enclave Js Json Utf8 Words

/-! ## Dictionaries -/

theorem eq_object_of_property {v w : Value} {key : JsString} (h : property v key = some w) :
    ∃ members, v = .object members := by
  cases v with
  | object members => exact ⟨members, rfl⟩
  | _ => cases h

theorem subscript_of_some {v w : Value} {key : JsString} (h : property v key = some w) :
    subscript v key = .ok w := by
  obtain ⟨members, rfl⟩ := eq_object_of_property h
  obtain ⟨m, hfind, rfl⟩ := Option.map_eq_some_iff.mp h
  simp only [subscript, hfind]

theorem subscript_of_none {v : Value} {key : JsString} (h : property v key = none) :
    ∃ e, subscript v key = .error e ∧ (e.kind = .keyError ∨ e.kind = .typeError) := by
  cases v with
  | object members =>
    have hfind := Option.map_eq_none_iff.mp h
    simp only [subscript, hfind]
    exact ⟨_, rfl, .inl rfl⟩
  | _ => exact ⟨_, rfl, .inr rfl⟩

theorem get_eq (members : List (JsString × Value)) (key : JsString) (default : Value) :
    get members key default = (property (.object members) key).getD default := rfl

/-! ## Reading a body -/

/-- The dictionaries of a body hold what is subscripted. -/
structure Framed (body : Bytes) (action data message : Value) : Prop where
  parsed : loads body = some action
  hasData : property action (js "data") = some data
  hasId : (property data (js "id")).isSome
  hasMessage : property data (js "message") = some message

/-- The message is one that `hex_to_bytes` is written for. -/
def IsOptionalText (v : Value) : Prop := v = .null ∨ ∃ s, v = .string s

theorem parseAction_ok {action data id message : Value}
    (hdata : property action (js "data") = some data) (hid : property data (js "id") = some id)
    (hmessage : property data (js "message") = some message) :
    ∃ a, parseAction action = .ok a ∧ a.data.id = id ∧ a.data.message = message ∧
      a.data.submissionTag = (property data (js "submissionTag")).getD (.string []) := by
  obtain ⟨members, rfl⟩ := eq_object_of_property hdata
  obtain ⟨fields, rfl⟩ := eq_object_of_property hid
  simp only [parseAction, subscript_of_some hdata, subscript_of_some hid,
    subscript_of_some hmessage, getOf, get_eq, bind, Except.bind, pure, Except.pure]
  exact ⟨_, rfl, rfl, rfl, rfl⟩

theorem parseAction_error {action : Value} (h : ∀ data, property action (js "data") = some data →
      property data (js "id") = none ∨ property data (js "message") = none) :
    ∃ e, parseAction action = .error e ∧ (e.kind = .keyError ∨ e.kind = .typeError) := by
  cases hdata : property action (js "data") with
  | none =>
    obtain ⟨e, he, hkind⟩ := subscript_of_none hdata
    exact ⟨e, by simp only [parseAction, he, bind, Except.bind], hkind⟩
  | some data =>
    cases hid : property data (js "id") with
    | none =>
      obtain ⟨e, he, hkind⟩ := subscript_of_none hid
      exact ⟨e, by simp only [parseAction, subscript_of_some hdata, he, bind, Except.bind], hkind⟩
    | some id =>
      have hmessage : property data (js "message") = none := by
        rcases h data hdata with hnone | hnone
        · rw [hid] at hnone
          cases hnone
        · exact hnone
      obtain ⟨e, he, hkind⟩ := subscript_of_none hmessage
      obtain ⟨fields, rfl⟩ := eq_object_of_property hid
      refine ⟨e, ?_, hkind⟩
      simp only [parseAction, subscript_of_some hdata, subscript_of_some hid, getOf, he, bind,
        Except.bind]

theorem parseDataFixed_ok {df opType : Value} (h : property df (js "opType") = some opType) :
    ∃ d, parseDataFixed df = .ok d ∧ d.opType = opType ∧
      d.opCommand = (property df (js "opCommand")).getD (.string []) ∧
      d.originalMessage = orElse ((property df (js "originalMessage")).getD .null)
        (.string (js "0x")) := by
  obtain ⟨members, rfl⟩ := eq_object_of_property h
  simp only [parseDataFixed, subscript_of_some h, getOf, get_eq, bind, Except.bind, pure,
    Except.pure]
  exact ⟨_, rfl, rfl, rfl, rfl⟩

theorem parseDataFixed_error {members : List (JsString × Value)}
    (h : property (.object members) (js "opType") = none) :
    ∃ e, parseDataFixed (.object members) = .error e ∧ (e.kind = .keyError ∨ e.kind = .typeError) := by
  obtain ⟨e, he, hkind⟩ := subscript_of_none h
  exact ⟨e, by simp only [parseDataFixed, he, getOf, bind, Except.bind], hkind⟩

theorem parseDataFixed_raises {df : Value} (h : ∀ members, df ≠ .object members) :
    ∃ e, parseDataFixed df = .error e ∧ e.kind = .attributeError := by
  cases df with
  | object members => exact absurd rfl (h members)
  | _ => exact ⟨_, rfl, rfl⟩

theorem hexToBytes_optionalText (I : Interpreter) {v : Value} (h : IsOptionalText v) :
    (∃ b, hexToBytes I v = .ok b) ∨ ∃ e, hexToBytes I v = .error e ∧ e.kind = .valueError := by
  rcases h with rfl | ⟨s, rfl⟩
  · exact .inl ⟨[], rfl⟩
  · simp only [hexToBytes]
    split_ifs with hempty
    · exact .inl ⟨[], rfl⟩
    · cases fromhex (strip (js "0X") (strip (js "0x") s)) with
      | some b => exact .inl ⟨b, rfl⟩
      | none => exact .inr ⟨_, rfl, rfl⟩

theorem hexToBytes_raises (I : Interpreter) {v : Value} (h : ¬ IsOptionalText v) :
    ∃ e, hexToBytes I v = .error e ∧ e.kind = .attributeError := by
  cases v with
  | null => exact absurd (.inl rfl) h
  | string s => exact absurd (.inr ⟨s, rfl⟩) h
  | _ => exact ⟨_, rfl, rfl⟩

/-- Both servers read hex alike. -/
theorem hexToBytes_hex (I : Interpreter) {s : JsString} {b : Bytes} (h : Js.hexToBytes s = .ok b) :
    hexToBytes I (.string s) = .ok b := by
  have hoption : (Js.hexToBytes s).toOption = some b := by
    rw [h]
    rfl
  obtain ⟨digits, hhex⟩ := hexToBytes_isSome.mp (Option.isSome_of_eq_some hoption)
  rw [hexToBytes_toOption, hhex.dropHexPrefix, ← fromhex_of_isHex hhex,
    ← hexToBytes_string I] at hoption
  exact toOption_eq_some.mp hoption

section reading

variable {I : Interpreter} {body : Bytes} {action data message : Value}

/-- A message that is hex, of JSON. -/
structure Decoded (I : Interpreter) (body : Bytes) (action data message : Value) (bytes : Bytes)
    (df : Value) : Prop extends Framed body action data message where
  hex : hexToBytes I message = .ok bytes
  loaded : loads bytes = some df

theorem readRequestBody_unframed
    (h : ∀ action data message, ¬ Framed body action data message) :
    ∃ r, readRequestBody I body = .error (.ok r) ∧ r.status = 400 := by
  cases hload : loads body with
  | none =>
    simp only [readRequestBody, loadsOf, hload, catching, bind, Except.bind, List.mem_singleton,
      if_true]
    exact ⟨_, rfl, rfl⟩
  | some action =>
    have hmissing : ∀ data, property action (js "data") = some data →
        property data (js "id") = none ∨ property data (js "message") = none := by
      intro data hdata
      by_contra hboth
      obtain ⟨hid, hmessage⟩ := not_or.mp hboth
      obtain ⟨message, hmessage⟩ := Option.ne_none_iff_exists'.mp hmessage
      exact h action data message ⟨hload, hdata, Option.isSome_iff_ne_none.mpr hid, hmessage⟩
    obtain ⟨e, he, hkind⟩ := parseAction_error hmissing
    simp only [readRequestBody, loadsOf, hload, catching, he, bind, Except.bind, List.mem_cons,
      hkind, List.not_mem_nil, or_false, if_true]
    exact ⟨_, rfl, rfl⟩

/-- What is left to do once the dictionaries have what they should. -/
theorem readRequestBody_framed (h : Framed body action data message) :
    ∃ a : Action, property data (js "id") = some a.data.id ∧
      readRequestBody I body = (do
        let bytes ← catching [.valueError] (js "invalid hex in message: ") (hexToBytes I message)
        let df ← catching [.valueError, .keyError, .typeError]
          (js "invalid DataFixed JSON in message: ") (loadsOf I bytes >>= parseDataFixed)
        return (a, df)) := by
  obtain ⟨id, hid⟩ := Option.isSome_iff_exists.mp h.hasId
  obtain ⟨a, ha, rfl, rfl, -⟩ := parseAction_ok h.hasData hid h.hasMessage
  refine ⟨a, hid, ?_⟩
  simp only [readRequestBody, loadsOf, h.parsed, ha, catching, bind, Except.bind]

theorem framed_unique {action' data' message' : Value} (h : Framed body action data message)
    (h' : Framed body action' data' message') :
    action = action' ∧ data = data' ∧ message = message' := by
  obtain rfl := Option.some.inj (h.parsed.symm.trans h'.parsed)
  obtain rfl := Option.some.inj (h.hasData.symm.trans h'.hasData)
  exact ⟨rfl, rfl, Option.some.inj (h.hasMessage.symm.trans h'.hasMessage)⟩

theorem Decoded.unique {action' data' message' df df' : Value} {bytes bytes' : Bytes}
    (h : Decoded I body action data message bytes df)
    (h' : Decoded I body action' data' message' bytes' df') :
    data = data' ∧ message = message' ∧ df = df' := by
  obtain ⟨-, rfl, rfl⟩ := framed_unique h.toFramed h'.toFramed
  obtain rfl := Except.ok.inj (h.hex.symm.trans h'.hex)
  exact ⟨rfl, rfl, Option.some.inj (h.loaded.symm.trans h'.loaded)⟩

theorem readRequestBody_decoded {bytes : Bytes} {df opType : Value}
    (h : Decoded I body action data message bytes df)
    (hop : property df (js "opType") = some opType) :
    ∃ (a : Action) (d : DataFixed), readRequestBody I body = .ok (a, d) ∧
      property data (js "id") = some a.data.id ∧ d.opType = opType ∧
      d.opCommand = (property df (js "opCommand")).getD (.string []) ∧
      d.originalMessage = orElse ((property df (js "originalMessage")).getD .null)
        (.string (js "0x")) := by
  obtain ⟨a, hid, hread⟩ := readRequestBody_framed (I := I) h.toFramed
  obtain ⟨d, hd, ht, hc, hm⟩ := parseDataFixed_ok hop
  refine ⟨a, d, ?_, hid, ht, hc, hm⟩
  rw [hread]
  simp only [loadsOf, h.hex, h.loaded, hd, catching, bind, Except.bind, pure, Except.pure]

/-! ## Valid actions -/

theorem decoded_of_valid {df : Value} {s t : JsString} {bytes : Bytes}
    (h : Valid loads (loads body) action data df s bytes t)
    (hid : (property data (js "id")).isSome) :
    Decoded I body action data (.string s) bytes df where
  parsed := h.parsed
  hasData := h.hasData
  hasId := hid
  hasMessage := h.hasMessage
  hex := hexToBytes_hex I h.hex
  loaded := h.decoded

theorem identifiers_eq_none {body : Option Value}
    (h : ∀ action data df s bytes t, ¬ Valid loads body action data df s bytes t) :
    identifiers loads body = none := by
  rw [Option.eq_none_iff_forall_ne_some]
  rintro ⟨t, c⟩ hsome
  obtain ⟨action, data, df, s, bytes, hvalid, -⟩ := identifiers_eq_some.mp hsome
  exact h action data df s bytes t hvalid

/-- The conditions under which the exceptions come to what the table says: those that nothing
catches are not raised, and what is taken for an action is one. -/
structure Answerable (I : Interpreter) (body : Bytes) : Prop where
  text : ∀ action data message, Framed body action data message → IsOptionalText message
  object : ∀ action data message bytes df, Decoded I body action data message bytes df →
    ∃ members, df = .object members
  hex : ∀ action data message bytes df, Decoded I body action data message bytes df →
    (property df (js "opType")).isSome → ∃ s, message = .string s ∧ Js.hexToBytes s = .ok bytes
  named : ∀ action data message bytes df, Decoded I body action data message bytes df →
    (property df (js "opType")).isSome → ∃ t, property df (js "opType") = some (.string t) ∧ t ≠ []
  typed : ∀ action data message bytes df, Decoded I body action data message bytes df →
    (property df (js "opType")).isSome → wellTyped action data df = true
  identified : ∀ action data df s bytes t, Valid loads (loads body) action data df s bytes t →
    (property data (js "id")).isSome

theorem Answerable.valid (h : Answerable I body) {bytes : Bytes} {df : Value}
    (hd : Decoded I body action data message bytes df)
    (hop : (property df (js "opType")).isSome) :
    ∃ s t, Valid loads (loads body) action data df s bytes t := by
  obtain ⟨s, rfl, hhex⟩ := h.hex _ _ _ _ _ hd hop
  obtain ⟨t, ht, hne⟩ := h.named _ _ _ _ _ hd hop
  exact ⟨s, t, hd.parsed, hd.hasData, hd.hasMessage, hhex, hd.loaded, ht, hne,
    h.typed _ _ _ _ _ hd hop⟩

theorem answerable_of_valid {df : Value} {s t : JsString} {bytes : Bytes}
    (h : Valid loads (loads body) action data df s bytes t)
    (hid : (property data (js "id")).isSome) : Answerable I body where
  text := fun _ _ _ hf => by
    obtain ⟨-, -, rfl⟩ := framed_unique (decoded_of_valid (I := I) h hid).toFramed hf
    exact .inr ⟨s, rfl⟩
  object := fun _ _ _ _ _ hd => by
    obtain ⟨-, -, rfl⟩ := (decoded_of_valid (I := I) h hid).unique hd
    exact eq_object_of_property h.hasOpType
  hex := fun _ _ _ _ _ hd _ => by
    have hdecoded := decoded_of_valid (I := I) h hid
    obtain ⟨-, rfl, -⟩ := hdecoded.unique hd
    obtain rfl := Except.ok.inj (hdecoded.hex.symm.trans hd.hex)
    exact ⟨s, rfl, h.hex⟩
  named := fun _ _ _ _ _ hd _ => by
    obtain ⟨-, -, rfl⟩ := (decoded_of_valid (I := I) h hid).unique hd
    exact ⟨t, h.hasOpType, h.named⟩
  typed := fun _ _ _ _ _ hd _ => by
    have hdecoded := decoded_of_valid (I := I) h hid
    obtain ⟨rfl, rfl, -⟩ := framed_unique hdecoded.toFramed hd.toFramed
    obtain ⟨-, -, rfl⟩ := hdecoded.unique hd
    exact h.typed
  identified := fun _ _ _ _ _ _ hv => by
    obtain rfl := Option.some.inj (h.parsed.symm.trans hv.parsed)
    obtain rfl := Option.some.inj (h.hasData.symm.trans hv.hasData)
    exact hid

end reading

/-! ## Statuses -/

section statuses

variable {σ : Type} {I : Interpreter} {srv : Server σ} {body : Bytes} {action data message : Value}

def registered (f : Framework σ) : List (JsString × JsString) :=
  f.map fun r => (r.opType, r.opCommand)

/-- No handler raises when it is given text. -/
def TotalOnText (f : Framework σ) : Prop :=
  ∀ r ∈ f, ∀ text s, ∃ p, r.handler (.string text) s = .ok p

theorem normalize_string (t : JsString) :
    normalize I (.string t) = .ok (canonical I.caseMap t) := by
  unfold Python.normalize canonical
  cases t with
  | nil => rfl
  | cons u t => rfl

theorem lookup_string (f : Framework σ) (t c : JsString) :
    f.lookup I (.string t) (.string c) =
      .ok ((f.route (canonical I.caseMap t) (canonical I.caseMap c)).map Route.handler) := by
  simp only [Framework.lookup, normalize_string, bind, Except.bind, pure, Except.pure]

theorem mem_of_route {f : Framework σ} {t c : JsString} {r : Route σ} (h : f.route t c = some r) :
    r ∈ f := by
  rcases Option.or_eq_some_iff.mp h with hexact | ⟨-, hdefault⟩
  · exact List.mem_of_find?_eq_some hexact
  · exact List.mem_of_find?_eq_some hdefault

/-- The line that is logged never fails on text. -/
theorem bytes32HexToString_string (s : JsString) : ∃ t, bytes32HexToString I (.string s) = .ok t := by
  unfold bytes32HexToString
  rcases hexToBytes_optionalText I (.inr ⟨s, rfl⟩) with ⟨b, hb⟩ | ⟨e, he, hkind⟩
  · rw [hb]
    exact ⟨_, rfl⟩
  · rw [he]
    exact ⟨_, if_pos hkind⟩

theorem originalMessage_text {df : Value} (h : dataFixedFields.fits df = true) :
    ∃ text, orElse ((property df (js "originalMessage")).getD .null) (.string (js "0x")) =
      .string text := by
  rcases Schema.fits_text_or h (js "originalMessage") (by simp [dataFixedFields]) with
    hnone | ⟨text, htext⟩
  · rw [hnone]
    exact ⟨js "0x", rfl⟩
  · rw [htext]
    cases text with
    | nil => exact ⟨js "0x", rfl⟩
    | cons u text => exact ⟨u :: text, rfl⟩

theorem opCommand_text {df : Value} (h : dataFixedFields.fits df = true) :
    (property df (js "opCommand")).getD (.string []) =
      .string ((textOf (property df (js "opCommand"))).getD []) := by
  rcases Schema.fits_text_or h (js "opCommand") (by simp [dataFixedFields]) with hnone | ⟨c, hc⟩
  · rw [hnone]
    rfl
  · rw [hc]
    rfl

/-- What a valid action with an id comes to. -/
theorem processAction_valid (htotal : TotalOnText srv.framework) {df : Value} {s t : JsString}
    {bytes : Bytes} (h : Valid loads (loads body) action data df s bytes t)
    (hid : (property data (js "id")).isSome) (st : σ) :
    (processAction I srv body st).1.map Reply.status =
      .ok (actionStatus I.caseMap (registered srv.framework) (identifiers loads (loads body))) := by
  obtain ⟨a, d, hread, -, ht, hc, hmessage⟩ :=
    readRequestBody_decoded (decoded_of_valid (I := I) h hid) h.hasOpType
  obtain ⟨-, -, hdf⟩ := wellTyped_iff.mp h.typed
  obtain ⟨text, htext⟩ := originalMessage_text hdf
  rw [opCommand_text hdf] at hc
  rw [htext] at hmessage
  rw [identifiers_eq_some.mpr ⟨action, data, df, s, bytes, h, rfl⟩]
  have hhandles := handles_iff I.caseMap srv.framework Route.opType Route.opCommand t
    ((textOf (property df (js "opCommand"))).getD [])
  unfold processAction
  rw [hread]
  simp only [ht, hc, hmessage, lookup_string, actionStatus, registered, hhandles]
  change _ = Except.ok (if (Framework.route srv.framework _ _).isSome then 200 else 501)
  cases hroute : srv.framework.route (canonical I.caseMap t)
      (canonical I.caseMap ((textOf (property df (js "opCommand"))).getD [])) with
  | none => rfl
  | some r =>
    obtain ⟨⟨res, st'⟩, hrun⟩ := htotal r (mem_of_route hroute) text st
    obtain ⟨_, hlogT⟩ := bytes32HexToString_string (I := I) t
    obtain ⟨_, hlogC⟩ := bytes32HexToString_string (I := I)
      ((textOf (property df (js "opCommand"))).getD [])
    simp only [Option.map_some, hrun, hlogT, hlogC, Option.isSome_some, if_true]
    rfl

/-- A request that passes the checks of the server is never answered with 400. -/
theorem processAction_decoded {bytes : Bytes} {df : Value}
    (h : Decoded I body action data message bytes df)
    (hop : (property df (js "opType")).isSome) (st : σ) :
    (processAction I srv body st).1.map Reply.status ≠ .ok 400 := by
  obtain ⟨opType, hop⟩ := Option.isSome_iff_exists.mp hop
  obtain ⟨a, d, hread, -⟩ := readRequestBody_decoded h hop
  unfold processAction
  rw [hread]
  simp only
  split
  next => simp [Except.map]
  next => simp [Except.map]
  next =>
    split
    next => simp [Except.map]
    next => split <;> simp [Except.map]

theorem processAction_error {outcome : Outcome} (h : readRequestBody I body = .error outcome)
    (st : σ) : processAction I srv body st = (outcome, st) := by
  unfold processAction
  rw [h]

theorem actionStatus_identifiers_none
    (h : ∀ action data df s bytes t, ¬ Valid loads (loads body) action data df s bytes t) :
    actionStatus I.caseMap (registered srv.framework) (identifiers loads (loads body)) = 400 := by
  rw [identifiers_eq_none h]
  rfl

/-- A body that the dictionaries stop is answered with 400, and rightly where it is no action. -/
theorem status_iff_unframed (h : ∀ action data message, ¬ Framed body action data message)
    (st : σ) :
    (processAction I srv body st).1.map Reply.status =
        .ok (actionStatus I.caseMap (registered srv.framework) (identifiers loads (loads body))) ↔
      Answerable I body := by
  obtain ⟨r, hread, hr⟩ := readRequestBody_unframed (I := I) h
  have hanswer : Answerable I body ↔
      ∀ action data df s bytes t, ¬ Valid loads (loads body) action data df s bytes t := by
    constructor
    · intro hanswer action data df s bytes t hvalid
      exact h _ _ _ (decoded_of_valid (I := I) hvalid
        (hanswer.identified _ _ _ _ _ _ hvalid)).toFramed
    · intro hnone
      exact ⟨fun _ _ _ hf => absurd hf (h _ _ _), fun _ _ _ _ _ hd => absurd hd.toFramed (h _ _ _),
        fun _ _ _ _ _ hd => absurd hd.toFramed (h _ _ _),
        fun _ _ _ _ _ hd => absurd hd.toFramed (h _ _ _),
        fun _ _ _ _ _ hd => absurd hd.toFramed (h _ _ _),
        fun _ _ _ _ _ _ hv => absurd hv (hnone _ _ _ _ _ _)⟩
  rw [hanswer, processAction_error hread]
  constructor
  · intro hstatus action data df s bytes t hvalid
    have hsome := identifiers_eq_some.mpr ⟨action, data, df, s, bytes, hvalid, rfl⟩
    rw [hsome] at hstatus
    have hequal : r.status = _ := Except.ok.inj hstatus
    rw [hr, actionStatus] at hequal
    split_ifs at hequal
    · cases hequal
    · cases hequal
  · intro hnone
    rw [actionStatus_identifiers_none hnone]
    exact congrArg Except.ok hr

theorem decoded_of_framed (h : Framed body action data message) {action' data' df : Value}
    {s t : JsString} {bytes : Bytes} (hv : Valid loads (loads body) action' data' df s bytes t) :
    Decoded I body action data message bytes df := by
  have hid : (property data' (js "id")).isSome := by
    obtain rfl := Option.some.inj (h.parsed.symm.trans hv.parsed)
    obtain rfl := Option.some.inj (h.hasData.symm.trans hv.hasData)
    exact h.hasId
  have hd := decoded_of_valid (I := I) hv hid
  obtain ⟨rfl, rfl, rfl⟩ := framed_unique h hd.toFramed
  exact hd

/-- The server is right to stop at a message that holds no operation. -/
theorem status_iff_stopped (h : Framed body action data message) (htext : IsOptionalText message)
    (hnone : ∀ bytes df, Decoded I body action data message bytes df →
      (∃ members, df = .object members) ∧ property df (js "opType") = none)
    {r : Reply} (hread : readRequestBody I body = .error (.ok r)) (hr : r.status = 400) (st : σ) :
    (processAction I srv body st).1.map Reply.status =
        .ok (actionStatus I.caseMap (registered srv.framework) (identifiers loads (loads body))) ↔
      Answerable I body := by
  have hno : ∀ {action' data' message' bytes df},
      Decoded I body action' data' message' bytes df → (property df (js "opType")).isSome → False := by
    intro action' data' message' bytes df hd hop
    obtain ⟨rfl, rfl, rfl⟩ := framed_unique h hd.toFramed
    rw [(hnone _ _ hd).2] at hop
    cases hop
  have hinvalid : ∀ action data df s bytes t,
      ¬ Valid loads (loads body) action data df s bytes t :=
    fun _ _ _ _ _ _ hv =>
      hno (decoded_of_framed (I := I) h hv) (Option.isSome_of_eq_some hv.hasOpType)
  refine iff_of_true ?_ ⟨fun _ _ _ hf => ?_, fun _ _ _ _ _ hd => ?_,
    fun _ _ _ _ _ hd hop => absurd hop (hno hd), fun _ _ _ _ _ hd hop => absurd hop (hno hd),
    fun _ _ _ _ _ hd hop => absurd hop (hno hd),
    fun _ _ _ _ _ _ hv => absurd hv (hinvalid _ _ _ _ _ _)⟩
  · rw [actionStatus_identifiers_none hinvalid, processAction_error hread]
    exact congrArg Except.ok hr
  · obtain ⟨-, -, rfl⟩ := framed_unique h hf
    exact htext
  · obtain ⟨rfl, rfl, rfl⟩ := framed_unique h hd.toFramed
    exact (hnone _ _ hd).1

theorem status_iff_raised {e : Raised} (hread : readRequestBody I body = .error (.error e))
    (h : ¬ Answerable I body) (st : σ) :
    (processAction I srv body st).1.map Reply.status =
        .ok (actionStatus I.caseMap (registered srv.framework) (identifiers loads (loads body))) ↔
      Answerable I body := by
  refine iff_of_false ?_ h
  rw [processAction_error hread]
  exact fun hstatus => nomatch hstatus

/-- An operation that is read is answered by its own status only where it is valid. -/
theorem status_iff_decoded (htotal : TotalOnText srv.framework) {bytes : Bytes} {df : Value}
    (h : Decoded I body action data message bytes df)
    (hop : (property df (js "opType")).isSome) (st : σ) :
    (processAction I srv body st).1.map Reply.status =
        .ok (actionStatus I.caseMap (registered srv.framework) (identifiers loads (loads body))) ↔
      Answerable I body := by
  by_cases hvalid : ∃ action data df s bytes t, Valid loads (loads body) action data df s bytes t
  · obtain ⟨action', data', df', s, bytes', t, hv⟩ := hvalid
    have hd := decoded_of_framed (I := I) h.toFramed hv
    have hid : (property data' (js "id")).isSome := by
      obtain rfl := Option.some.inj (h.parsed.symm.trans hv.parsed)
      obtain rfl := Option.some.inj (h.hasData.symm.trans hv.hasData)
      exact h.hasId
    exact iff_of_true (processAction_valid htotal hv hid st) (answerable_of_valid hv hid)
  · refine iff_of_false ?_ fun hanswer => ?_
    · rw [actionStatus_identifiers_none fun action data df s bytes t hv =>
        hvalid ⟨action, data, df, s, bytes, t, hv⟩]
      exact processAction_decoded h hop st
    · obtain ⟨s, t, hv⟩ := hanswer.valid h hop
      exact hvalid ⟨_, _, _, s, _, t, hv⟩

/-- What the message and the DataFixed in it lead to. -/
theorem status_iff_framed (htotal : TotalOnText srv.framework)
    (h : Framed body action data message) (st : σ) :
    (processAction I srv body st).1.map Reply.status =
        .ok (actionStatus I.caseMap (registered srv.framework) (identifiers loads (loads body))) ↔
      Answerable I body := by
  obtain ⟨a, -, hread⟩ := readRequestBody_framed (I := I) h
  by_cases htext : IsOptionalText message
  swap
  · obtain ⟨e, he, hkind⟩ := hexToBytes_raises I htext
    refine status_iff_raised (e := e) ?_ (fun hanswer => htext (hanswer.text _ _ _ h)) st
    rw [hread]
    simp only [he, catching, hkind, bind, Except.bind]
    rfl
  rcases hexToBytes_optionalText I htext with ⟨bytes, hbytes⟩ | ⟨e, he, hkind⟩
  swap
  · -- no hex, no JSON
    have hnone : ∀ bytes df, ¬ Decoded I body action data message bytes df := by
      intro bytes df hd
      have hhex := hd.hex
      rw [he] at hhex
      cases hhex
    refine status_iff_stopped h htext (fun bytes df hd => absurd hd (hnone bytes df))
      (r := badRequest (js "invalid hex in message: " ++ e.text)) ?_ rfl st
    rw [hread]
    simp only [he, catching, hkind, bind, Except.bind]
    rfl
  cases hload : loads bytes with
  | none =>
    have hnone : ∀ bytes df, ¬ Decoded I body action data message bytes df := by
      intro bytes' df hd
      obtain rfl := Except.ok.inj (hbytes.symm.trans hd.hex)
      have hloaded := hd.loaded
      rw [hload] at hloaded
      cases hloaded
    refine status_iff_stopped h htext (fun bytes df hd => absurd hd (hnone bytes df))
      (r := badRequest (js "invalid DataFixed JSON in message: " ++ I.loadsError bytes)) ?_ rfl st
    rw [hread]
    simp only [hbytes, loadsOf, hload, catching, bind, Except.bind]
    rfl
  | some df =>
    have hd : Decoded I body action data message bytes df := ⟨h, hbytes, hload⟩
    by_cases hobject : ∃ members, df = .object members
    swap
    · obtain ⟨e, he, hkind⟩ := parseDataFixed_raises fun members hdf => hobject ⟨members, hdf⟩
      refine status_iff_raised (e := e) ?_
        (fun hanswer => hobject (hanswer.object _ _ _ _ _ hd)) st
      rw [hread]
      simp only [hbytes, loadsOf, hload, he, catching, hkind, bind, Except.bind]
      rfl
    obtain ⟨members, rfl⟩ := hobject
    cases hop : property (.object members) (js "opType") with
    | some opType =>
      exact status_iff_decoded htotal hd (Option.isSome_of_eq_some hop) st
    | none =>
      have hnone : ∀ bytes df, Decoded I body action data message bytes df →
          (∃ members, df = .object members) ∧ property df (js "opType") = none := by
        intro bytes' df' hd'
        obtain ⟨-, -, rfl⟩ := hd.unique hd'
        exact ⟨⟨members, rfl⟩, hop⟩
      obtain ⟨e, he, hkind⟩ := parseDataFixed_error hop
      refine status_iff_stopped h htext hnone
        (r := badRequest (js "invalid DataFixed JSON in message: " ++ e.text)) ?_ rfl st
      rw [hread]
      rcases hkind with hkind | hkind
      · simp only [hbytes, loadsOf, hload, he, catching, hkind, bind, Except.bind]
        rfl
      · simp only [hbytes, loadsOf, hload, he, catching, hkind, bind, Except.bind]
        rfl

/-- The status of any request. -/
theorem status_iff (htotal : TotalOnText srv.framework) (method path : JsString) (body : Bytes)
    (st : σ) :
    (handleRequest I srv method path body st).1.map Reply.status =
        .ok (status I.caseMap (registered srv.framework) loads method path (loads body)) ↔
      (isAction method path → Answerable I body) := by
  unfold handleRequest status isAction
  simp only
  split_ifs with hpath hmethod hpath' hmethod'
  · have haction : (processAction I srv body st).1.map Reply.status =
        .ok (actionStatus I.caseMap (registered srv.framework) (identifiers loads (loads body))) ↔
        Answerable I body := by
      by_cases hframed : ∃ action data message, Framed body action data message
      · obtain ⟨action, data, message, h⟩ := hframed
        exact status_iff_framed htotal h st
      · exact status_iff_unframed (fun action data message h =>
          hframed ⟨action, data, message, h⟩) st
    rw [haction]
    exact ⟨fun h _ => h, fun h => h ⟨hpath, hmethod⟩⟩
  · exact iff_of_true rfl fun h => absurd h.2 hmethod
  · exact iff_of_true rfl fun h => absurd h.1 hpath
  · exact iff_of_true rfl fun h => absurd h.1 hpath
  · exact iff_of_true rfl fun h => absurd h.1 hpath

end statuses

end StealthWage.Python
