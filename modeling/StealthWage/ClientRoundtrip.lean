import StealthWage.Client
import StealthWage.ResultFields
import StealthWage.Dispatch

/-! # The client and the enclave understand each other

The request that the browser builds reaches the handler of its command field by field, and what
the handler answers comes back as the object that it printed or the text of its refusal. -/
namespace StealthWage.Client
open Base (padded property orText readRequestBody)
open Enclave Js Json Utf8 Words

/-! ## The two encoders -/

theorem hexDigits_getD : ∀ d : Fin 16, hexDigits.getD d.val 0 = hexDigit d := by decide

theorem toHex_eq (b : Bytes) : toHex b = bytesToHex b := by
  have hfold : ∀ out : JsString, b.foldl (fun out b => out ++ [hexDigits.getD (b.val / 16) 0,
      hexDigits.getD (b.val % 16) 0]) out = out ++ hexOf b := by
    induction b with
    | nil => exact fun out => (List.append_nil out).symm
    | cons x b ih =>
      intro out
      have hhigh := hexDigits_getD ⟨x.val / 16, by omega⟩
      have hlow := hexDigits_getD ⟨x.val % 16, by omega⟩
      rw [List.foldl_cons, ih, hhigh, hlow, List.append_assoc]
      rfl
  exact hfold (js "0x")

theorem toBytes32Hex_eq {s : JsString} (h : (encode s).length ≤ 32) :
    toBytes32Hex s = bytesToHex (padded s) := by
  rw [toBytes32Hex, toHex_eq, List.take_of_length_le h]
  rfl

/-! ## The request -/

theorem readsBack_fields (now : ℤ) (t c : JsString) (payload : List (JsString × JsString)) :
    (∀ p ∈ dataFixed now t c payload, ReadsBack id p.2 ∧ Whole id p.2) ∧
      (dataFixed now t c payload).Pairwise fun p q => p.1 ≠ q.1 := by
  constructor
  · intro p hp
    simp only [dataFixed, List.mem_cons, List.not_mem_nil, or_false] at hp
    obtain rfl | rfl | rfl | rfl | rfl | rfl | rfl | rfl | rfl | rfl := hp
    · exact ⟨readsBack_string _, whole_string _⟩
    · exact ⟨readsBack_string _, whole_string _⟩
    · exact ⟨readsBack_integer now rfl, whole_integer now rfl⟩
    · exact ⟨readsBack_integer 0 rfl, whole_integer 0 rfl⟩
    · exact ⟨readsBack_string _, whole_string _⟩
    · exact ⟨readsBack_string _, whole_string _⟩
    · exact ⟨readsBack_nil, whole_nil⟩
    · exact ⟨readsBack_integer 0 rfl, whole_integer 0 rfl⟩
    · exact ⟨readsBack_string _, whole_string _⟩
    · exact ⟨readsBack_string _, whole_string _⟩
  · have hkeys : [js "instructionId", js "teeId", js "timestamp", js "rewardEpochId", js "opType",
        js "opCommand", js "cosigners", js "cosignersThreshold", js "originalMessage",
        js "additionalFixedMessage"].Pairwise (· ≠ ·) := by decide
    exact distinct_keys hkeys

theorem parse_body (now : ℤ) (t c : JsString) (payload : List (JsString × JsString)) :
    parse (buildActionBody now t c payload) = some (action now t c payload) := by
  have hkeys : [js "data", js "additionalVariableMessages", js "timestamps",
      js "additionalActionData", js "signatures"].Pairwise (· ≠ ·) := by decide
  have hdataKeys : [js "id", js "type", js "submissionTag", js "message"].Pairwise (· ≠ ·) := by
    decide
  have hdata : ReadsBack id (.object (actionData now t c payload)) := by
    refine readsBack_object (by simp [actionData])
      (distinct_keys hdataKeys) fun p hp => ?_
    simp only [actionData, List.mem_cons, List.not_mem_nil, or_false] at hp
    obtain rfl | rfl | rfl | rfl := hp <;> exact readsBack_string _
  refine parse_text (readsBack_object (by simp)
    (distinct_keys hkeys) fun p hp => ?_)
  simp only [List.mem_cons, List.not_mem_nil, or_false] at hp
  obtain rfl | rfl | rfl | rfl | rfl := hp
  · exact hdata
  · exact readsBack_nil
  · exact readsBack_nil
  · exact readsBack_string _
  · exact readsBack_nil

theorem parse_message (now : ℤ) (t c : JsString) (payload : List (JsString × JsString)) :
    Base.parseBytes (encode (Json.text id (.object (dataFixed now t c payload)))) =
      some (.object (dataFixed now t c payload)) := by
  obtain ⟨hfields, hkeys⟩ := readsBack_fields now t c payload
  have hwhole : Whole id (.object (dataFixed now t c payload)) :=
    whole_object fun p hp => (hfields p hp).2
  rw [Base.parseBytes, decode_encode _ hwhole.wellFormed]
  exact parse_text (readsBack_object (by simp [dataFixed]) hkeys fun p hp => (hfields p hp).1)

theorem property_opType (now : ℤ) (t c : JsString) (payload : List (JsString × JsString)) :
    property (.object (dataFixed now t c payload)) (js "opType") =
      some (.string (toBytes32Hex t)) := rfl

theorem toBytes32Hex_ne_nil (s : JsString) : toBytes32Hex s ≠ [] := by
  rw [toBytes32Hex, toHex_eq]
  exact fun h => nomatch h

theorem readRequestBody_body (R : Runtime) (now : ℤ) (t c : JsString)
    (payload : List (JsString × JsString)) :
    readRequestBody R (buildActionBody now t c payload) =
      .ok (.object (actionData now t c payload), .object (dataFixed now t c payload)) := by
  refine Base.readRequestBody_eq_ok.mpr ⟨action now t c payload, parse_body now t c payload, rfl,
    rfl, ⟨_, ?_, parse_message now t c payload⟩, ?_⟩
  · have hmessage : property (.object (actionData now t c payload)) (js "message") =
        some (.string (toHex (encode (Json.text id (.object (dataFixed now t c payload)))))) := rfl
    rw [hmessage, toHex_eq]
    exact congrArg (Except.mapError _) (hexToBytes_bytesToHex _)
  · rw [property_opType, Base.falsy, List.isEmpty_eq_false_iff]
    exact toBytes32Hex_ne_nil t

/-! ## The fields -/

def Payload.get (p : Payload) (f : JsString) : JsString :=
  ((p.members.find? fun m => m.1 = f).map Prod.snd).getD []

def Payload.request (p : Payload) : AuthRequest where
  streamId := p.get (js "streamId")
  vault := p.get (js "vault")
  chainId := p.get (js "chainId")
  commitment := p.get (js "commitment")
  encryptedTerms := p.get (js "encryptedTerms")
  issuedAt := p.get (js "issuedAt")
  callerSignature := p.get (js "callerSignature")

theorem stringField_asValues (ms : List (JsString × JsString)) (f : JsString) :
    stringField (asValues ms) f = (ms.find? fun m => m.1 = f).map Prod.snd := by
  rw [stringField, asValues, List.find?_map]
  simp only [Function.comp_def]
  cases ms.find? fun m => m.1 = f <;> rfl

theorem Payload.stringField (p : Payload) {f : JsString} (hf : f ∈ requiredFields) :
    Enclave.stringField (asValues p.members) f = some (p.get f) := by
  obtain ⟨m, hm, rfl⟩ := List.mem_map.mp (p.fields.mem_iff.mpr hf)
  have hfound : (p.members.find? fun m' => m'.1 = m.1).isSome :=
    List.find?_isSome.mpr ⟨m, hm, decide_eq_true rfl⟩
  obtain ⟨m', hm'⟩ := Option.isSome_iff_exists.mp hfound
  rw [stringField_asValues, Payload.get, hm']
  rfl

theorem Payload.distinct (p : Payload) : p.members.Pairwise fun m m' => m.1 ≠ m'.1 := by
  have hnodup : requiredFields.Nodup := by decide
  exact distinct_keys (p.fields.nodup_iff.mpr hnodup)

theorem Payload.ne_nil (p : Payload) : p.members ≠ [] := by
  intro h
  have hlength := p.fields.length_eq
  rw [h] at hlength
  cases hlength

/-- The text of the message, as the handler gets it. -/
def originalMessage (p : Payload) : JsString := toHex (encode (stringify p.members))

theorem spells_originalMessage (p : Payload) : Enclave.Spells (originalMessage p) p.request := by
  refine ⟨encode (stringify p.members), asValues p.members, ?_,
    parse_decode_stringify _ p.ne_nil p.distinct, ?_, p.stringField (by decide),
    p.stringField (by decide), p.stringField (by decide), p.stringField (by decide),
    p.stringField (by decide), p.stringField (by decide), p.stringField (by decide)⟩
  · rw [originalMessage, toHex_eq]
    exact hexToBytes_bytesToHex _
  · intro m hm
    obtain ⟨m', hm', rfl⟩ := List.mem_map.mp hm
    exact p.fields.mem_iff.mp (List.mem_map_of_mem hm')

/-! ## Routing -/

def commandName : Command → Dispatch.Name
  | .authWithdraw => Dispatch.withdrawName
  | .authSettle => Dispatch.settleName

theorem commandName_text (command : Command) : (commandName command).text = commandText command := by
  cases command <;> rfl

theorem normalize_name (C : CaseMap) (n : Dispatch.Name) :
    Base.normalize C (some (.string n.bytes32)) = some n.bytes32 := by
  have hlower : n.bytes32.map lowerUnit = n.bytes32 := by
    have hdigit : ∀ d : Fin 16, lowerUnit (hexDigit d) = hexDigit d := by decide
    have hpair : ∀ b : Bytes, (hexOf b).map lowerUnit = hexOf b := by
      intro b
      induction b with
      | nil => rfl
      | cons x b ih =>
        rw [hexOf, List.flatMap_cons, List.map_append]
        exact congrArg₂ _ (by simp [hdigit]) ih
    exact congrArg (js "0x" ++ ·) (hpair _)
  exact Dispatch.normalize_spells (.inl hlower) C

/-- The route of a command, exactly. -/
theorem route_command (H : App.Host) (now : Clock) (command : Command) :
    (App.routes H now).route Dispatch.streamName.bytes32 (commandName command).bytes32 =
      some ⟨Dispatch.streamName.bytes32, (commandName command).bytes32,
        App.authorizeValue H now (command.tag H.viem)⟩ := by
  have htype : bytesToHex (padded App.opTypeGreeting) ≠ Dispatch.streamName.bytes32 := by
    decide +kernel
  have hcommand : Dispatch.withdrawName.bytes32 ≠ Dispatch.settleName.bytes32 := by decide +kernel
  have hskip : ∀ (c : JsString) (rs : Base.Framework App.State),
      ((App.routes H now).take 2 ++ rs).find? (fun r =>
        r.opType = Dispatch.streamName.bytes32 ∧ r.opCommand = c) =
      rs.find? fun r => r.opType = Dispatch.streamName.bytes32 ∧ r.opCommand = c := by
    intro c rs
    rw [List.find?_append, List.find?_eq_none.mpr, Option.none_or]
    intro r hr
    simp only [App.routes, List.take_succ_cons, List.take_zero, List.mem_cons, List.not_mem_nil,
      or_false] at hr
    obtain rfl | rfl := hr <;> simp [htype]
  have hexact : (App.routes H now).find? (fun r => r.opType = Dispatch.streamName.bytes32 ∧
      r.opCommand = (commandName command).bytes32) = some ⟨Dispatch.streamName.bytes32,
        (commandName command).bytes32, App.authorizeValue H now (command.tag H.viem)⟩ := by
    rw [← List.take_append_drop 2 (App.routes H now), hskip]
    cases command with
    | authWithdraw => exact List.find?_cons_of_pos (decide_eq_true ⟨rfl, rfl⟩)
    | authSettle =>
      refine (List.find?_cons_of_neg ?_).trans (List.find?_cons_of_pos (decide_eq_true ⟨rfl, rfl⟩))
      simp only [decide_eq_true_eq, not_and]
      exact fun _ => hcommand
  rw [Base.Framework.route, hexact]
  rfl

theorem toBytes32Hex_name (n : Dispatch.Name) : toBytes32Hex n.text = n.bytes32 :=
  toBytes32Hex_eq n.short

theorem lookup_command (H : App.Host) (now : Clock) (command : Command) (sent : ℤ)
    (payload : List (JsString × JsString)) :
    (App.shipped H now).framework.lookup H.caseMap
        (property (.object (dataFixed sent (js "STREAM") (commandText command) payload))
          (js "opType"))
        (some (orText (property
          (.object (dataFixed sent (js "STREAM") (commandText command) payload))
          (js "opCommand")) [])) =
      some (some (App.authorizeValue H now (command.tag H.viem))) := by
  have htype : property (.object (dataFixed sent (js "STREAM") (commandText command) payload))
      (js "opType") = some (.string Dispatch.streamName.bytes32) :=
    congrArg (some ∘ Value.string) (toBytes32Hex_name Dispatch.streamName)
  have hcommand : orText (property
      (.object (dataFixed sent (js "STREAM") (commandText command) payload)) (js "opCommand")) [] =
      .string (commandName command).bytes32 := by
    rw [← toBytes32Hex_name, commandName_text]
    rfl
  rw [htype, hcommand, Base.Framework.lookup, normalize_name, normalize_name]
  change some (Option.map _ ((App.routes H now).route _ _)) = _
  rw [route_command]
  rfl

/-! ## Answers -/

/-- Text that starts with something to read. -/
def Spoken (text : JsString) : Prop := ∃ u s, text = u :: s ∧ isSpace u = false

theorem openTerms_spoken {R : Runtime} {key text : JsString} {req : AuthRequest}
    (h : openTerms R key req = .error text) : Spoken text := by
  unfold openTerms at h
  split at h
  next =>
    obtain rfl := Except.error.inj h
    exact ⟨_, _, rfl, rfl⟩
  next =>
    split_ifs at h
    · obtain rfl := Except.error.inj h
      exact ⟨_, _, rfl, rfl⟩
    · split at h
      next =>
        obtain rfl := Except.error.inj h
        exact ⟨_, _, rfl, rfl⟩
      next => cases h

theorem checkIssuedAt_spoken {req : AuthRequest} {now : ℤ} {text : JsString}
    (h : checkIssuedAt req now = .error text) : Spoken text := by
  unfold checkIssuedAt at h
  split at h
  next =>
    obtain rfl := Except.error.inj h
    exact ⟨_, _, rfl, rfl⟩
  next =>
    simp only at h
    split_ifs at h
    · obtain rfl := Except.error.inj h
      exact ⟨_, _, rfl, rfl⟩
    · obtain rfl := Except.error.inj h
      exact ⟨_, _, rfl, rfl⟩

theorem checkCaller_spoken {R : Runtime} {req : AuthRequest} {tag text : JsString} {issuedAt : ℤ}
    {terms : Protocol.StreamTerms} (h : checkCaller R req tag issuedAt terms = .error text) :
    Spoken text := by
  unfold checkCaller at h
  split at h
  next =>
    obtain rfl := Except.error.inj h
    exact ⟨_, _, rfl, rfl⟩
  next =>
    split_ifs at h
    obtain rfl := Except.error.inj h
    exact ⟨_, _, rfl, rfl⟩

theorem bind_error {ε α β : Type} {x : Except ε α} {f : α → Except ε β} {e : ε}
    (h : (x >>= f) = .error e) : x = .error e ∨ ∃ a, f a = .error e := by
  cases x with
  | error e' =>
    have he : (Except.error e' : Except ε β) = .error e := h
    exact .inl (congrArg Except.error (Except.error.inj he))
  | ok a => exact .inr ⟨a, h⟩

/-- Every refusal says why. -/
theorem checkRequest_spoken {R : Runtime} {now : ℤ} {msg tag text : JsString}
    (h : checkRequest R now msg tag = .error text) : Spoken text := by
  unfold checkRequest at h
  split at h
  next =>
    obtain rfl := Except.error.inj h
    exact ⟨_, _, rfl, rfl⟩
  next =>
    split at h
    next =>
      rcases bind_error h with hopen | ⟨_, h⟩
      · exact openTerms_spoken hopen
      rcases bind_error h with hissued | ⟨_, h⟩
      · exact checkIssuedAt_spoken hissued
      rcases bind_error h with hcaller | ⟨_, h⟩
      · exact checkCaller_spoken hcaller
      · cases h
    next =>
      obtain rfl := Except.error.inj h
      exact ⟨_, _, rfl, rfl⟩

/-- A result of the stream handlers is a refusal, or an object as hex of its text. -/
theorem authorizeValue_cases {H : App.Host} {now : Clock} {tag : JsString} {msg : Value}
    {s s' : App.State} {res : HandlerResult}
    (h : App.authorizeValue H now tag msg s = some (res, s')) :
    (∃ text, res = refuse text ∧ Spoken text) ∨
    ∃ ms : List (JsString × JsString), ms ≠ [] ∧ ms.Pairwise (fun m m' => m.1 ≠ m'.1) ∧
      res = ⟨some (bytesToHex (encode (stringify ms))), 1, none⟩ := by
  unfold App.authorizeValue at h
  split at h
  next text =>
    obtain ⟨⟨res', st⟩, hrun, hpair⟩ := Option.map_eq_some_iff.mp h
    obtain ⟨rfl, -⟩ := Prod.mk.inj hpair
    unfold authorize at hrun
    split at hrun
    next text htext =>
      obtain ⟨rfl, -⟩ := Prod.mk.inj (Option.some.inj hrun)
      exact .inl ⟨text, rfl, checkRequest_spoken htext⟩
    next a _ =>
      obtain ⟨p, digest, signature, -, -, -, hr⟩ := sign_eq_some.mp hrun
      obtain ⟨rfl, -⟩ := Prod.mk.inj hr
      refine .inr ⟨response a p signature, List.cons_ne_nil _ _, ?_, rfl⟩
      exact distinct_keys responseFields_distinct
  next =>
    obtain ⟨rfl, -⟩ := Prod.mk.inj (Option.some.inj h)
    exact .inl ⟨_, rfl, _, _, rfl, rfl⟩

/-! ## Reading an answer -/

/-- The text of an object has no mark before it. -/
theorem textDecode_encode {s : JsString} (h : wellFormed (123 :: s) = true) :
    textDecode (encode (123 :: s)) = 123 :: s := by
  have hmark : ([0xEF, 0xBB, 0xBF] : Bytes).isPrefixOf (encode (123 :: s)) = false := by
    rw [encode_plain (by decide)]
    rfl
  rw [textDecode, hmark, if_neg (by decide), decode_encode _ h]

theorem pairs_hexOf (b : Bytes) : (pairs (hexOf b)).map (fun p => toByte (parseInt16 p)) = b := by
  have hdot : ∀ d : Fin 16, isDot (hexDigit d) = true := by decide
  have hparse : ∀ d e : Fin 16, toByte (parseInt16 [hexDigit d, hexDigit e]) =
      ⟨16 * d.val + e.val, by omega⟩ := by decide +kernel
  induction b with
  | nil => rfl
  | cons x b ih =>
    rw [hexOf, List.flatMap_cons]
    simp only [List.cons_append, List.nil_append, pairs, hdot, Bool.and_self, if_true,
      List.map_cons, hparse]
    congr 1
    exact Fin.ext (by simp only; omega)

theorem readAuthorization_hex {ms : List (JsString × JsString)} (hne : ms ≠ [])
    (hkeys : ms.Pairwise fun m m' => m.1 ≠ m'.1) :
    readAuthorization (.string (bytesToHex (encode (stringify ms)))) =
      some (.authorized (.object (asValues ms))) := by
  have hdrop : (bytesToHex (encode (stringify ms))).drop 2 = hexOf (encode (stringify ms)) := rfl
  have hbytes := pairs_hexOf (encode (stringify ms))
  have hdecode : textDecode (encode (stringify ms)) = stringify ms :=
    textDecode_encode (wellFormed_stringify ms)
  rw [readAuthorization, hdrop]
  split
  next hnil =>
    -- a printed object has bytes
    rw [hnil, stringify, encode_plain (by decide)] at hbytes
    cases hbytes
  next =>
    rw [hbytes, hdecode, parse_stringify ms hne hkeys]
    rfl

theorem stripError_spoken {text : JsString} (h : Spoken text) :
    stripError (js "error: " ++ text) = text := by
  obtain ⟨u, s, rfl, hu⟩ := h
  have hstart : (js "error:").isPrefixOf (js "error: " ++ u :: s) = true := rfl
  have hdrop : (js "error: " ++ u :: s).drop 6 = 32 :: u :: s := rfl
  rw [stripError, hstart, if_pos rfl, hdrop, List.dropWhile_cons_of_pos (by decide),
    List.dropWhile_cons_of_neg (by simp [hu])]

/-- What goes over the wire for a result: the text of the reply in UTF-8. -/
def sent {σ : Type} (numberText : JsString → JsString) (srv : Base.Server σ) (data df : Value)
    (res : HandlerResult) : Bytes :=
  encode ((Base.Payload.json (Base.resultOf srv data df res).members).body numberText)

section answers

variable {σ : Type} {numberText : JsString → JsString} {srv : Base.Server σ} {now : ℤ}
  {t c : JsString} {payload : List (JsString × JsString)}

/-- The result of a request that the browser has built. -/
def resultFields (srv : Base.Server σ) (t c : JsString) (res : HandlerResult) :
    List (JsString × Value) :=
  [(js "id", .string actionId), (js "submissionTag", .string (js "submit")),
    (js "status", .number (decimal res.status)), (js "log", .string (Base.logOf res)),
    (js "opType", .string (toBytes32Hex t)), (js "opCommand", .string (toBytes32Hex c)),
    (js "additionalResultStatus", .string (js "0x")), (js "version", .string srv.version),
    (js "data", .string (res.data.getD (js "0x")))]

theorem parse_sent {res : HandlerResult}
    (hnumber : numberText (decimal res.status) = decimal res.status) :
    parse (textDecode (sent numberText srv (.object (actionData now t c payload))
      (.object (dataFixed now t c payload)) res)) = some (.object (resultFields srv t c res)) := by
  have hdecimal : decimal res.status = bigintText res.status := by
    rw [bigintText, if_neg (by omega), Int.natAbs_natCast]
  have hkept : Base.kept (Base.resultOf srv (.object (actionData now t c payload))
      (.object (dataFixed now t c payload)) res).members = resultFields srv t c res :=
    Contract.kept_members rfl rfl rfl rfl
  have hordered : ordered (.object (resultFields srv t c res)) =
      .object (resultFields srv t c res) := rfl
  have hfields : ∀ p ∈ resultFields srv t c res,
      ReadsBack numberText p.2 ∧ Whole numberText p.2 := by
    rw [hdecimal] at hnumber
    intro p hp
    rw [resultFields, hdecimal] at hp
    simp only [List.mem_cons, List.not_mem_nil, or_false] at hp
    obtain rfl | rfl | rfl | rfl | rfl | rfl | rfl | rfl | rfl := hp
    · exact ⟨readsBack_string _, whole_string _⟩
    · exact ⟨readsBack_string _, whole_string _⟩
    · exact ⟨readsBack_integer _ hnumber, whole_integer _ hnumber⟩
    · exact ⟨readsBack_string _, whole_string _⟩
    · exact ⟨readsBack_string _, whole_string _⟩
    · exact ⟨readsBack_string _, whole_string _⟩
    · exact ⟨readsBack_string _, whole_string _⟩
    · exact ⟨readsBack_string _, whole_string _⟩
    · exact ⟨readsBack_string _, whole_string _⟩
  have hkeys : [js "id", js "submissionTag", js "status", js "log", js "opType", js "opCommand",
      js "additionalResultStatus", js "version", js "data"].Pairwise (· ≠ ·) := by decide
  have hwhole : Whole numberText (.object (resultFields srv t c res)) :=
    whole_object fun p hp => (hfields p hp).2
  have htext : textDecode (encode (Json.text numberText (.object (resultFields srv t c res)))) =
      Json.text numberText (.object (resultFields srv t c res)) :=
    textDecode_encode hwhole.wellFormed
  rw [sent, Base.Payload.body, hkept, hordered, htext]
  exact parse_text (readsBack_object (List.cons_ne_nil _ _)
    (distinct_keys hkeys) fun p hp => (hfields p hp).1)

theorem readResponse_sent {res : HandlerResult}
    (hnumber : numberText (decimal res.status) = decimal res.status) :
    readResponse 200 (sent numberText srv (.object (actionData now t c payload))
      (.object (dataFixed now t c payload)) res) = readResult (.object (resultFields srv t c res)) := by
  rw [readResponse, if_pos (by decide), parse_sent hnumber]
  rfl

theorem readResult_refused {text : JsString} (h : Spoken text) :
    readResult (.object (resultFields srv t c (refuse text))) = some (.failed (.rejected text)) := by
  have hstatus : isOne (property (.object (resultFields srv t c (refuse text))) (js "status")) =
      false := by
    have hzero : isOne (some (.number (decimal 0))) = false := by decide +kernel
    exact hzero
  have hlog : property (.object (resultFields srv t c (refuse text))) (js "log") =
      some (.string (js "error: " ++ text)) := by
    obtain ⟨u, s, rfl, -⟩ := h
    rfl
  have hne : text ≠ [] := by
    obtain ⟨u, s, rfl, -⟩ := h
    exact List.cons_ne_nil u s
  simp only [readResult, hstatus, hlog, stripError_spoken h, rejection, hne, if_false,
    Bool.false_eq_true]

theorem readResult_authorized {ms : List (JsString × JsString)} (hne : ms ≠ [])
    (hkeys : ms.Pairwise fun m m' => m.1 ≠ m'.1) :
    readResult (.object (resultFields srv t c
      ⟨some (bytesToHex (encode (stringify ms))), 1, none⟩)) =
      some (.authorized (.object (asValues ms))) := by
  have hstatus : isOne (property (.object (resultFields srv t c
      ⟨some (bytesToHex (encode (stringify ms))), 1, none⟩)) (js "status")) = true := by
    have hone : isOne (some (.number (decimal 1))) = true := by decide +kernel
    exact hone
  have hdata : property (.object (resultFields srv t c
      ⟨some (bytesToHex (encode (stringify ms))), 1, none⟩)) (js "data") =
      some (.string (bytesToHex (encode (stringify ms)))) := rfl
  simp only [readResult, hstatus, hdata, if_true, Option.bind_some, readAuthorization_hex hne hkeys]

end answers

/-! ## Both ways -/

/-- What the browser makes of any result of the stream handlers. -/
theorem answer_read {H : App.Host} {numberText : JsString → JsString}
    (hnumber : ∀ n, n ≤ 1 → numberText (decimal n) = decimal n) (srv : Base.Server App.State)
    {now : ℤ} {t c : JsString} {payload : List (JsString × JsString)} {later : Clock}
    {tag : JsString} {msg : Value} {s s' : App.State} {res : HandlerResult}
    (h : App.authorizeValue H later tag msg s = some (res, s')) :
    (res.status = 1 → ∃ object, res.data = some (bytesToHex (encode (stringify object))) ∧
      readResponse 200 (sent numberText srv (.object (actionData now t c payload))
        (.object (dataFixed now t c payload)) res) = some (.authorized (.object (asValues object)))) ∧
    (res.status ≠ 1 → ∃ err, res.error = some err ∧
      readResponse 200 (sent numberText srv (.object (actionData now t c payload))
        (.object (dataFixed now t c payload)) res) = some (.failed (.rejected err))) := by
  rcases authorizeValue_cases h with ⟨text, rfl, htext⟩ | ⟨ms, hne, hkeys, rfl⟩
  · refine ⟨fun hone => absurd (show 0 = 1 from hone) (by decide),
      fun _ => ⟨text, rfl, ?_⟩⟩
    rw [readResponse_sent (hnumber 0 (by omega))]
    exact readResult_refused htext
  · refine ⟨fun _ => ⟨ms, rfl, ?_⟩, fun hone => absurd rfl hone⟩
    rw [readResponse_sent (hnumber 1 le_rfl)]
    exact readResult_authorized hne hkeys

/-- The request reaches the handler of its command with the seven fields as they were, and every
result that the stream handlers have comes back as it was; `JSON.stringify` prints 0 and 1 as
their digits. -/
theorem wire_roundtrip {H : App.Host} {numberText : JsString → JsString}
    (hnumber : ∀ n, n ≤ 1 → numberText (decimal n) = decimal n) (second : ℤ) (now : Clock)
    (command : Command) (payload : Payload) :
    ∃ data df,
      readRequestBody H.toRuntime
        (buildActionBody second (js "STREAM") (commandText command) payload.members) =
          .ok (data, df) ∧
      (App.shipped H now).framework.lookup H.caseMap (property df (js "opType"))
        (some (orText (property df (js "opCommand")) [])) =
          some (some (App.authorizeValue H now (command.tag H.viem))) ∧
      orText (property df (js "originalMessage")) (js "0x") = .string (originalMessage payload) ∧
      decodeRequest H.toRuntime (originalMessage payload) = .ok payload.request ∧
      (∀ s s' res, App.authorizeValue H now (command.tag H.viem) (.string (originalMessage payload))
        s = some (res, s') → ∃ members,
          Base.handleRequest H.toRuntime (App.shipped H now) (js "POST") (js "/action")
            (buildActionBody second (js "STREAM") (commandText command) payload.members) s =
              (some ⟨200, .json members⟩, s') ∧
          sent numberText (App.shipped H now) data df res =
            encode ((Base.Payload.json members).body numberText)) ∧
      ∀ later tag msg s s' res, App.authorizeValue H later tag msg s = some (res, s') →
        (res.status = 1 → ∃ object, res.data = some (bytesToHex (encode (stringify object))) ∧
          requestAuthorization (fun _ => .ok (200, sent numberText (App.shipped H now) data df res))
            second command payload = some (.authorized (.object (asValues object)))) ∧
        (res.status ≠ 1 → ∃ err, res.error = some err ∧
          requestAuthorization (fun _ => .ok (200, sent numberText (App.shipped H now) data df res))
            second command payload = some (.failed (.rejected err))) := by
  have hread := readRequestBody_body H.toRuntime second (js "STREAM") (commandText command)
    payload.members
  have hlookup := lookup_command H now command second payload.members
  have hmessage : orText (property (.object (dataFixed second (js "STREAM") (commandText command)
      payload.members)) (js "originalMessage")) (js "0x") = .string (originalMessage payload) := rfl
  refine ⟨_, _, hread, hlookup, hmessage, decodeRequest_ok.mpr (spells_originalMessage payload), ?_,
    fun later tag msg s s' res h => answer_read hnumber (App.shipped H now) h⟩
  intro s s' res h
  have hruns : Contract.Runs H.toRuntime (App.shipped H now)
      (buildActionBody second (js "STREAM") (commandText command) payload.members) s _ _ res s' :=
    ⟨hread, _, hlookup, by rw [hmessage]; exact h⟩
  exact ⟨_, (Contract.sent_iff hruns _).mpr ⟨rfl, rfl⟩, rfl⟩

/-- A request for a withdrawal, its fields in an order of their own. -/
def withdrawPayload : Payload where
  members := [(js "chainId", js "114"), (js "streamId", js "1"), (js "vault", js "0x"),
    (js "commitment", js "0x01"), (js "encryptedTerms", js "0x02"), (js "issuedAt", js "1100"),
    (js "callerSignature", js "0x03")]
  fields := by decide

theorem wire_roundtrip_withdraw : ∃ data df,
    readRequestBody Contract.host.toRuntime
      (buildActionBody 1100 (js "STREAM") (js "AUTH_WITHDRAW") withdrawPayload.members) =
        .ok (data, df) ∧
    decodeRequest Contract.host.toRuntime (originalMessage withdrawPayload) =
      .ok withdrawPayload.request ∧
    requestAuthorization (fun _ => .ok (200, sent id (App.shipped Contract.host ⟨1100, by decide⟩)
        data df (refuse (js "decoding request: s.startsWith is not a function")))) 1100
      .authWithdraw withdrawPayload =
        some (.failed (.rejected (js "decoding request: s.startsWith is not a function"))) := by
  obtain ⟨data, df, hread, -, -, hdecode, -, hanswers⟩ := @wire_roundtrip Contract.host id
    (fun _ _ => rfl) 1100 ⟨1100, by decide⟩ .authWithdraw withdrawPayload
  obtain ⟨err, herr, hanswer⟩ := (hanswers ⟨1100, by decide⟩ [] .null App.State.initial _ _ rfl).2
    (by decide)
  obtain rfl := Option.some.inj herr
  exact ⟨data, df, hread, hdecode, hanswer⟩

end StealthWage.Client
