import StealthWage.Contract
import StealthWage.EnclaveSpec
import StealthWage.Handlers

/-! # The statuses of the TypeScript server

The server checks less of a body than the contract asks of it; what passes its own checks and has
a field of another type is where the two part. -/
namespace StealthWage.Base
open Contract Enclave Js Json Utf8 Words

/-! ## Requests that pass the checks -/

/-- The JSON that bytes hold. -/
def parseBytes (b : Bytes) : Option Value := parse (decode b)

/-- The server finds nothing wrong with the body. -/
structure Accepts (body : JsString) (action data df : Value) : Prop where
  parsed : parse body = some action
  hasData : property action (js "data") = some data
  present : falsy (some data) = false
  decoded : ∃ bytes, hexArg (property data (js "message")) = .ok bytes ∧ parseBytes bytes = some df
  hasOpType : falsy (property df (js "opType")) = false

theorem isObject_of_property {v w : Value} {key : JsString} (h : property v key = some w) :
    isObject v = true := by
  cases v with
  | object members => rfl
  | _ => cases h

theorem isObject_of_falsy {v : Value} {key : JsString} (h : falsy (property v key) = false) :
    isObject v = true := by
  cases hp : property v key with
  | none =>
    rw [hp] at h
    cases h
  | some w => exact isObject_of_property hp

theorem parseJson_eq_ok {R : Runtime} {s : JsString} {v : Value} :
    parseJson R s = .ok v ↔ parse s = some v := by
  unfold parseJson
  split <;> simp_all

theorem readAction_eq_ok {R : Runtime} {body : JsString} {data : Value} {bytes : Bytes} :
    readAction R body = .ok (data, bytes) ↔ ∃ action, parse body = some action ∧
      property action (js "data") = some data ∧ falsy (some data) = false ∧
      hexArg (property data (js "message")) = .ok bytes := by
  constructor
  · intro h
    unfold readAction at h
    split at h
    next => cases h
    next action haction =>
      split at h
      next d hdata =>
        split_ifs at h with hpresent
        split at h
        next => cases h
        next b hhex =>
          obtain ⟨rfl, rfl⟩ := Prod.mk.inj (Except.ok.inj h)
          rw [Bool.and_eq_true, Bool.not_eq_true'] at hpresent
          exact ⟨action, parseJson_eq_ok.mp haction, hdata, hpresent.2, hhex⟩
      next => cases h
  · rintro ⟨action, haction, hdata, hpresent, hhex⟩
    simp only [readAction, parseJson_eq_ok.mpr haction, hdata, isObject_of_property hdata, hpresent,
      Bool.not_false, Bool.and_self, if_true, hhex]

theorem readDataFixed_eq_ok {R : Runtime} {bytes : Bytes} {df : Value} :
    readDataFixed R bytes = .ok df ↔
      parseBytes bytes = some df ∧ falsy (property df (js "opType")) = false := by
  constructor
  · intro h
    unfold readDataFixed at h
    split at h
    next => cases h
    next v hv =>
      split_ifs at h with hop
      obtain rfl := Except.ok.inj h
      rw [Bool.and_eq_true, Bool.not_eq_true'] at hop
      exact ⟨parseJson_eq_ok.mp hv, hop.2⟩
  · rintro ⟨hv, hop⟩
    have hparse : parseJson R (decode bytes) = .ok df := parseJson_eq_ok.mpr hv
    simp only [readDataFixed, hparse, isObject_of_falsy hop, hop, Bool.not_false, Bool.and_self,
      if_true]

theorem readRequestBody_eq_ok {R : Runtime} {body : JsString} {data df : Value} :
    readRequestBody R body = .ok (data, df) ↔ ∃ action, Accepts body action data df := by
  unfold readRequestBody
  rw [bind_ok]
  constructor
  · rintro ⟨⟨d, bytes⟩, haction, hrest⟩
    obtain ⟨v, hdf, hpair⟩ := bind_ok.mp hrest
    obtain ⟨rfl, rfl⟩ := Prod.mk.inj (Except.ok.inj hpair)
    obtain ⟨action, hparse, hdata, hpresent, hhex⟩ := readAction_eq_ok.mp haction
    obtain ⟨hdecoded, hop⟩ := readDataFixed_eq_ok.mp hdf
    exact ⟨action, hparse, hdata, hpresent, ⟨bytes, hhex, hdecoded⟩, hop⟩
  · rintro ⟨action, h⟩
    obtain ⟨bytes, hhex, hdecoded⟩ := h.decoded
    have haction := readAction_eq_ok (R := R).mpr ⟨action, h.parsed, h.hasData, h.present, hhex⟩
    exact ⟨(data, bytes), haction,
      bind_ok.mpr ⟨df, readDataFixed_eq_ok.mpr ⟨hdecoded, h.hasOpType⟩, rfl⟩⟩

/-- A body that the checks stop is answered with 400. -/
theorem readRequestBody_error {R : Runtime} {body : JsString} {reply : Reply}
    (h : readRequestBody R body = .error reply) : reply.status = 400 := by
  unfold readRequestBody at h
  cases haction : readAction R body with
  | error e =>
    rw [haction] at h
    obtain rfl := Except.error.inj h
    unfold readAction at haction
    split at haction
    next => exact (Except.error.inj haction) ▸ rfl
    next =>
      split at haction
      next =>
        split_ifs at haction with hpresent
        · split at haction
          next => exact (Except.error.inj haction) ▸ rfl
          next => cases haction
        · exact (Except.error.inj haction) ▸ rfl
      next => exact (Except.error.inj haction) ▸ rfl
  | ok p =>
    rw [haction] at h
    cases hdf : readDataFixed R p.2 with
    | ok v =>
      simp only [bind, Except.bind, hdf] at h
      cases h
    | error e =>
      simp only [bind, Except.bind, hdf] at h
      obtain rfl := Except.error.inj h
      unfold readDataFixed at hdf
      split at hdf
      next => exact (Except.error.inj hdf) ▸ rfl
      next =>
        split_ifs at hdf with hop
        exact (Except.error.inj hdf) ▸ rfl

/-! ## What the contract asks beyond -/

/-- Of the bodies that the checks let pass, those with fields of the right types are valid. -/
theorem identifiers_eq_some_iff {body : JsString} {t c : JsString} :
    identifiers parseBytes (parse body) = some (t, c) ↔ ∃ action data df,
      Accepts body action data df ∧ wellTyped action data df = true ∧
      property df (js "opType") = some (.string t) ∧
      c = (textOf (property df (js "opCommand"))).getD [] := by
  rw [identifiers_eq_some]
  constructor
  · rintro ⟨action, data, df, message, bytes, h, rfl⟩
    refine ⟨action, data, df, ⟨h.parsed, h.hasData, ?_, ⟨bytes, ?_, h.decoded⟩, ?_⟩, h.typed,
      h.hasOpType, rfl⟩
    · cases data with
      | object members => rfl
      | _ => nomatch h.hasMessage
    · rw [h.hasMessage, hexArg, h.hex]
      rfl
    · rw [h.hasOpType, falsy, List.isEmpty_eq_false_iff]
      exact h.named
  · rintro ⟨action, data, df, h, htyped, hop, rfl⟩
    obtain ⟨bytes, hhex, hdecoded⟩ := h.decoded
    obtain ⟨-, hdata, -⟩ := wellTyped_iff.mp htyped
    have hnamed : t ≠ [] := by
      have htruthy := h.hasOpType
      rwa [hop, falsy, List.isEmpty_eq_false_iff] at htruthy
    rcases Schema.fits_text_or hdata (js "message") (by simp [actionDataFields]) with
      hnone | ⟨message, hmessage⟩
    · -- without a message there are no bytes, and nothing is no JSON
      rw [hnone, hexArg] at hhex
      obtain rfl := Except.ok.inj hhex
      cases hdecoded
    · rw [hmessage, hexArg] at hhex
      cases hbytes : hexToBytes message with
      | error e =>
        rw [hbytes] at hhex
        cases hhex
      | ok b =>
        rw [hbytes] at hhex
        obtain rfl := Except.ok.inj hhex
        exact ⟨action, data, df, message, b,
          ⟨h.parsed, h.hasData, hmessage, hbytes, hdecoded, hop, hnamed, htyped⟩, rfl⟩

/-! ## Statuses -/

section statuses

variable {σ : Type} {R : Runtime} {srv : Server σ}

/-- The registered pairs of identifiers. -/
def registered (f : Framework σ) : List (JsString × JsString) :=
  f.map fun r => (r.opType, r.opCommand)

/-- No handler throws. -/
def Total (f : Framework σ) : Prop := ∀ r ∈ f, ∀ msg s, (r.handler msg s).isSome

theorem canonical_eq_normalize (C : CaseMap) (t : JsString) :
    normalize C (some (.string t)) = some (canonical C t) := by
  unfold Base.normalize canonical
  cases t with
  | nil => rfl
  | cons u t => rfl

theorem normalize_command (C : CaseMap) {df : Value} (h : dataFixedFields.fits df = true) :
    normalize C (some (orText (property df (js "opCommand")) [])) =
      some (canonical C ((textOf (property df (js "opCommand"))).getD [])) := by
  rcases Schema.fits_text_or h (js "opCommand") (by simp [dataFixedFields]) with
    hnone | ⟨c, hc⟩
  · rw [hnone]
    rfl
  · rw [hc]
    exact canonical_eq_normalize C c

theorem lookup_typed (C : CaseMap) (f : Framework σ) {df : Value}
    (h : dataFixedFields.fits df = true) {t : JsString}
    (hop : property df (js "opType") = some (.string t)) :
    f.lookup C (property df (js "opType")) (some (orText (property df (js "opCommand")) [])) =
      some ((f.route (canonical C t)
        (canonical C ((textOf (property df (js "opCommand"))).getD []))).map Route.handler) := by
  rw [hop]
  simp only [Framework.lookup, canonical_eq_normalize, normalize_command C h, Option.bind_eq_bind,
    Option.bind_some, pure]

theorem mem_of_route {f : Framework σ} {t c : JsString} {r : Route σ} (h : f.route t c = some r) :
    r ∈ f := by
  rcases Option.or_eq_some_iff.mp h with hexact | ⟨-, hdefault⟩
  · exact List.mem_of_find?_eq_some hexact
  · exact List.mem_of_find?_eq_some hdefault

/-- What a request with fields of the right types comes to. -/
theorem processAction_typed (htotal : Total srv.framework) {body : JsString}
    {action data df : Value} (h : Accepts body action data df)
    (htyped : wellTyped action data df = true) {t : JsString}
    (hop : property df (js "opType") = some (.string t)) (s : σ) :
    (processAction R srv body s).1.map Reply.status =
      some (actionStatus R.caseMap (registered srv.framework)
        (some (t, (textOf (property df (js "opCommand"))).getD []))) := by
  obtain ⟨-, hdata, hdf⟩ := wellTyped_iff.mp htyped
  have hread := readRequestBody_eq_ok (R := R).mpr ⟨action, h⟩
  have hhandles := handles_iff R.caseMap srv.framework Route.opType Route.opCommand t
    ((textOf (property df (js "opCommand"))).getD [])
  have hprints : (property data (js "id")).all prints = true := by
    rcases Schema.fits_text_or hdata (js "id") (by simp [actionDataFields]) with hid | ⟨u, hid⟩
    · rw [hid]
      rfl
    · rw [hid]
      rfl
  unfold processAction
  rw [hread]
  simp only [lookup_typed R.caseMap srv.framework hdf hop, actionStatus, registered, hhandles]
  change _ = some (if (Framework.route srv.framework _ _).isSome then 200 else 501)
  cases hroute : srv.framework.route (canonical R.caseMap t)
      (canonical R.caseMap ((textOf (property df (js "opCommand"))).getD [])) with
  | none => rfl
  | some r =>
    obtain ⟨⟨res, s'⟩, hrun⟩ := Option.isSome_iff_exists.mp (htotal r (mem_of_route hroute)
      (orText (property df (js "originalMessage")) (js "0x")) s)
    simp only [Option.map_some, hrun, hprints, if_true, Option.isSome_some]

/-- A request that passes the checks is never answered with 400. -/
theorem processAction_accepted {body : JsString} {action data df : Value}
    (h : Accepts body action data df) (s : σ) :
    (processAction R srv body s).1.map Reply.status ≠ some 400 := by
  have hread := readRequestBody_eq_ok (R := R).mpr ⟨action, h⟩
  unfold processAction
  rw [hread]
  simp only
  split
  next => simp
  next => simp
  next =>
    split
    next => simp
    next =>
      split_ifs
      · simp
      · simp

theorem accepts_unique {body : JsString} {action data df action' data' df' : Value}
    (h : Accepts body action data df) (h' : Accepts body action' data' df') :
    action = action' ∧ data = data' ∧ df = df' := by
  obtain rfl := Option.some.inj (h.parsed.symm.trans h'.parsed)
  obtain rfl := Option.some.inj (h.hasData.symm.trans h'.hasData)
  obtain ⟨bytes, hhex, hdf⟩ := h.decoded
  obtain ⟨bytes', hhex', hdf'⟩ := h'.decoded
  obtain rfl := Except.ok.inj (hhex.symm.trans hhex')
  exact ⟨rfl, rfl, Option.some.inj (hdf.symm.trans hdf')⟩

/-- The status of an action is the one of the table just when the checks miss no wrong type. -/
theorem processAction_status_iff (htotal : Total srv.framework) (body : JsString) (s : σ) :
    (processAction R srv body s).1.map Reply.status = some (actionStatus R.caseMap
      (registered srv.framework) (identifiers parseBytes (parse body))) ↔
    ∀ action data df, Accepts body action data df → wellTyped action data df = true := by
  by_cases haccepts : ∃ action data df, Accepts body action data df
  · obtain ⟨action, data, df, h⟩ := haccepts
    cases htyped : wellTyped action data df with
    | true =>
      obtain ⟨-, -, hdf⟩ := wellTyped_iff.mp htyped
      have hop : ∃ t, property df (js "opType") = some (.string t) := by
        rcases Schema.fits_text_or hdf (js "opType") (by simp [dataFixedFields]) with hnone | hsome
        · have htruthy := h.hasOpType
          rw [hnone] at htruthy
          cases htruthy
        · exact hsome
      obtain ⟨t, hop⟩ := hop
      have hidentifiers := identifiers_eq_some_iff.mpr ⟨action, data, df, h, htyped, hop, rfl⟩
      refine iff_of_true ?_ fun action' data' df' h' => ?_
      · rw [hidentifiers]
        exact processAction_typed htotal h htyped hop s
      · obtain ⟨rfl, rfl, rfl⟩ := accepts_unique h h'
        exact htyped
    | false =>
      refine iff_of_false ?_ fun hall => by simp [hall _ _ _ h] at htyped
      have hnone : identifiers parseBytes (parse body) = none := by
        rw [Option.eq_none_iff_forall_ne_some]
        rintro ⟨t, c⟩ hsome
        obtain ⟨action', data', df', h', htyped', -⟩ := identifiers_eq_some_iff.mp hsome
        obtain ⟨rfl, rfl, rfl⟩ := accepts_unique h h'
        simp [htyped] at htyped'
      rw [hnone]
      exact processAction_accepted h s
  · have hnone : identifiers parseBytes (parse body) = none := by
      rw [Option.eq_none_iff_forall_ne_some]
      rintro ⟨t, c⟩ hsome
      obtain ⟨action, data, df, h, -⟩ := identifiers_eq_some_iff.mp hsome
      exact haccepts ⟨action, data, df, h⟩
    refine iff_of_true ?_ fun action data df h => absurd ⟨action, data, df, h⟩ haccepts
    rw [hnone]
    cases hread : readRequestBody R body with
    | error reply =>
      unfold processAction
      rw [hread]
      exact congrArg some (readRequestBody_error hread)
    | ok p =>
      obtain ⟨action, h⟩ := readRequestBody_eq_ok.mp hread
      exact absurd ⟨action, _, _, h⟩ haccepts

/-- The status of any request. -/
theorem status_iff (htotal : Total srv.framework) (method path body : JsString) (s : σ) :
    (handleRequest R srv method path body s).1.map Reply.status =
      some (status R.caseMap (registered srv.framework) parseBytes method path (parse body)) ↔
    (isAction method path → ∀ action data df, Accepts body action data df →
      wellTyped action data df = true) := by
  unfold handleRequest status isAction
  simp only
  split_ifs with hpath hmethod hpath' hmethod'
  · rw [processAction_status_iff htotal]
    exact ⟨fun h _ => h, fun h => h ⟨hpath, hmethod⟩⟩
  · exact iff_of_true rfl fun h => absurd h.2 hmethod
  · exact iff_of_true rfl fun h => absurd h.1 hpath
  · exact iff_of_true rfl fun h => absurd h.1 hpath
  · exact iff_of_true rfl fun h => absurd h.1 hpath

end statuses

end StealthWage.Base
