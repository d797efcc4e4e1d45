import StealthWage.StatusTable

/-! # The fields of a result

What `JSON.stringify` leaves of the object that the server builds, next to the dictionary that
Python builds for the same action. -/
namespace StealthWage.Contract
open Base (property)
open Enclave Js Json Utf8 Words

/-- The log that goes with a status. -/
structure LogFits (status : ℕ) (log : JsString) : Prop where
  done : status = 1 → log = js "ok"
  failed : status = 0 → js "error: " <+: log
  running : status ≠ 0 → status ≠ 1 → log = js "pending"

/-- All nine fields in the order of the contract: the identifiers are echoed, an absent command is
the empty one, and there is data even where the handler gave none. -/
def Complete (version : JsString) (data df : Value) (res : HandlerResult)
    (fields : List (JsString × Value)) : Prop :=
  ∃ id submissionTag opType log,
    fields = [(js "id", id), (js "submissionTag", submissionTag),
      (js "status", .number (decimal res.status)), (js "log", .string log),
      (js "opType", opType), (js "opCommand", (property df (js "opCommand")).getD (.string [])),
      (js "additionalResultStatus", .string (js "0x")), (js "version", .string version),
      (js "data", .string (res.data.getD (js "0x")))] ∧
    property data (js "id") = some id ∧ property data (js "submissionTag") = some submissionTag ∧
    property df (js "opType") = some opType ∧ LogFits res.status log

section results

variable {σ τ : Type} {R : Runtime} {srv : Base.Server σ}

/-- The server runs a handler for the body, and this is what the handler returns. -/
structure Runs (R : Runtime) (srv : Base.Server σ) (body : JsString) (s : σ) (data df : Value)
    (res : HandlerResult) (s' : σ) : Prop where
  read : Base.readRequestBody R body = .ok (data, df)
  handled : ∃ handler, srv.framework.lookup R.caseMap (property df (js "opType"))
      (some (Base.orText (property df (js "opCommand")) [])) = some (some handler) ∧
    handler (Base.orText (property df (js "originalMessage")) (js "0x")) s = some (res, s')

/-- What is written of a result that has all its identifiers. -/
theorem kept_members {r : Base.ActionResult} {id submissionTag opType opCommand : Value}
    (hid : r.id = some id) (htag : r.submissionTag = some submissionTag)
    (ht : r.opType = some opType) (hc : r.opCommand = some opCommand) :
    Base.kept r.members = [(js "id", id), (js "submissionTag", submissionTag),
      (js "status", .number (decimal r.status)), (js "log", .string r.log), (js "opType", opType),
      (js "opCommand", opCommand), (js "additionalResultStatus", .string r.additionalResultStatus),
      (js "version", .string r.version), (js "data", .string r.data)] := by
  simp only [Base.kept, Base.ActionResult.members, hid, htag, ht, hc, List.filterMap_cons,
    List.filterMap_nil, Option.map_some]

theorem Complete.text {version : JsString} {data df : Value} {res : HandlerResult}
    {members : List (JsString × Option Value)}
    (h : Complete version data df res (Base.kept members)) (numberText : JsString → JsString) :
    (Base.Payload.json members).body numberText =
      Json.text numberText (.object (orderedMembers (Base.kept members))) := by
  obtain ⟨id, submissionTag, opType, log, hfields, -⟩ := h
  -- no field has a key that is an array index
  rw [Base.Payload.body, hfields]
  rfl

theorem processAction_runs {body : JsString} {s s' : σ} {data df : Value} {res : HandlerResult}
    (h : Runs R srv body s data df res s') :
    Base.processAction R srv body s =
      if (property data (js "id")).all Base.prints then
        (some ⟨200, .json (Base.resultOf srv data df res).members⟩, s')
      else (none, s') := by
  obtain ⟨handler, hlookup, hrun⟩ := h.handled
  unfold Base.processAction
  rw [h.read]
  simp only [hlookup, hrun]

/-- What is sent, if anything is. -/
theorem sent_iff {body : JsString} {s s' : σ} {data df : Value} {res : HandlerResult}
    (h : Runs R srv body s data df res s') (members : List (JsString × Option Value)) :
    Base.handleRequest R srv (js "POST") (js "/action") body s =
        (some ⟨200, .json members⟩, s') ↔
      (property data (js "id")).all Base.prints ∧
        members = (Base.resultOf srv data df res).members := by
  have hhandle : Base.handleRequest R srv (js "POST") (js "/action") body s =
      Base.processAction R srv body s := rfl
  rw [hhandle, processAction_runs h]
  split_ifs with hprints
  · simp only [hprints, Prod.mk.injEq, Option.some.injEq, Base.Reply.mk.injEq,
      Base.Payload.json.injEq, true_and, and_true]
    exact eq_comm
  · simp [hprints]

end results

/-! ## Two results -/

end StealthWage.Contract
