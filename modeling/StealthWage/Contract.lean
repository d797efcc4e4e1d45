import StealthWage.Server

/-! # The contract of the HTTP surface

What the table of statuses promises of a request. The shapes of the fields are data; the reader
of the hidden JSON and the registered operations are parameters, so that the table can be held
against either server. -/
namespace StealthWage.Contract
open Base Js Json Words

/-! ## Shapes -/

inductive Shape
  | text
  | number
  | texts
  | numbers

def isText : Value → Bool
  | .string _ => true
  | _ => false

def isNumber : Value → Bool
  | .number _ => true
  | _ => false

def Shape.fits : Shape → Value → Bool
  | .text, v => isText v
  | .number, v => isNumber v
  | .texts, .array items => items.all isText
  | .numbers, .array items => items.all isNumber
  | _, _ => false

abbrev Schema := List (JsString × Shape)

/-- No field that is present has another shape. -/
def Schema.fits (fields : Schema) (v : Value) : Bool :=
  fields.all fun f => (property v f.1).all f.2.fits

def actionFields : Schema :=
  [(js "additionalVariableMessages", .texts), (js "timestamps", .numbers),
    (js "additionalActionData", .text), (js "signatures", .texts)]

def actionDataFields : Schema :=
  [(js "id", .text), (js "type", .text), (js "submissionTag", .text), (js "message", .text)]

def dataFixedFields : Schema :=
  [(js "instructionId", .text), (js "teeId", .text), (js "timestamp", .number),
    (js "rewardEpochId", .number), (js "opType", .text), (js "opCommand", .text),
    (js "cosigners", .texts), (js "cosignersThreshold", .number), (js "originalMessage", .text),
    (js "additionalFixedMessage", .text)]

def wellTyped (action data df : Value) : Bool :=
  actionFields.fits action && actionDataFields.fits data && dataFixedFields.fits df

/-! ## Statuses -/

def textOf : Option Value → Option JsString
  | some (.string s) => some s
  | _ => none

/-- The operation that a body asks for, if it is a valid action. -/
def identifiers (read : Bytes → Option Value) (body : Option Value) :
    Option (JsString × JsString) := do
  let action ← body
  let data ← property action (js "data")
  let message ← textOf (property data (js "message"))
  let bytes ← (hexToBytes message).toOption
  let df ← read bytes
  let opType ← textOf (property df (js "opType"))
  if wellTyped action data df ∧ opType ≠ [] then
    some (opType, (textOf (property df (js "opCommand"))).getD [])
  else none

/-- An identifier in lower-case hex. -/
def canonical (C : CaseMap) (s : JsString) : JsString :=
  if s = [] then emptyBytes32
  else
    let lower := C.toLowerCase s
    if startsWith0x lower then lower else js "0x" ++ lower

/-- Some registered operation has this type, and this command or none. -/
def handles (C : CaseMap) (registered : List (JsString × JsString)) (t c : JsString) : Bool :=
  registered.any fun p => p.1 = canonical C t ∧ (p.2 = canonical C c ∨ p.2 = emptyBytes32)

def actionStatus (C : CaseMap) (registered : List (JsString × JsString)) :
    Option (JsString × JsString) → ℕ
  | none => 400
  | some (t, c) => if handles C registered t c then 200 else 501

/-- `POST /action`, whatever follows a question mark. -/
def isAction (method path : JsString) : Prop :=
  path.takeWhile (· ≠ 63) = js "/action" ∧ method = js "POST"

/-- The table. -/
def status (C : CaseMap) (registered : List (JsString × JsString)) (read : Bytes → Option Value)
    (method path : JsString) (body : Option Value) : ℕ :=
  let path := path.takeWhile (· ≠ 63)
  if path = js "/action" then
    if method = js "POST" then actionStatus C registered (identifiers read body) else 405
  else if path = js "/state" then
    if method = js "GET" then 200 else 405
  else 404

/-- Operations by name, as `bytes32`. -/
def operations (names : List (String × String)) : List (JsString × JsString) :=
  names.map fun n => (bytesToHex (padded (js n.1)), bytesToHex (padded (js n.2)))

/-! ## What a valid action is -/

/-- Everything that the table asks of a body. -/
structure Valid (read : Bytes → Option Value) (body : Option Value) (action data df : Value)
    (message : JsString) (bytes : Bytes) (t : JsString) : Prop where
  parsed : body = some action
  hasData : property action (js "data") = some data
  hasMessage : property data (js "message") = some (.string message)
  hex : hexToBytes message = .ok bytes
  decoded : read bytes = some df
  hasOpType : property df (js "opType") = some (.string t)
  named : t ≠ []
  typed : wellTyped action data df = true

theorem textOf_eq_some {v : Option Value} {s : JsString} :
    textOf v = some s ↔ v = some (.string s) := by
  unfold textOf
  split <;> simp_all

theorem toOption_eq_some {ε α : Type} {x : Except ε α} {a : α} : x.toOption = some a ↔ x = .ok a := by
  cases x <;> simp [Except.toOption]

theorem identifiers_eq_some {read : Bytes → Option Value} {body : Option Value}
    {t c : JsString} :
    identifiers read body = some (t, c) ↔ ∃ action data df message bytes,
      Valid read body action data df message bytes t ∧
      c = (textOf (property df (js "opCommand"))).getD [] := by
  simp only [identifiers, Option.bind_eq_bind, Option.bind_eq_some_iff, textOf_eq_some,
    toOption_eq_some]
  constructor
  · rintro ⟨action, hbody, data, hdata, message, hmessage, bytes, hbytes, df, hdf, opType, hop, h⟩
    split_ifs at h with hvalid
    obtain ⟨rfl, rfl⟩ := Prod.mk.inj (Option.some.inj h)
    exact ⟨action, data, df, message, bytes,
      ⟨hbody, hdata, hmessage, hbytes, hdf, hop, hvalid.2, hvalid.1⟩, rfl⟩
  · rintro ⟨action, data, df, message, bytes, h, rfl⟩
    exact ⟨action, h.parsed, data, h.hasData, message, h.hasMessage, bytes, h.hex, df, h.decoded,
      t, h.hasOpType, if_pos ⟨h.typed, h.named⟩⟩

/-- The fields of a schema that fits, one by one. -/
theorem Schema.fits_text {fields : Schema} {v : Value} (h : fields.fits v = true) {key : JsString}
    (hkey : (key, Shape.text) ∈ fields) {w : Value} (hw : property v key = some w) :
    ∃ s, w = .string s := by
  have hfield := List.all_eq_true.mp h _ hkey
  rw [hw] at hfield
  cases w with
  | string s => exact ⟨s, rfl⟩
  | _ => exact absurd hfield (by simp [Shape.fits, isText])

/-- Absent or a string. -/
theorem Schema.fits_text_or {fields : Schema} {v : Value} (h : fields.fits v = true)
    (key : JsString) (hkey : (key, Shape.text) ∈ fields) :
    property v key = none ∨ ∃ s, property v key = some (.string s) := by
  cases hw : property v key with
  | none => exact .inl rfl
  | some w =>
    obtain ⟨s, rfl⟩ := fits_text h hkey hw
    exact .inr ⟨s, rfl⟩

theorem wellTyped_iff {action data df : Value} : wellTyped action data df = true ↔
    actionFields.fits action = true ∧ actionDataFields.fits data = true ∧
      dataFixedFields.fits df = true := by
  rw [wellTyped, Bool.and_eq_true, Bool.and_eq_true, and_assoc]

/-- A route is found where the table says that some operation handles the pair. -/
theorem handles_iff {ρ : Type} (C : CaseMap) (routes : List ρ) (opType opCommand : ρ → JsString)
    (t c : JsString) :
    handles C (routes.map fun r => (opType r, opCommand r)) t c =
      ((routes.find? fun r => opType r = canonical C t ∧ opCommand r = canonical C c).or
        (routes.find? fun r => opType r = canonical C t ∧ opCommand r = emptyBytes32)).isSome := by
  rw [Bool.eq_iff_iff, Option.isSome_or, Bool.or_eq_true, List.find?_isSome, List.find?_isSome,
    handles, List.any_map, List.any_eq_true]
  simp only [Function.comp_apply, decide_eq_true_eq]
  constructor
  · rintro ⟨r, hr, ht, hc | hc⟩
    · exact .inl ⟨r, hr, ht, hc⟩
    · exact .inr ⟨r, hr, ht, hc⟩
  · rintro (⟨r, hr, ht, hc⟩ | ⟨r, hr, ht, hc⟩)
    · exact ⟨r, hr, ht, .inl hc⟩
    · exact ⟨r, hr, ht, .inr hc⟩

end StealthWage.Contract
