import StealthWage.PythonHandlers
import StealthWage.PythonStatus
import StealthWage.Reference

/-! # The table of statuses, for the shipped handlers

The handlers answer whatever text they are given, so that only the checks of the two servers
decide whether the table holds. -/
namespace StealthWage.Contract
open Base (Accepts parseBytes)
open Enclave Js Json Utf8 Words

/-! ## The shipped handlers answer -/

theorem authorizeValue_isSome {H : App.Host} (hV : H.viem.Lawful) (hkeys : KeysWork H.toRuntime)
    (now : Clock) {tag : JsString}
    (htag : tag = Protocol.withdrawTag H.viem ∨ tag = Protocol.settleTag H.viem) (msg : Value)
    (s : App.State) : (App.authorizeValue H now tag msg s).isSome := by
  cases msg with
  | string text =>
    obtain ⟨res, st, hrun⟩ : ∃ res st, authorize H.toRuntime now text tag s.enclave =
        some (res, st) := authorize_isSome hV hkeys now s.enclave htag
    simp only [App.authorizeValue, hrun, Option.map_some, Option.isSome_some]
  | _ => rfl

theorem total_routes {H : App.Host} (hV : H.viem.Lawful) (hkeys : KeysWork H.toRuntime)
    (now : Clock) : Base.Total (App.routes H now) := by
  intro r hr msg s
  simp only [App.routes, List.mem_cons, List.not_mem_nil, or_false] at hr
  obtain rfl | rfl | rfl | rfl := hr
  · rfl
  · rfl
  · exact authorizeValue_isSome hV hkeys now (.inl rfl) msg s
  · exact authorizeValue_isSome hV hkeys now (.inr rfl) msg s

theorem handleSayHello_ok (I : Python.Interpreter) (text : JsString) (s : Python.State) :
    ∃ p, Python.handleSayHello I (.string text) s = .ok p := by
  have hread : ∃ r, Python.readHello I (.string text) = .ok r := by
    unfold Python.readHello
    rcases Python.hexToBytes_optionalText I (.inr ⟨text, rfl⟩) with ⟨b, hb⟩ | ⟨e, he, hkind⟩
    · rw [hb]
      simp only
      split
      · exact ⟨_, rfl⟩
      · split
        · exact ⟨_, rfl⟩
        · split_ifs
          · exact ⟨_, rfl⟩
          · exact ⟨_, rfl⟩
      · exact ⟨_, rfl⟩
    · rw [he]
      exact ⟨_, if_pos hkind⟩
  obtain ⟨r, hr⟩ := hread
  unfold Python.handleSayHello
  rw [hr]
  cases r with
  | error text => exact ⟨_, rfl⟩
  | ok name => exact ⟨_, rfl⟩

theorem handleSayGoodbye_ok (I : Python.Interpreter) (text : JsString) (s : Python.State) :
    ∃ p, Python.handleSayGoodbye I (.string text) s = .ok p := by
  unfold Python.handleSayGoodbye
  rcases Python.hexToBytes_optionalText I (.inr ⟨text, rfl⟩) with ⟨b, hb⟩ | ⟨e, he, hkind⟩
  · rw [hb]
    simp only
    split
    · exact ⟨_, rfl⟩
    · exact ⟨_, rfl⟩
    · exact ⟨_, rfl⟩
  · rw [he]
    exact ⟨_, if_pos hkind⟩

theorem totalOnText_routes (I : Python.Interpreter) : Python.TotalOnText (Python.routes I) := by
  intro r hr text s
  simp only [Python.routes, List.mem_cons, List.not_mem_nil, or_false] at hr
  obtain rfl | rfl := hr
  · exact handleSayHello_ok I text s
  · exact handleSayGoodbye_ok I text s

/-! ## The table -/

/-- What the TypeScript handlers register. -/
def shippedOperations : List (JsString × JsString) :=
  operations [("GREETING", "SAY_HELLO"), ("GREETING", "SAY_GOODBYE"), ("STREAM", "AUTH_WITHDRAW"),
    ("STREAM", "AUTH_SETTLE")]

/-- What the Python handlers register. -/
def greetingOperations : List (JsString × JsString) :=
  operations [("GREETING", "SAY_HELLO"), ("GREETING", "SAY_GOODBYE")]

theorem registered_routes (H : App.Host) (now : Clock) :
    Base.registered (App.routes H now) = shippedOperations := rfl

theorem registered_routes_python (I : Python.Interpreter) :
    Python.registered (Python.routes I) = greetingOperations := rfl

/-- Either server keeps to the table, and does not throw, exactly where its own checks of a body
are as strict as the contract. -/
theorem status_table {H : App.Host} (hV : H.viem.Lawful) (hkeys : KeysWork H.toRuntime)
    (now : Clock) (I : Python.Interpreter) (method path body : JsString) (raw : Bytes)
    (s : App.State) (st : Python.State) :
    ((Base.handleRequest H.toRuntime (App.shipped H now) method path body s).1.map
        Base.Reply.status =
          some (status H.caseMap shippedOperations parseBytes method path (parse body)) ↔
      (isAction method path → ∀ action data df, Accepts body action data df →
        wellTyped action data df = true)) ∧
    ((Python.handleRequest I (Python.shipped I) method path raw st).1.map Python.Reply.status =
          .ok (status I.caseMap greetingOperations Python.loads method path (Python.loads raw)) ↔
      (isAction method path → Python.Answerable I raw)) :=
  ⟨Base.status_iff (total_routes hV hkeys now) method path body s,
    Python.status_iff (totalOnText_routes I) method path raw st⟩

/-! ## Two requests -/

/-- A host whose signer answers to any key; it has no ABI library. -/
def host : App.Host where
  toRuntime := { Reference.coston2Runtime with
    viem := Reference.viem Reference.keccak256 Reference.recoverMessageAddress fun key raw =>
      some ((Reference.signMessage key raw).getD (js "0x")) }
  decodeStrings := fun _ => .error (js "out of bounds")

theorem keysWork_host : KeysWork host.toRuntime := fun _ _ _ => rfl

/-- The data of an action with these members in its DataFixed. -/
def dataOf (df : List (JsString × Value)) : Value :=
  .object [(js "id", .string (js "0x01")), (js "submissionTag", .string (js "submit")),
    (js "message", .string (bytesToHex (encode (Json.text id (.object df)))))]

def posted (df : List (JsString × Value)) : JsString := Json.text id (.object [(js "data", dataOf df)])

def helloFields : List (JsString × JsString) :=
  [(js "opType", bytesToHex (Base.padded (js "GREETING"))),
    (js "opCommand", bytesToHex (Base.padded (js "SAY_HELLO")))]

def hello : JsString := posted (asValues helloFields)

theorem status_table_hello :
    (∀ action data df, Accepts hello action data df → wellTyped action data df = true) ∧
      Python.Answerable Python.bare (encode hello) := by
  have htable := status_table (H := host) (Reference.viem_lawful _ _ _) keysWork_host
    ⟨1100, by decide⟩ Python.bare (js "POST") (js "/action") hello (encode hello)
    App.State.initial Python.State.initial
  have haction : isAction (js "POST") (js "/action") := ⟨by decide, rfl⟩
  exact ⟨htable.1.mp (by decide +kernel) haction,
    htable.2.mp (toOption_eq_some.mp (by decide +kernel)) haction⟩

/-- A number for the type of the operation. -/
def numbered : JsString := posted [(js "opType", .number (js "5"))]

theorem number_counterexample :
    (Base.handleRequest host.toRuntime (App.shipped host ⟨1100, by decide⟩) (js "POST")
        (js "/action") numbered App.State.initial).1.map Base.Reply.status ≠
      some (status host.caseMap shippedOperations parseBytes (js "POST") (js "/action")
        (parse numbered)) ∧
    (Python.handleRequest Python.bare (Python.shipped Python.bare) (js "POST") (js "/action")
        (encode numbered) Python.State.initial).1.map Python.Reply.status ≠
      .ok (status Python.bare.caseMap greetingOperations Python.loads (js "POST") (js "/action")
        (Python.loads (encode numbered))) := by
  refine ⟨by decide +kernel, fun h => ?_⟩
  have hoption := congrArg Except.toOption h
  revert hoption
  decide +kernel

end StealthWage.Contract
