import StealthWage.GoGreeting
import StealthWage.InstructionSender

/-! # The Go extension

Both commands of the Go extension and its state. A string in Go is bytes: what an ABI decoder
hands over is kept as it is, and `encoding/json` decides what to print of it. -/
namespace StealthWage.Go
open Enclave (HandlerResult refuse)
open Js Json Utf8 Words

/-! ## Printing bytes -/

/-- How many bytes the rune takes that the bytes start with; 0 if they start with none. -/
def runeWidth : Bytes → ℕ
  | [] => 0
  | a :: s =>
    if a.val < 0x80 then 1
    else if 0xC2 ≤ a.val ∧ a.val ≤ 0xDF then
      match s with
      | b :: _ => if continues 0x80 0xBF b then 2 else 0
      | [] => 0
    else if 0xE0 ≤ a.val ∧ a.val ≤ 0xEF then
      match s with
      | b :: c :: _ =>
        if continues (if a.val = 0xE0 then 0xA0 else 0x80) (if a.val = 0xED then 0x9F else 0xBF) b &&
          continues 0x80 0xBF c then 3 else 0
      | _ => 0
    else if 0xF0 ≤ a.val ∧ a.val ≤ 0xF4 then
      match s with
      | b :: c :: d :: _ =>
        if continues (if a.val = 0xF0 then 0x90 else 0x80) (if a.val = 0xF4 then 0x8F else 0xBF) b &&
          continues 0x80 0xBF c && continues 0x80 0xBF d then 4 else 0
      | _ => 0
    else 0

/-- What `json.Marshal` puts between the quotes. A byte that starts no rune becomes an escape. -/
def marshalBytes : Bytes → JsString
  | [] => []
  | a :: s =>
    let width := runeWidth (a :: s)
    if width = 0 then js "\\ufffd" ++ marshalBytes s
    else (decodeRunes ((a :: s).take width)).flatMap htmlEscape ++ marshalBytes (s.drop (width - 1))
  termination_by b => b.length
  decreasing_by
    · exact Nat.lt_succ_self _
    · simp only [List.length_drop, List.length_cons]
      omega

/-- `json.Marshal` of a text and its number under two tags. -/
def numberedBytes (textTag numberTag : JsString) (content : Bytes) (n : ℕ) : JsString :=
  123 :: (htmlQuote textTag ++ 58 :: 34 :: (marshalBytes content ++ 34 :: 44 ::
    (htmlQuote numberTag ++ 58 :: (decimal n ++ [125]))))

/-! ## The extension -/

structure Extension where
  greetings : State
  farewellCount : ℕ
  lastFarewell : Bytes

def Extension.initial : Extension := ⟨State.initial, 0, []⟩

/-- `fmt.Sprintf("Goodbye, %s! Reason: %s", …)` -/
def farewellOf (name reason : Bytes) : Bytes :=
  encode (js "Goodbye, ") ++ (name ++ (encode (js "! Reason: ") ++ reason))

/-- The ABI decoder is a library's, with the text of its error. -/
def processSayGoodbye (decodeTo : Bytes → Except JsString (Bytes × Bytes)) (originalMessage : Bytes)
    (e : Extension) : HandlerResult × Extension :=
  match decodeTo originalMessage with
  | .error text => (refuse (js "decoding request: " ++ text), e)
  | .ok ([], _) => (refuse (js "name must not be empty"), e)
  | .ok (b :: name, reason) =>
    let count := e.farewellCount + 1
    let farewell := farewellOf (b :: name) reason
    (⟨some (bytesToHex (encode (numberedBytes (js "farewell") (js "farewellNumber") farewell
      count))), 1, none⟩, { e with farewellCount := count, lastFarewell := farewell })

/-- `teeutils.ToHash` -/
def toHash (s : JsString) : Word := Fin.ofNat _ (value (Base.padded s))

/-- `processGreeting`; `none` is the reply 501. -/
def processGreeting (decodeError : Bytes → JsString)
    (decodeTo : Bytes → Except JsString (Bytes × Bytes)) (opCommand : Word) (originalMessage : Bytes)
    (e : Extension) : Option (HandlerResult × Extension) :=
  if opCommand = toHash App.opCommandSayHello then
    let r := processSayHello decodeError originalMessage e.greetings
    some (r.1, { e with greetings := r.2 })
  else if opCommand = toHash App.opCommandSayGoodbye then
    some (processSayGoodbye decodeTo originalMessage e)
  else none

/-- The switch of `processAction` on what `DataFixed` says. -/
def processDataFixed (decodeError : Bytes → JsString)
    (decodeTo : Bytes → Except JsString (Bytes × Bytes)) (opType opCommand : Word)
    (originalMessage : Bytes) (e : Extension) : Option (HandlerResult × Extension) :=
  if opType = toHash App.opTypeGreeting then
    processGreeting decodeError decodeTo opCommand originalMessage e
  else none

end StealthWage.Go
