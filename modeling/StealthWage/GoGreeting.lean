import StealthWage.Handlers

/-! # The greeting in Go

`processSayHello`, with what `encoding/json` does for it: the decoder reads the first value of the
bytes into a struct, and the encoder escapes what HTML would take for markup. -/
namespace StealthWage.Go
open App (greetingOf)
open Enclave (HandlerResult refuse)
open Js Json Utf8 Words

/-! ## Decoding -/

def continues (lower upper : ℕ) (b : Byte) : Bool := lower ≤ b.val && b.val ≤ upper

/-- The runes of the bytes. A byte that starts none becomes U+FFFD, by itself. -/
def decodeRunes : Bytes → JsString
  | [] => []
  | a :: s =>
    if a.val < 0x80 then unit a.val :: decodeRunes s
    else if 0xC2 ≤ a.val ∧ a.val ≤ 0xDF then
      match s with
      | b :: t =>
        if continues 0x80 0xBF b then
          unit ((a.val - 0xC0) * 64 + (b.val - 0x80)) :: decodeRunes t
        else replacement :: decodeRunes (b :: t)
      | [] => [replacement]
    else if 0xE0 ≤ a.val ∧ a.val ≤ 0xEF then
      match s with
      | b :: c :: t =>
        if continues (if a.val = 0xE0 then 0xA0 else 0x80) (if a.val = 0xED then 0x9F else 0xBF) b &&
            continues 0x80 0xBF c then
          unit (((a.val - 0xE0) * 64 + (b.val - 0x80)) * 64 + (c.val - 0x80)) :: decodeRunes t
        else replacement :: decodeRunes (b :: c :: t)
      | [b] => replacement :: decodeRunes [b]
      | [] => [replacement]
    else if 0xF0 ≤ a.val ∧ a.val ≤ 0xF4 then
      match s with
      | b :: c :: d :: t =>
        if continues (if a.val = 0xF0 then 0x90 else 0x80) (if a.val = 0xF4 then 0x8F else 0xBF) b &&
            continues 0x80 0xBF c && continues 0x80 0xBF d then
          utf16 ((((a.val - 0xF0) * 64 + (b.val - 0x80)) * 64 + (c.val - 0x80)) * 64 +
            (d.val - 0x80)) ++ decodeRunes t
        else replacement :: decodeRunes (b :: c :: d :: t)
      | [b, c] => replacement :: decodeRunes [b, c]
      | [b] => replacement :: decodeRunes [b]
      | [] => [replacement]
    else replacement :: decodeRunes s

/-- What a Go string holds of an escape that is half of a pair. -/
def replaceLone : JsString → JsString
  | [] => []
  | [u] => [if isHigh u || isLow u then replacement else u]
  | a :: b :: s =>
    if isHigh a && isLow b then a :: b :: replaceLone s
    else (if isHigh a || isLow a then replacement else a) :: replaceLone (b :: s)

/-- The field that a key names; letter case does not count. -/
def namesName (key : JsString) : Bool := key.map lowerUnit = js "name"

/-- The members of the object that the text starts with, repeated keys included. -/
def rawMembers (s : JsString) : Option (List (JsString × Value)) :=
  match skipSpace s with
  | [] => none
  | u :: t =>
    if u = 123 then
      if (skipSpace t).head? = some 125 then some []
      else (parseMembers scalar s.length t).map Prod.fst
    else none

/-- The members one after the other into `Name`; an unknown field and a value that is neither a
string nor `null` are errors. -/
def setName (name : JsString) : List (JsString × Value) → Option JsString
  | [] => some name
  | (key, v) :: ms =>
    if namesName key then
      match v with
      | .string s => setName (replaceLone s) ms
      | .null => setName name ms
      | _ => none
    else none

/-- `Decode` of a new decoder: the first value, whatever follows it. -/
def decodeHello (b : Bytes) : Option JsString :=
  let s := decodeRunes b
  match parseValue scalar (s.length + 1) s with
  | some (.null, _) => some []
  | some (.object _, _) => (rawMembers s).bind (setName [])
  | _ => none

/-! ## Encoding -/

def htmlEscape (u : CodeUnit) : JsString :=
  if u = 8 then js "\\b"
  else if u = 9 then js "\\t"
  else if u = 10 then js "\\n"
  else if u = 12 then js "\\f"
  else if u = 13 then js "\\r"
  else if u = 34 then js "\\\""
  else if u = 92 then js "\\\\"
  else if u.val < 32 ∨ u = 60 ∨ u = 62 ∨ u = 38 ∨ u = 0x2028 ∨ u = 0x2029 then unicodeEscape u
  else [u]

def htmlQuote (s : JsString) : JsString := 34 :: (s.flatMap htmlEscape ++ [34])

/-- `json.Marshal` of a text and its number under two tags. -/
def numbered (textTag numberTag content : JsString) (n : ℕ) : JsString :=
  123 :: (htmlQuote textTag ++ 58 :: (htmlQuote content ++ 44 :: (htmlQuote numberTag ++
    58 :: (decimal n ++ [125]))))

/-! ## The handler -/

structure State where
  greetingCount : ℕ
  lastGreeting : JsString

def State.initial : State := ⟨0, []⟩

/-- The text of a decoder's error is the library's. -/
def processSayHello (decodeError : Bytes → JsString) (originalMessage : Bytes) (s : State) :
    HandlerResult × State :=
  match decodeHello originalMessage with
  | none => (refuse (js "decoding request: " ++ decodeError originalMessage), s)
  | some [] => (refuse (js "name must not be empty"), s)
  | some (u :: name) =>
    let count := s.greetingCount + 1
    let greeting := greetingOf (u :: name)
    (⟨some (bytesToHex (encode (numbered (js "greeting") (js "greetingNumber") greeting count))), 1,
      none⟩, { s with greetingCount := count, lastGreeting := greeting })

end StealthWage.Go
