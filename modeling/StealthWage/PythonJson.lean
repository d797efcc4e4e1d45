import StealthWage.Server

/-! # JSON in Python

`json.loads` of bytes guesses one of the Unicode encodings, lets surrogates pass, and knows three
more numbers than JSON. Text is kept in UTF-16 units here as well. -/
namespace StealthWage.Python
open Base Js Json Utf8 Words

/-! ## Encodings -/

inductive Encoding
  | utf8
  | utf8Sig
  | utf16 (big : Bool)
  | utf32 (big : Bool)
  deriving DecidableEq

/-- The encoding, and how many bytes its mark takes. -/
def detectEncoding (b : Bytes) : Encoding × ℕ :=
  if [0, 0, 0xFE, 0xFF].isPrefixOf b then (.utf32 true, 4)
  else if [0xFF, 0xFE, 0, 0].isPrefixOf b then (.utf32 false, 4)
  else if [0xFE, 0xFF].isPrefixOf b then (.utf16 true, 2)
  else if [0xFF, 0xFE].isPrefixOf b then (.utf16 false, 2)
  else if [0xEF, 0xBB, 0xBF].isPrefixOf b then (.utf8Sig, 3)
  else
    match b with
    | [b0, b1] => if b0 = 0 then (.utf16 true, 0) else if b1 = 0 then (.utf16 false, 0) else (.utf8, 0)
    | b0 :: b1 :: b2 :: b3 :: _ =>
      if b0 = 0 then (if b1 = 0 then .utf32 true else .utf16 true, 0)
      else if b1 = 0 then (if b2 = 0 ∧ b3 = 0 then .utf32 false else .utf16 false, 0)
      else (.utf8, 0)
    | _ => (.utf8, 0)

def continuation (b : Byte) : Bool := 0x80 ≤ b.val && b.val < 0xC0

/-- Strict UTF-8, surrogates included. -/
def decodeUtf8 : Bytes → Option JsString
  | [] => some []
  | a :: s =>
    if a.val < 0x80 then (decodeUtf8 s).map (unit a.val :: ·)
    else if a.val < 0xC2 then none
    else if a.val < 0xE0 then
      match s with
      | b :: t =>
        if continuation b then
          (decodeUtf8 t).map (unit (a.val % 32 * 64 + b.val % 64) :: ·)
        else none
      | [] => none
    else if a.val < 0xF0 then
      match s with
      | b :: c :: t =>
        let point := a.val % 16 * 4096 + b.val % 64 * 64 + c.val % 64
        if continuation b && continuation c && 0x800 ≤ point then
          (decodeUtf8 t).map (unit point :: ·)
        else none
      | _ => none
    else if a.val < 0xF5 then
      match s with
      | b :: c :: d :: t =>
        let point := a.val % 8 * 262144 + b.val % 64 * 4096 + c.val % 64 * 64 + d.val % 64
        if continuation b && continuation c && continuation d && 0x10000 ≤ point &&
            point < 0x110000 then
          (decodeUtf8 t).map (utf16 point ++ ·)
        else none
      | _ => none
    else none

def decodeUtf16 (big : Bool) : Bytes → Option JsString
  | [] => some []
  | a :: b :: s =>
    (decodeUtf16 big s).map (unit (if big then a.val * 256 + b.val else b.val * 256 + a.val) :: ·)
  | [_] => none

def decodeUtf32 (big : Bool) : Bytes → Option JsString
  | [] => some []
  | a :: b :: c :: d :: s =>
    let point := if big then value [a, b, c, d] else value [d, c, b, a]
    if point < 0x110000 then (decodeUtf32 big s).map (utf16 point ++ ·) else none
  | _ => none

/-- `b.decode(detect_encoding(b), 'surrogatepass')` -/
def decodeBytes (b : Bytes) : Option JsString :=
  match detectEncoding b with
  | (.utf8, n) => decodeUtf8 (b.drop n)
  | (.utf8Sig, n) => decodeUtf8 (b.drop n)
  | (.utf16 big, n) => decodeUtf16 big (b.drop n)
  | (.utf32 big, n) => decodeUtf32 big (b.drop n)

/-! ## Values -/

/-- A word that stands for a number. -/
def constant (word s : JsString) : Option (Value × JsString) :=
  (literal word s).map fun r => (.number word, r)

/-- An integer of more than 4300 digits is a `ValueError`. -/
def shortEnough (text : JsString) : Bool :=
  !(text.all fun u => isDigit u || u = 45) || (text.filter isDigit).length ≤ 4300

def pyScalar (s : JsString) : Option (Value × JsString) :=
  match constant (js "NaN") s, constant (js "Infinity") s, constant (js "-Infinity") s with
  | some p, _, _ => some p
  | _, some p, _ => some p
  | _, _, some p => some p
  | none, none, none =>
    match scalar s with
    | some (.number text, r) => if shortEnough text then some (.number text, r) else none
    | p => p

/-- `json.loads` of text. -/
def loadsText (s : JsString) : Option Value :=
  match parseValue pyScalar (s.length + 1) s with
  | some (v, r) => if skipSpace r = [] then some v else none
  | none => none

/-- `json.loads` of bytes; every failure is a `ValueError`. -/
def loads (b : Bytes) : Option Value := (decodeBytes b).bind loadsText

/-- `not value` -/
def falsy : Value → Bool
  | .null => true
  | .bool b => !b
  | .number text => text.any isDigit && isZero text
  | .string s => s.isEmpty
  | .array items => items.isEmpty
  | .object members => members.isEmpty

/-- `value or other` -/
def orElse (v other : Value) : Value := if falsy v then other else v

/-- `d.get(key, default)` of a dictionary. -/
def get (members : List (JsString × Value)) (key : JsString) (default : Value) : Value :=
  ((members.find? fun m => m.1 = key).map Prod.snd).getD default

/-! ## Printing -/

/-- One unit of a string under `ensure_ascii`. -/
def asciiEscape (u : CodeUnit) : JsString :=
  if u.val < 32 ∨ u = 34 ∨ u = 92 then escape u
  else if u.val < 127 then [u]
  else unicodeEscape u

def asciiQuote (s : JsString) : JsString := 34 :: (s.flatMap asciiEscape ++ [34])

end StealthWage.Python
