import StealthWage.Utf8

/-! # JSON text

`parse` is the language's grammar of `JSON.parse`, with its rule for repeated keys, and
`stringify` what `JSON.stringify` makes of an object whose members are strings. A number is
kept as it is written. -/
namespace StealthWage.Json
open Js Utf8 Words

inductive Value
  | null
  | bool (b : Bool)
  | number (text : JsString)
  | string (s : JsString)
  | array (items : List Value)
  | object (members : List (JsString × Value))

/-! ## Parsing -/

def skipSpace (s : JsString) : JsString := s.dropWhile fun u => u = 9 || u = 10 || u = 13 || u = 32

/-- The character after a backslash, `u` apart. -/
def escaped (e : CodeUnit) : Option CodeUnit :=
  if e = 34 ∨ e = 92 ∨ e = 47 then some e
  else if e = 98 then some 8
  else if e = 102 then some 12
  else if e = 110 then some 10
  else if e = 114 then some 13
  else if e = 116 then some 9
  else none

def hex4 (a b c d : CodeUnit) : Option CodeUnit := do
  let x ← hexDigit? a
  let y ← hexDigit? b
  let z ← hexDigit? c
  let w ← hexDigit? d
  return unit (4096 * x.val + 256 * y.val + 16 * z.val + w.val)

/-- A string after its opening quote: the content, and what follows the closing quote. -/
def stringBody : JsString → Option (JsString × JsString)
  | [] => none
  | u :: s =>
    if u = 34 then some ([], s)
    else if u = 92 then
      match s with
      | [] => none
      | e :: t =>
        if e = 117 then
          match t with
          | a :: b :: c :: d :: r =>
            match hex4 a b c d, stringBody r with
            | some x, some p => some (x :: p.1, p.2)
            | _, _ => none
          | _ => none
        else
          match escaped e, stringBody t with
          | some x, some p => some (x :: p.1, p.2)
          | _, _ => none
    else if u.val < 32 then none
    else (stringBody s).map fun p => (u :: p.1, p.2)

def isDigit (u : CodeUnit) : Bool := 48 ≤ u.val && u.val ≤ 57

/-- One or more digits; what follows them. -/
def someDigits : JsString → Option JsString
  | u :: s => if isDigit u then some (s.dropWhile isDigit) else none
  | [] => none

def integerPart : JsString → Option JsString
  | u :: s => if u = 48 then some s else someDigits (u :: s)
  | [] => none

def fraction : JsString → Option JsString
  | u :: s => if u = 46 then someDigits s else some (u :: s)
  | [] => some []

def exponent : JsString → Option JsString
  | u :: s =>
    if u = 101 ∨ u = 69 then
      match s with
      | v :: t => if v = 43 ∨ v = 45 then someDigits t else someDigits s
      | [] => none
    else some (u :: s)
  | [] => some []

/-- What follows a number. -/
def number (s : JsString) : Option JsString := do
  let s := if s.head? = some 45 then s.tail else s
  let s ← integerPart s
  let s ← fraction s
  exponent s

/-- What follows the literal `word`. -/
def literal (word s : JsString) : Option JsString :=
  if word.isPrefixOf s then some (s.drop word.length) else none

/-- A repeated key keeps its first place and takes the last value. -/
def assign (members : List (JsString × Value)) (m : JsString × Value) : List (JsString × Value) :=
  if members.any fun p => p.1 = m.1 then
    members.map fun p => if p.1 = m.1 then m else p
  else members ++ [m]

/-- A value that starts with neither a quote nor a bracket, and what follows it. -/
def scalar : JsString → Option (Value × JsString)
  | [] => none
  | u :: t =>
    if u = 116 then (literal (js "true") (u :: t)).map fun r => (.bool true, r)
    else if u = 102 then (literal (js "false") (u :: t)).map fun r => (.bool false, r)
    else if u = 110 then (literal (js "null") (u :: t)).map fun r => (.null, r)
    else (number (u :: t)).map fun r => (.number ((u :: t).take (t.length + 1 - r.length)), r)

section grammar

variable (scalar : JsString → Option (Value × JsString))

mutual

/-- A value and what follows it, for a reader of scalars; every call consumes a character, so the
length of the text plus one is fuel enough. -/
def parseValue : ℕ → JsString → Option (Value × JsString)
  | 0, _ => none
  | n + 1, s =>
    match skipSpace s with
    | [] => none
    | u :: t =>
      if u = 34 then (stringBody t).map fun p => (.string p.1, p.2)
      else if u = 123 then
        if (skipSpace t).head? = some 125 then some (.object [], (skipSpace t).tail)
        else (parseMembers n t).map fun p => (.object (p.1.foldl assign []), p.2)
      else if u = 91 then
        if (skipSpace t).head? = some 93 then some (.array [], (skipSpace t).tail)
        else (parseItems n t).map fun p => (.array p.1, p.2)
      else scalar (u :: t)

/-- The members of an object that is not empty, up to the closing brace. -/
def parseMembers : ℕ → JsString → Option (List (JsString × Value) × JsString)
  | 0, _ => none
  | n + 1, s =>
    match skipSpace s with
    | [] => none
    | q :: t =>
      if q = 34 then
        match stringBody t with
        | none => none
        | some (key, r) =>
          match skipSpace r with
          | [] => none
          | c :: r =>
            if c = 58 then
              match parseValue n r with
              | none => none
              | some (v, r) =>
                match skipSpace r with
                | [] => none
                | e :: r =>
                  if e = 125 then some ([(key, v)], r)
                  else if e = 44 then (parseMembers n r).map fun p => ((key, v) :: p.1, p.2)
                  else none
            else none
      else none

def parseItems : ℕ → JsString → Option (List Value × JsString)
  | 0, _ => none
  | n + 1, s =>
    match parseValue n s with
    | none => none
    | some (v, r) =>
      match skipSpace r with
      | [] => none
      | e :: r =>
        if e = 93 then some ([v], r)
        else if e = 44 then (parseItems n r).map fun p => (v :: p.1, p.2)
        else none

end

end grammar

/-- `JSON.parse`; `none` is the SyntaxError. -/
def parse (s : JsString) : Option Value :=
  match parseValue scalar (s.length + 1) s with
  | some (v, r) => if skipSpace r = [] then some v else none
  | none => none

/-! ## Printing -/

def unicodeEscape (u : CodeUnit) : JsString :=
  js "\\u" ++ [hexDigit ⟨u.val / 4096, by omega⟩, hexDigit ⟨u.val / 256 % 16, by omega⟩,
    hexDigit ⟨u.val / 16 % 16, by omega⟩, hexDigit ⟨u.val % 16, by omega⟩]

/-- One unit of a quoted string, surrogates included when they stand alone. -/
def escape (u : CodeUnit) : JsString :=
  if u = 8 then js "\\b"
  else if u = 9 then js "\\t"
  else if u = 10 then js "\\n"
  else if u = 12 then js "\\f"
  else if u = 13 then js "\\r"
  else if u = 34 then js "\\\""
  else if u = 92 then js "\\\\"
  else if u.val < 32 ∨ isHigh u ∨ isLow u then unicodeEscape u
  else [u]

def quoteBody : JsString → JsString
  | [] => []
  | [u] => escape u
  | a :: b :: s =>
    if isHigh a && isLow b then a :: b :: quoteBody s else escape a ++ quoteBody (b :: s)

def quote (s : JsString) : JsString := 34 :: (quoteBody s ++ [34])

def memberText (m : JsString × JsString) : JsString := quote m.1 ++ 58 :: quote m.2

def membersText : List (JsString × JsString) → JsString
  | [] => [125]
  | [m] => memberText m ++ [125]
  | m :: ms => memberText m ++ 44 :: membersText ms

def stringify (members : List (JsString × JsString)) : JsString := 123 :: membersText members

section printing

variable (numberText : JsString → JsString)

mutual

/-- What `JSON.stringify` makes of a value; a number prints as the text of its double. -/
def text : Value → JsString
  | .null => js "null"
  | .bool true => js "true"
  | .bool false => js "false"
  | .number t => numberText t
  | .string s => quote s
  | .array [] => [91, 93]
  | .array (v :: vs) => 91 :: (text v ++ itemsTail vs)
  | .object [] => [123, 125]
  | .object (m :: ms) => 123 :: (quote m.1 ++ 58 :: (text m.2 ++ membersTail ms))

/-- What follows the first item. -/
def itemsTail : List Value → JsString
  | [] => [93]
  | v :: vs => 44 :: (text v ++ itemsTail vs)

def membersTail : List (JsString × Value) → JsString
  | [] => [125]
  | m :: ms => 44 :: (quote m.1 ++ 58 :: (text m.2 ++ membersTail ms))

end

end printing

/-! ## The order of the keys of an object -/

/-- The array index that a key spells. -/
def index? (key : JsString) : Option ℕ :=
  if key = decimal (numberOf key) ∧ numberOf key < 2 ^ 32 - 1 then some (numberOf key) else none

/-- Array indices come first, in numerical order; the other keys stay in the order of creation. -/
def ownOrder (members : List (JsString × Value)) : List (JsString × Value) :=
  ((members.filter fun m => (index? m.1).isSome).insertionSort
    fun m m' => numberOf m.1 ≤ numberOf m'.1) ++ members.filter fun m => (index? m.1).isNone

mutual

/-- The value with the members of every object in the order in which they print. -/
def ordered : Value → Value
  | .array items => .array (orderedItems items)
  | .object members => .object (ownOrder (orderedMembers members))
  | v => v

def orderedItems : List Value → List Value
  | [] => []
  | v :: vs => ordered v :: orderedItems vs

def orderedMembers : List (JsString × Value) → List (JsString × Value)
  | [] => []
  | m :: ms => (m.1, ordered m.2) :: orderedMembers ms

end

end StealthWage.Json
