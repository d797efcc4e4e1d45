import StealthWage.Client
import StealthWage.Dispatch
import StealthWage.GoExtension
import StealthWage.GreetingsRead
import StealthWage.ServerState

/-! # Three extensions behind one contract

What the instruction sender sends, each of the three extensions dispatches to the handler that is
meant. They answer alike, byte for byte, exactly as long as they find the same text in a message
and all of them print it alike. -/
namespace StealthWage.Conformance
open App (farewellOf)
open Base (hexArg padded)
open Contract (toOption_eq_some)
open Enclave (HandlerResult refuse)
open Greetings (Plain)
open Instructions Js Json Runs Utf8 Words

/-! ## Text in bytes -/

structure Libraries extends Greetings.Libraries where
  decodeTo : Bytes → Except JsString (Bytes × Bytes)

structure Processes where
  go : Go.Extension
  python : Python.State
  ts : App.State

def Processes.initial : Processes := ⟨Go.Extension.initial, Python.State.initial, App.State.initial⟩

/-- The part of the state that greetings change. -/
def Processes.greetings (p : Processes) : Greetings.Processes := ⟨p.go.greetings, p.python, p.ts⟩

def hashText (w : Word) : JsString := bytesToHex (bigEndian 32 w.val)

variable (L : Libraries)

/-- What the Go extension makes of an instruction. -/
def goReply (x : TeeInstructionParams) (e : Go.Extension) : Option (HandlerResult × Go.Extension) :=
  Go.processDataFixed L.decodeError L.decodeTo x.opType x.opCommand x.message e

def pythonReply (x : TeeInstructionParams) (s : Python.State) :
    Except Python.Raised (Option (HandlerResult × Python.State)) := do
  match ← (Python.routes L.interpreter).lookup L.interpreter (.string (hashText x.opType))
      (.string (hashText x.opCommand)) with
  | none => return none
  | some handler => return some (← handler (.string (bytesToHex x.message)) s)

def tsReply (now : Enclave.Clock) (x : TeeInstructionParams) (s : App.State) :
    Option (Option (HandlerResult × App.State)) := do
  match ← Base.Framework.lookup L.host.caseMap (App.routes L.host now)
      (some (.string (hashText x.opType))) (some (.string (hashText x.opCommand))) with
  | none => return none
  | some handler => return some (← handler (.string (bytesToHex x.message)) s)

/-- The states after an instruction; an exception changes nothing. -/
def step (now : Enclave.Clock) (p : Processes) (x : TeeInstructionParams) : Processes where
  go := match goReply L x p.go with
    | some r => r.2
    | none => p.go
  python := match pythonReply L x p.python with
    | .ok (some r) => r.2
    | _ => p.python
  ts := match tsReply L now x p.ts with
    | some (some r) => r.2
    | _ => p.ts

/-- Counts and last texts are the same. Go keeps a farewell as bytes. -/
structure Level (p : Processes) : Prop where
  greetings : Greetings.Level p.greetings
  pythonCount : p.python.farewellCount = p.go.farewellCount
  tsCount : p.ts.farewellCount = p.go.farewellCount
  pythonFarewell : encode p.python.lastFarewell = p.go.lastFarewell
  tsFarewell : p.ts.lastFarewell = p.python.lastFarewell

/-! ## Dispatch -/

variable {L} {now : Enclave.Clock} {x : TeeInstructionParams}

variable (L)

/-- The farewell that Go makes of a message; none if it refuses. -/
def goFarewell (b : Bytes) : Option Bytes :=
  match L.decodeTo b with
  | .ok (c :: name, reason) => some (Go.farewellOf (c :: name) reason)
  | _ => none

def pythonFarewell (b : Bytes) : Option JsString :=
  match L.interpreter.abiDecode b with
  | .ok (u :: name, reason) => some (farewellOf (u :: name) reason)
  | _ => none

def tsFarewell (b : Bytes) : Option JsString :=
  match L.host.decodeStrings b with
  | .ok (u :: name, reason) => some (farewellOf (u :: name) reason)
  | _ => none

/-- What the three printers of a farewell have in common. -/
def between (content : JsString) (n : ℕ) : JsString :=
  123 :: (quote (js "farewell") ++ 58 :: 34 :: (content ++ 34 :: 44 ::
    (quote (js "farewellNumber") ++ 58 :: (decimal n ++ [125]))))

/-- What a process does with the farewell that it makes. -/
def Bids {τ : Type} (print : τ → JsString) (farewell : Option τ) (count : ℕ) (last : τ)
    (res : HandlerResult) (count' : ℕ) (last' : τ) : Prop :=
  match farewell with
  | none => res.status = 0 ∧ count' = count ∧ last' = last
  | some text => res.status = 1 ∧
    res.data = some (bytesToHex (encode (between (print text) (count + 1)))) ∧
    count' = count + 1 ∧ last' = text

variable {L}

namespace Bids

variable {τ τ' : Type} {print : τ → JsString} {print' : τ' → JsString} {f : τ' → τ}
  {farewell : Option τ} {farewell' : Option τ'} {count count₁ count₁' : ℕ} {last last₁ : τ}
  {last' last₁' : τ'} {res res' : HandlerResult}

/-- Two processes that were level and make the same farewell answer alike. -/
theorem agree (h : Bids print farewell count last res count₁ last₁)
    (h' : Bids print' farewell' count last' res' count₁' last₁')
    (hfarewell : farewell = farewell'.map f) (hlast : f last' = last)
    (hprint : ∀ t, farewell' = some t → print (f t) = print' t) :
    res'.status = res.status ∧ (res.status = 1 → res'.data = res.data) ∧
      count₁' = count₁ ∧ f last₁' = last₁ := by
  subst hfarewell
  cases farewell' with
  | none =>
    obtain ⟨hstatus, hcount, hlast₁⟩ := h
    obtain ⟨hstatus', hcount', hlast₁'⟩ := h'
    refine ⟨hstatus'.trans hstatus.symm, fun hone => ?_, hcount'.trans hcount.symm, ?_⟩
    · rw [hstatus] at hone
      cases hone
    · rw [hlast₁', hlast, hlast₁]
  | some t =>
    obtain ⟨hstatus, hdata, hcount, hlast₁⟩ := h
    obtain ⟨hstatus', hdata', hcount', hlast₁'⟩ := h'
    refine ⟨hstatus'.trans hstatus.symm, fun _ => ?_, hcount'.trans hcount.symm, ?_⟩
    · rw [hdata', hdata, hprint t rfl]
    · rw [hlast₁', hlast₁]

theorem printed {t : τ} {t' : τ'} (h : Bids print (some t) count last res count₁ last₁)
    (h' : Bids print' (some t') count last' res' count₁' last₁')
    (hdata : res.status = 1 → res'.data = res.data) :
    encode (between (print' t') (count + 1)) = encode (between (print t) (count + 1)) := by
  obtain ⟨hone, hres, -, -⟩ := h
  obtain ⟨-, hres', -, -⟩ := h'
  have hsame := hdata hone
  rw [hres, hres'] at hsame
  exact bytesToHex_injective (Option.some.inj hsame)

end Bids

/-! ## One instruction -/

def helloOf (x : TeeInstructionParams) : Greetings.Message :=
  ⟨bytesToHex x.message, x.message, hexToBytes_bytesToHex x.message⟩

variable (L)

/-- The three refuse a farewell, or they make the same plain one. -/
def AlikeGoodbye (b : Bytes) : Prop :=
  (goFarewell L b = none ∧ pythonFarewell L b = none ∧ tsFarewell L b = none) ∨
  ∃ text, goFarewell L b = some (encode text) ∧ pythonFarewell L b = some text ∧
    tsFarewell L b = some text ∧ Plain text

/-- The three find the same in a greeting or a farewell, and print it alike. -/
def Alike (x : TeeInstructionParams) : Prop :=
  x.opType = opTypeGreeting ∧
    (x.opCommand = opCommandSayHello ∧ Greetings.Alike L.toLibraries (helloOf x) ∨
      x.opCommand = opCommandSayGoodbye ∧ AlikeGoodbye L x.message)

/-- All three answer, with the same result, and are level afterwards. -/
def Same (now : Enclave.Clock) (p : Processes) (x : TeeInstructionParams) : Prop :=
  ∃ go python ts, goReply L x p.go = some go ∧ pythonReply L x p.python = .ok (some python) ∧
    tsReply L now x p.ts = some (some ts) ∧ Greetings.SameResult go.1 python.1 ts.1 ∧
    Level (step L now p x)

variable {L} {p : Processes}

/-- Lengths that are exact in JavaScript. -/
def Safe (b : Bytes) : Prop := b.length < 2 ^ 53

/-- viem leaves out leading NULs and a byte order mark. -/
def Kept (s : JsString) : Prop := s.head? ≠ some 0 ∧ s.head? ≠ some 0xFEFF

/-- A greeting of a plain name, and a farewell of a plain name for a plain reason. -/
inductive Ordinary : Entry → Prop
  | sendSayHello {t name : JsString} (whole : wellFormed t = true)
      (introduces : Greetings.Introduces t name) (ne : name ≠ []) (plain : Plain name) :
      Ordinary (.sendSayHello (encode t))
  | sendSayGoodbye {name reason : CalldataString} {s t : JsString} (nameBytes : name.bytes = encode s)
      (reasonBytes : reason.bytes = encode t) (plain : Plain s ∧ Plain t) (kept : Kept s ∧ Kept t)
      (safe : Safe (encodeStrings name.bytes reason.bytes)) :
      Ordinary (.sendSayGoodbye name reason)

end StealthWage.Conformance
