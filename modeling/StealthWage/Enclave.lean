import StealthWage.Json
import StealthWage.Protocol

/-! # The stream handler of the enclave

`authorize` answers a request or refuses it with a text; `none` is an exception that leaves
the handler. The parts that are not the repository's own are a `Runtime`. -/
namespace StealthWage.Enclave
open Js Json Protocol Utf8 Words
open Vault (Bytes32)

/-- viem, eciesjs, the engine's case table and error texts, and the two key variables. -/
structure Runtime where
  viem : Viem
  caseMap : CaseMap
  decrypt : JsString → Bytes → Option Bytes
  syntaxError : JsString → JsString
  teeEciesPrivkey : Option JsString
  teeSignerPrivkey : Option JsString

/-- Seconds since the epoch, as far as a `Date` reaches. -/
abbrev Clock := { s : ℤ // -8640000000000 ≤ s ∧ s ≤ 8640000000000 }

structure AuthRequest where
  streamId : JsString
  vault : JsString
  chainId : JsString
  commitment : JsString
  encryptedTerms : JsString
  issuedAt : JsString
  callerSignature : JsString

structure HandlerResult where
  data : Option JsString
  status : ℕ
  error : Option JsString

/-- One use of the signing key: what was signed, when, and for which terms blob. -/
structure Signing where
  params : AuthParams
  clock : ℤ
  terms : Bytes
  digest : Bytes32
  deriving DecidableEq

/-- `authCount`, and the record of everything the key has signed. -/
structure EnclaveState where
  authCount : ℕ
  signed : List Signing
  deriving DecidableEq

def requiredFields : List JsString :=
  [js "streamId", js "vault", js "chainId", js "commitment", js "encryptedTerms",
    js "issuedAt", js "callerSignature"]

variable (R : Runtime)

/-! ## Decoding -/

def stringField (members : List (JsString × Value)) (f : JsString) : Option JsString :=
  match members.find? fun m => m.1 = f with
  | some (_, .string s) => some s
  | _ => none

def unknownFields (members : List (JsString × Value)) : List JsString :=
  ((members.map Prod.fst).filter fun k => k ∉ requiredFields).insertionSort (· ≤ ·)

/-- The text of a field that is required, or the refusal that names it. -/
def requireField (members : List (JsString × Value)) (f : JsString) : Except JsString JsString :=
  match stringField members f with
  | some s => .ok s
  | none => .error (js "missing or non-string field \"" ++ f ++ js "\"")

def readRequest (members : List (JsString × Value)) : Except JsString AuthRequest :=
  match unknownFields members with
  | k :: _ => .error (js "unknown field \"" ++ k ++ js "\"")
  | [] => do
    let streamId ← requireField members (js "streamId")
    let vault ← requireField members (js "vault")
    let chainId ← requireField members (js "chainId")
    let commitment ← requireField members (js "commitment")
    let encryptedTerms ← requireField members (js "encryptedTerms")
    let issuedAt ← requireField members (js "issuedAt")
    let callerSignature ← requireField members (js "callerSignature")
    return ⟨streamId, vault, chainId, commitment, encryptedTerms, issuedAt, callerSignature⟩

def decodeRequest (msg : JsString) : Except JsString AuthRequest := do
  let raw ← hexToBytes msg
  match parse (decode raw) with
  | none => .error (R.syntaxError (decode raw))
  | some (.object members) => readRequest members
  | some _ => .error (js "expected a JSON object")

/-! ## Checks -/

/-- A variable that is set and not empty. -/
def configured : Option JsString → Option JsString
  | some (u :: s) => some (u :: s)
  | _ => none

def openTerms (eciesKey : JsString) (req : AuthRequest) : Except JsString (Bytes × StreamTerms) :=
  match (hexToBytes req.encryptedTerms).toOption.bind (R.decrypt eciesKey) with
  | none => .error (js "failed to decrypt terms")
  | some termsHex =>
    if R.viem.keccakHex termsHex ≠ R.caseMap.toLowerCase req.commitment then
      .error (js "terms do not match commitment")
    else
      match decodeTerms R.viem termsHex with
      | none => .error (js "terms blob is malformed")
      | some terms => .ok (termsHex, terms)

/-- `issuedAt`, when it is recent. -/
def checkIssuedAt (req : AuthRequest) (nowSec : ℤ) : Except JsString ℤ :=
  match bigint req.issuedAt with
  | none => .error (js "issuedAt must be a unix-seconds integer")
  | some issuedAt =>
    let skew := if issuedAt > nowSec then issuedAt - nowSec else nowSec - issuedAt
    if skew > callerAuthWindowSeconds then .error (js "caller authorization expired")
    else .ok issuedAt

/-- What the caller has to have signed. -/
def challengeOf (req : AuthRequest) (purpose : JsString) (issuedAt : ℤ) : Option Bytes32 := do
  let chainId ← bigint req.chainId
  let streamId ← bigint req.streamId
  buildCallerChallenge R.caseMap R.viem
    ⟨chainId, req.vault, streamId, req.commitment, purpose, issuedAt⟩

def recoverCaller (req : AuthRequest) (purpose : JsString) (issuedAt : ℤ) : Option JsString := do
  let challenge ← challengeOf R req purpose issuedAt
  R.viem.recoverMessageAddress (bigEndian 32 challenge.val) req.callerSignature

/-- The parties that may ask, in lower case: the employer alone may settle. -/
def permitted (tag : JsString) (terms : StreamTerms) : List JsString :=
  if tag = settleTag R.viem then [R.caseMap.toLowerCase terms.employer]
  else [R.caseMap.toLowerCase terms.recipient, R.caseMap.toLowerCase terms.employer]

def checkCaller (req : AuthRequest) (tag : JsString) (issuedAt : ℤ) (terms : StreamTerms) :
    Except JsString Unit :=
  match recoverCaller R req tag issuedAt with
  | none => .error (js "malformed caller signature")
  | some caller =>
    if R.caseMap.toLowerCase caller ∈ permitted R tag terms then .ok ()
    else .error (js "caller is not a party to this stream")

/-- A request that has passed every check. -/
structure Checked where
  req : AuthRequest
  signerKey : JsString
  termsHex : Bytes
  terms : StreamTerms

/-- Everything up to the point where the accrual is computed; the error is the refusal. -/
def checkRequest (nowSec : ℤ) (msg tag : JsString) : Except JsString Checked :=
  match decodeRequest R msg with
  | .error text => .error (js "decoding request: " ++ text)
  | .ok req =>
    match configured R.teeEciesPrivkey, configured R.teeSignerPrivkey with
    | some eciesKey, some signerKey => do
      let (termsHex, terms) ← openTerms R eciesKey req
      let issuedAt ← checkIssuedAt req nowSec
      checkCaller R req tag issuedAt terms
      return ⟨req, signerKey, termsHex, terms⟩
    | _, _ =>
      .error (js "TEE keys not configured (TEE_ECIES_PRIVKEY / TEE_SIGNER_PRIVKEY)")

/-! ## Signing -/

def authParams (a : Checked) (tag : JsString) (nowSec : ℤ) : Option AuthParams := do
  let chainId ← bigint a.req.chainId
  let streamId ← bigint a.req.streamId
  return ⟨tag, chainId, a.req.vault, streamId, a.req.commitment, accruedAt a.terms nowSec,
    nowSec + authTtlSeconds⟩

def response (a : Checked) (p : AuthParams) (signature : JsString) : List (JsString × JsString) :=
  [(js "streamId", a.req.streamId), (js "cumulativeAccrued", bigintText p.cumulativeAccrued),
    (js "deadline", bigintText p.deadline), (js "signature", signature),
    (js "terms", bytesToHex a.termsHex)]

def sign (a : Checked) (tag : JsString) (nowSec : ℤ) (st : EnclaveState) :
    Option (HandlerResult × EnclaveState) := do
  let p ← authParams a tag nowSec
  let digest ← buildAuthDigest R.caseMap R.viem p
  let signature ← R.viem.signMessage a.signerKey (bigEndian 32 digest.val)
  return (⟨some (bytesToHex (encode (stringify (response a p signature)))), 1, none⟩,
    ⟨st.authCount + 1, st.signed ++ [⟨p, nowSec, a.termsHex, digest⟩]⟩)

def refuse (text : JsString) : HandlerResult := ⟨none, 0, some text⟩

def authorize (now : Clock) (msg tag : JsString) (st : EnclaveState) :
    Option (HandlerResult × EnclaveState) :=
  match checkRequest R now.val msg tag with
  | .error text => some (refuse text, st)
  | .ok a => sign R a tag now.val st

/-! ## The registered handlers -/

inductive Command
  | authWithdraw
  | authSettle

def Command.tag (V : Viem) : Command → JsString
  | .authWithdraw => withdrawTag V
  | .authSettle => settleTag V

structure Request where
  now : Clock
  msg : JsString
  command : Command

/-- One request served; a handler that throws has changed nothing. -/
def respond (st : EnclaveState) (q : Request) : Option HandlerResult × EnclaveState :=
  match authorize R q.now q.msg (q.command.tag R.viem) st with
  | some (res, st') => (some res, st')
  | none => (none, st)

end StealthWage.Enclave
