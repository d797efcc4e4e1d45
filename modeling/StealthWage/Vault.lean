import StealthWage.CallStack
import StealthWage.Words

/-! # The StreamVault contract

Each entry point is written up to its first token call, and `resume` continues it when
the token answers; storage is read again there, as the contract does. Solidity's checked
arithmetic and narrowing casts are explicit. A transaction's surroundings are a `Chain`. -/
namespace StealthWage.Vault
open CallStack Words

abbrev Address := Fin (2 ^ 160)
abbrev Bytes32 := Fin (2 ^ 256)
abbrev Uint64 := Fin (2 ^ 64)
abbrev Uint128 := Fin (2 ^ 128)
abbrev Uint256 := Fin (2 ^ 256)

structure Stream where
  employer : Address
  recipient : Address
  token : Address
  commitment : Bytes32
  funded : Uint128
  withdrawn : Uint128
  startTime : Uint64
  cancelled : Bool
  deriving DecidableEq

/-- What a mapping reads at a key that was never written. -/
def Stream.zero : Stream := ⟨0, 0, 0, 0, 0, 0, 0, false⟩

inductive Log
  | streamCreated (streamId : Uint256) (employer recipient token : Address)
      (commitment : Bytes32) (startTime : Uint64) (encryptedTerms : Bytes)
  | streamFunded (streamId amount : Uint256)
  | withdrawn (streamId : Uint256) (recipient : Address) (amount : Uint256)
  | streamCancelled (streamId refunded : Uint256)
  | termsRevealed (streamId : Uint256) (terms : Bytes)
  | teeSignerUpdated (newSigner : Address)
  deriving DecidableEq

structure StreamVault where
  owner : Address
  teeSigner : Address
  nextStreamId : Uint256
  streams : Uint256 → Stream
  entered : Uint256
  logs : List Log

inductive Revert
  | message (text : String)
  | panic (code : ℕ)
  deriving DecidableEq

/-- The chain the vault lives on, its own address, and the two hash and curve primitives. -/
structure Chain where
  chainId : Uint256
  this : Address
  keccak256 : Bytes → Bytes32
  ecrecover : Bytes32 → Byte → Bytes32 → Bytes32 → Address

inductive Entry
  | setTeeSigner (teeSigner : Address)
  | createStream (recipient token : Address) (commitment : Bytes32) (startTime : Uint64)
      (encryptedTerms : Bytes)
  | fund (streamId : Uint256) (amount : Uint128)
  | withdraw (streamId cumulativeAccrued deadline : Uint256) (signature : Bytes)
  | cancelStream (streamId finalAccrued deadline : Uint256) (signature : Bytes)
  | revealTerms (streamId : Uint256) (terms : Bytes)
  deriving DecidableEq

/-- A call of the vault. Nobody sends from the zero address, and the vault itself only ever
calls `transfer` and `transferFrom`, which it does not implement: it is never its own caller. -/
structure Msg (ch : Chain) where
  sender : Address
  timestamp : Uint256
  entry : Entry
  sender_ne_zero : sender ≠ 0
  sender_ne_this : sender ≠ ch.this

inductive Purpose
  | funding
  | payout
  | refund
  deriving DecidableEq

/-- `transferFrom(payer, payee, amount)`, or `transfer(payee, amount)` when the vault pays.
The stream and the purpose are not on the wire: they say what the vault makes the call for. -/
structure TokenCall where
  token : Address
  payer : Address
  payee : Address
  amount : Uint256
  streamId : Uint256
  purpose : Purpose
  deriving DecidableEq

/-- The code that waits for a token call to answer. -/
inductive Cont
  | funded (streamId : Uint256) (amount : Uint128)
  | withdrawn (streamId payout : Uint256)
  | settled (streamId refund : Uint256)
  | refunded (streamId refund : Uint256)
  deriving DecidableEq

abbrev Step := Progress StreamVault TokenCall Cont

def require (p : Prop) [Decidable p] (text : String) : Except Revert Unit :=
  if p then .ok () else .error (.message text)

/-- Panic code of checked arithmetic. -/
def overflow : Revert := .panic 0x11

def checkedAdd {n : ℕ} (a b : Fin n) : Except Revert (Fin n) :=
  if h : a.val + b.val < n then .ok ⟨a.val + b.val, h⟩ else .error overflow

def checkedSub {n : ℕ} (a b : Fin n) : Except Revert (Fin n) :=
  if b.val ≤ a.val then .ok ⟨a.val - b.val, by omega⟩ else .error overflow

/-- The implicit conversion of a `uint128` to a `uint256`. -/
def widen (x : Uint128) : Uint256 := ⟨x.val, by omega⟩

/-- `uint128(x)` keeps the low bits. -/
def truncate (x : Uint256) : Uint128 := Fin.ofNat (2 ^ 128) x.val

def addressWord (a : Address) : Word := ⟨a.val, by omega⟩

def asciiBytes (s : String) : Bytes := s.toList.map fun c => Fin.ofNat 256 c.toNat

def withdrawTag (keccak256 : Bytes → Bytes32) : Bytes32 := keccak256 (asciiBytes "SW_WITHDRAW_V1")

def settleTag (keccak256 : Bytes → Bytes32) : Bytes32 := keccak256 (asciiBytes "SW_SETTLE_V1")

namespace StreamVault

def constructor (sender teeSigner : Address) : StreamVault :=
  ⟨sender, teeSigner, 1, fun _ => Stream.zero, 1, []⟩

def setStream (v : StreamVault) (id : Uint256) (s : Stream) : StreamVault :=
  { v with streams := Function.update v.streams id s }

def emit (v : StreamVault) (log : Log) : StreamVault := { v with logs := v.logs ++ [log] }

/-- The closing half of `nonReentrant`. -/
def leave (v : StreamVault) : Step := .done { v with entered := 1 }

end StreamVault

/-- The opening half of `nonReentrant`. -/
def nonReentrant (v : StreamVault) (body : StreamVault → Except Revert Step) :
    Except Revert Step := do
  require (v.entered = 1) "reentrancy"
  body { v with entered := 2 }

variable (ch : Chain)

/-- The bytes that `withdraw` and `cancelStream` hash, for their own tag. -/
def authPreimage (tag : Bytes32) (streamId : Uint256) (commitment : Bytes32)
    (accrued deadline : Uint256) : Bytes :=
  abiEncode [tag, ch.chainId, addressWord ch.this, streamId, commitment, accrued, deadline]

def ethSignedPreimage (digest : Bytes32) : Bytes :=
  asciiBytes "\x19Ethereum Signed Message:\n32" ++ bigEndian 32 digest.val

def recoverEthSigned (digest : Bytes32) (sig : Bytes) : Except Revert Address := do
  require (sig.length = 65) "bad sig length"
  let ethDigest := ch.keccak256 (ethSignedPreimage digest)
  let r := wordAt sig 0
  let vs := wordAt sig 1
  let v := sig.getD 64 0
  let v := if v < 27 then v + 27 else v
  let signer := ch.ecrecover ethDigest v r vs
  require (signer ≠ 0) "invalid signature"
  return signer

def transfer (token payee : Address) (amount streamId : Uint256) (purpose : Purpose) :
    TokenCall :=
  ⟨token, ch.this, payee, amount, streamId, purpose⟩

def setTeeSigner (sender teeSigner : Address) (v : StreamVault) : Except Revert Step := do
  require (sender = v.owner) "not owner"
  require (teeSigner ≠ 0) "zero signer"
  return .done ({ v with teeSigner := teeSigner }.emit (.teeSignerUpdated teeSigner))

def createStream (sender recipient token : Address) (commitment : Bytes32) (startTime : Uint64)
    (encryptedTerms : Bytes) (v : StreamVault) : Except Revert Step := do
  require (recipient ≠ 0) "zero recipient"
  require (token ≠ 0) "zero token"
  require (commitment ≠ 0) "zero commitment"
  let streamId := v.nextStreamId
  let next ← checkedAdd v.nextStreamId 1
  let s : Stream := ⟨sender, recipient, token, commitment, 0, 0, startTime, false⟩
  return .done (({ v with nextStreamId := next }.setStream streamId s).emit
    (.streamCreated streamId sender recipient token commitment startTime encryptedTerms))

def fund (sender : Address) (streamId : Uint256) (amount : Uint128) (v : StreamVault) :
    Except Revert Step :=
  nonReentrant v fun v => do
    let s := v.streams streamId
    require (s.employer ≠ 0) "no stream"
    require (s.cancelled = false) "cancelled"
    require (0 < amount) "zero amount"
    let funded ← checkedAdd s.funded amount
    return .call (v.setStream streamId { s with funded := funded })
      ⟨s.token, sender, ch.this, widen amount, streamId, .funding⟩ (.funded streamId amount)

def withdraw (timestamp streamId cumulativeAccrued deadline : Uint256) (signature : Bytes)
    (v : StreamVault) : Except Revert Step :=
  nonReentrant v fun v => do
    let s := v.streams streamId
    require (s.employer ≠ 0) "no stream"
    require (s.cancelled = false) "cancelled"
    require (timestamp ≤ deadline) "authorization expired"
    let digest := ch.keccak256 (authPreimage ch (withdrawTag ch.keccak256) streamId
      s.commitment cumulativeAccrued deadline)
    let signer ← recoverEthSigned ch digest signature
    require (signer = v.teeSigner) "bad TEE signature"
    let cap := if cumulativeAccrued < widen s.funded then cumulativeAccrued else widen s.funded
    require (widen s.withdrawn < cap) "nothing accrued"
    let payout ← checkedSub cap (widen s.withdrawn)
    return .call (v.setStream streamId { s with withdrawn := truncate cap })
      (transfer ch s.token s.recipient payout streamId .payout) (.withdrawn streamId payout)

/-- The last part of `cancelStream`: the employer's refund, if there is one. -/
def refundEmployer (streamId refund : Uint256) (v : StreamVault) : Step :=
  let s := v.streams streamId
  if 0 < refund then
    .call v (transfer ch s.token s.employer refund streamId .refund) (.refunded streamId refund)
  else (v.emit (.streamCancelled streamId refund)).leave

def cancelStream (sender : Address) (timestamp streamId finalAccrued deadline : Uint256)
    (signature : Bytes) (v : StreamVault) : Except Revert Step :=
  nonReentrant v fun v => do
    let s := v.streams streamId
    require (sender = s.employer) "not employer"
    require (s.cancelled = false) "cancelled"
    require (timestamp ≤ deadline) "authorization expired"
    let digest := ch.keccak256 (authPreimage ch (settleTag ch.keccak256) streamId
      s.commitment finalAccrued deadline)
    let signer ← recoverEthSigned ch digest signature
    require (signer = v.teeSigner) "bad TEE signature"
    let owed := if finalAccrued < widen s.funded then finalAccrued else widen s.funded
    let toRecipient ←
      (if widen s.withdrawn < owed then checkedSub owed (widen s.withdrawn) else .ok 0)
    let unpaid ← checkedSub s.funded s.withdrawn
    let refund ← checkedSub (widen unpaid) toRecipient
    let lifetime := if widen s.withdrawn < owed then owed else widen s.withdrawn
    let v := v.setStream streamId { s with cancelled := true, withdrawn := truncate lifetime }
    if 0 < toRecipient then
      return .call v (transfer ch s.token s.recipient toRecipient streamId .payout)
        (.settled streamId refund)
    else return refundEmployer ch streamId refund v

def revealTerms (streamId : Uint256) (terms : Bytes) (v : StreamVault) : Except Revert Step := do
  let s := v.streams streamId
  require (s.employer ≠ 0) "no stream"
  require (ch.keccak256 terms = s.commitment) "terms do not match commitment"
  return .done (v.emit (.termsRevealed streamId terms))

def enter (m : Msg ch) (v : StreamVault) : Except Revert Step :=
  match m.entry with
  | .setTeeSigner teeSigner => setTeeSigner m.sender teeSigner v
  | .createStream recipient token commitment startTime encryptedTerms =>
    createStream m.sender recipient token commitment startTime encryptedTerms v
  | .fund streamId amount => fund ch m.sender streamId amount v
  | .withdraw streamId cumulativeAccrued deadline signature =>
    withdraw ch m.timestamp streamId cumulativeAccrued deadline signature v
  | .cancelStream streamId finalAccrued deadline signature =>
    cancelStream ch m.sender m.timestamp streamId finalAccrued deadline signature v
  | .revealTerms streamId terms => revealTerms ch streamId terms v

/-- What follows a token call that returned `ok`. -/
def resume (k : Cont) (ok : Bool) (v : StreamVault) : Except Revert Step :=
  match k with
  | .funded streamId amount => do
    require (ok = true) "transferFrom failed"
    return (v.emit (.streamFunded streamId (widen amount))).leave
  | .withdrawn streamId payout => do
    require (ok = true) "transfer failed"
    return (v.emit (.withdrawn streamId (v.streams streamId).recipient payout)).leave
  | .settled streamId refund => do
    require (ok = true) "transfer failed"
    return refundEmployer ch streamId refund v
  | .refunded streamId refund => do
    require (ok = true) "refund failed"
    return (v.emit (.streamCancelled streamId refund)).leave

def contract : Contract StreamVault (Msg ch) TokenCall Cont Revert := ⟨enter ch, resume ch⟩

end StealthWage.Vault
