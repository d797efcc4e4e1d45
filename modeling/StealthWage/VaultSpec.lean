import StealthWage.Vault

/-! # What each entry point of the vault can do

One equivalence per entry point: when it does not revert, and the storage and the token
call it then leaves. Everything later is derived from these, never from the code again. -/
namespace StealthWage.Vault
open CallStack Words

section checked

variable {α β : Type} {p : Prop} [Decidable p] {t : String}

theorem pure_eq_ok {a b : α} : (pure a : Except Revert α) = .ok b ↔ b = a := by
  simp only [pure, Except.pure, Except.ok.injEq]
  exact eq_comm

theorem ite_pure_eq_ok {a b r : α} :
    (if p then pure a else pure b : Except Revert α) = .ok r ↔ r = if p then a else b := by
  split_ifs <;> exact pure_eq_ok

theorem require_bind_overflow {f : Unit → Except Revert β} :
    (require p t >>= f) = .error overflow ↔ p ∧ f () = .error overflow := by
  unfold require
  split_ifs with h <;> simp [bind, Except.bind, h, overflow]

theorem checkedSub_bind_overflow {n : ℕ} {a b : Fin n} {f : Fin n → Except Revert β}
    (h : b.val ≤ a.val) : (checkedSub a b >>= f) = .error overflow ↔
      f ⟨a.val - b.val, by omega⟩ = .error overflow := by
  unfold checkedSub
  rw [if_pos h]
  rfl

theorem pure_ne_error {a : α} {e : Revert} : (pure a : Except Revert α) ≠ .error e := nofun

theorem ok_bind {a : α} {f : α → Except Revert β} : (Except.ok a >>= f) = f a := rfl

theorem require_bind {f : Unit → Except Revert β} {b : β} :
    (require p t >>= f) = .ok b ↔ p ∧ f () = .ok b := by
  unfold require
  split_ifs with h <;> simp [bind, Except.bind, h]

theorem require_bind_of_pos {f : Unit → Except Revert β} (h : p) : (require p t >>= f) = f () := by
  unfold require
  rw [if_pos h]
  rfl

theorem require_bind_of_neg {f : Unit → Except Revert β} (h : ¬ p) :
    (require p t >>= f) = .error (.message t) := by
  unfold require
  rw [if_neg h]
  rfl

theorem checkedAdd_bind {n : ℕ} {a b : Fin n} {f : Fin n → Except Revert β} {r : β} :
    (checkedAdd a b >>= f) = .ok r ↔ ∃ c : Fin n, c.val = a.val + b.val ∧ f c = .ok r := by
  unfold checkedAdd
  split_ifs with h
  · constructor
    · exact fun hf => ⟨_, rfl, hf⟩
    · rintro ⟨c, hc, hf⟩
      rwa [show c = ⟨a.val + b.val, h⟩ from Fin.ext hc] at hf
  · simp only [bind, Except.bind, reduceCtorEq, false_iff, not_exists, not_and]
    intro c hc
    omega

theorem checkedSub_bind {n : ℕ} {a b : Fin n} {f : Fin n → Except Revert β} {r : β} :
    (checkedSub a b >>= f) = .ok r ↔
      ∃ h : b.val ≤ a.val, f ⟨a.val - b.val, by omega⟩ = .ok r := by
  unfold checkedSub
  split_ifs with h <;> simp [bind, Except.bind, h]

theorem checkedSub_of_le {n : ℕ} {a b : Fin n} (h : b.val ≤ a.val) :
    checkedSub a b = .ok ⟨a.val - b.val, by omega⟩ := if_pos h

@[simp] theorem widen_val (x : Uint128) : (widen x).val = x.val := rfl

theorem truncate_of_lt {x : Uint256} (h : x.val < 2 ^ 128) : truncate x = ⟨x.val, h⟩ :=
  Fin.ext (Nat.mod_eq_of_lt h)

end checked

/-! ## Arithmetic of one stream -/

namespace Stream

/-- The part of a cumulative figure that the funding covers. -/
def capped (s : Stream) (accrued : Uint256) : ℕ := min accrued.val s.funded.val

def payoutDue (s : Stream) (accrued : Uint256) : Uint256 :=
  ⟨s.capped accrued - s.withdrawn.val, by unfold capped; omega⟩

def refundDue (s : Stream) (accrued : Uint256) : Uint256 :=
  ⟨s.funded.val - max s.withdrawn.val (s.capped accrued), by omega⟩

def paid (s : Stream) (accrued : Uint256) : Stream :=
  { s with withdrawn := ⟨s.capped accrued, by unfold capped; omega⟩ }

/-- The record after a settlement: the recipient keeps the larger of the two figures. -/
def settled (s : Stream) (accrued : Uint256) : Stream :=
  { s with
    cancelled := true
    withdrawn := ⟨max s.withdrawn.val (s.capped accrued), by unfold capped; omega⟩ }

theorem capped_le_funded (s : Stream) (a : Uint256) : s.capped a ≤ s.funded.val :=
  min_le_right _ _

theorem capped_lt (s : Stream) (a : Uint256) : s.capped a < 2 ^ 128 :=
  (s.capped_le_funded a).trans_lt s.funded.isLt

theorem truncate_capped (s : Stream) (a : Uint256) {h : s.capped a < 2 ^ 256} :
    truncate ⟨s.capped a, h⟩ = ⟨s.capped a, s.capped_lt a⟩ :=
  truncate_of_lt (s.capped_lt a)

/-- The conditional by which the contract caps a figure. -/
theorem capped_eq (s : Stream) (a : Uint256) :
    (if a < widen s.funded then a else widen s.funded) =
      ⟨s.capped a, (s.capped_lt a).trans (by decide)⟩ := by
  apply Fin.ext
  unfold capped
  split_ifs with h <;> simp only [Fin.lt_def, widen_val] at h ⊢ <;> omega

/-- What `cancelStream` computes for the recipient. -/
theorem payoutDue_eq (s : Stream) (a : Uint256) {h : s.capped a < 2 ^ 256} :
    (if widen s.withdrawn < ⟨s.capped a, h⟩ then checkedSub ⟨s.capped a, h⟩ (widen s.withdrawn)
      else .ok 0) = .ok (s.payoutDue a) := by
  split_ifs with hw
  · exact checkedSub_of_le (by simpa using (Fin.lt_def.mp hw).le)
  · simp only [Fin.lt_def, widen_val] at hw
    congr 1
    apply Fin.ext
    simp only [payoutDue, Fin.val_zero]
    omega

theorem settled_withdrawn_eq (s : Stream) (a : Uint256) {h : s.capped a < 2 ^ 256} :
    truncate (if widen s.withdrawn < ⟨s.capped a, h⟩ then ⟨s.capped a, h⟩ else widen s.withdrawn) =
      (s.settled a).withdrawn := by
  have hc := s.capped_lt a
  apply Fin.ext
  split_ifs with hw <;> simp only [Fin.lt_def, widen_val] at hw
  · rw [truncate_of_lt hc]
    simp only [settled]
    omega
  · rw [truncate_of_lt s.withdrawn.isLt]
    simp only [settled, widen_val]
    omega

/-- A settlement that owes the recipient nothing more leaves the figure as it is. -/
theorem settled_of_payoutDue_eq_zero (s : Stream) {a : Uint256} (h : s.payoutDue a = 0) :
    (s.settled a).withdrawn = s.withdrawn := by
  have hv : s.capped a - s.withdrawn.val = 0 := congrArg Fin.val h
  apply Fin.ext
  simp only [settled]
  omega

theorem settled_withdrawn_cases (s : Stream) (a : Uint256) :
    (s.settled a).withdrawn = s.withdrawn ∨ (s.settled a).withdrawn.val ≤ a.val := by
  have hcap : s.capped a ≤ a.val := min_le_left _ _
  rcases le_total (s.capped a) s.withdrawn.val with hle | hle
  · exact .inl (Fin.ext (max_eq_left hle))
  · exact .inr ((max_eq_right hle).trans_le hcap)

/-- The two checked subtractions that give the refund. -/
theorem refundDue_of_le {β : Type} (s : Stream) (a : Uint256) (h : s.withdrawn ≤ s.funded)
    {f : Uint256 → Except Revert β} :
    (checkedSub s.funded s.withdrawn >>= fun unpaid =>
      checkedSub (widen unpaid) (s.payoutDue a) >>= f) = f (s.refundDue a) := by
  have hc := s.capped_le_funded a
  rw [Fin.le_def] at h
  have hle : (s.payoutDue a).val ≤ s.funded.val - s.withdrawn.val := by
    simp only [payoutDue]
    omega
  have heq : s.funded.val - s.withdrawn.val - (s.payoutDue a).val = (s.refundDue a).val := by
    simp only [payoutDue, refundDue]
    omega
  rw [checkedSub_of_le h, ok_bind, checkedSub_of_le hle, ok_bind]
  exact congrArg f (Fin.ext heq)

/-- They fail only if the stream has paid out more than it received. -/
theorem refundDue_bind {β : Type} (s : Stream) (a : Uint256) {f : Uint256 → Except Revert β}
    {r : β} : (checkedSub s.funded s.withdrawn >>= fun unpaid =>
      checkedSub (widen unpaid) (s.payoutDue a) >>= f) = .ok r ↔
      s.withdrawn ≤ s.funded ∧ f (s.refundDue a) = .ok r := by
  constructor
  · intro h
    obtain ⟨hle, -⟩ := checkedSub_bind.mp h
    rw [s.refundDue_of_le a hle] at h
    exact ⟨hle, h⟩
  · rintro ⟨hle, h⟩
    rwa [s.refundDue_of_le a hle]

end Stream

namespace StreamVault

def lock (v : StreamVault) : StreamVault := { v with entered := 2 }

@[simp] theorem lock_streams (v : StreamVault) : v.lock.streams = v.streams := rfl
@[simp] theorem lock_entered (v : StreamVault) : v.lock.entered = 2 := rfl
@[simp] theorem lock_teeSigner (v : StreamVault) : v.lock.teeSigner = v.teeSigner := rfl
@[simp] theorem lock_nextStreamId (v : StreamVault) : v.lock.nextStreamId = v.nextStreamId := rfl
@[simp] theorem lock_owner (v : StreamVault) : v.lock.owner = v.owner := rfl
@[simp] theorem setStream_entered (v : StreamVault) (id : Uint256) (s : Stream) :
    (v.setStream id s).entered = v.entered := rfl
@[simp] theorem setStream_teeSigner (v : StreamVault) (id : Uint256) (s : Stream) :
    (v.setStream id s).teeSigner = v.teeSigner := rfl
@[simp] theorem setStream_nextStreamId (v : StreamVault) (id : Uint256) (s : Stream) :
    (v.setStream id s).nextStreamId = v.nextStreamId := rfl
@[simp] theorem setStream_owner (v : StreamVault) (id : Uint256) (s : Stream) :
    (v.setStream id s).owner = v.owner := rfl
@[simp] theorem setStream_streams (v : StreamVault) (id : Uint256) (s : Stream) :
    (v.setStream id s).streams = Function.update v.streams id s := rfl
@[simp] theorem emit_streams (v : StreamVault) (l : Log) : (v.emit l).streams = v.streams := rfl
@[simp] theorem emit_entered (v : StreamVault) (l : Log) : (v.emit l).entered = v.entered := rfl
@[simp] theorem emit_teeSigner (v : StreamVault) (l : Log) :
    (v.emit l).teeSigner = v.teeSigner := rfl
@[simp] theorem emit_nextStreamId (v : StreamVault) (l : Log) :
    (v.emit l).nextStreamId = v.nextStreamId := rfl
@[simp] theorem emit_owner (v : StreamVault) (l : Log) : (v.emit l).owner = v.owner := rfl

/-- Unlocked again, with what the call emitted. -/
def closed (v : StreamVault) (l : Log) : StreamVault := { v.emit l with entered := 1 }

@[simp] theorem closed_streams (v : StreamVault) (l : Log) : (v.closed l).streams = v.streams := rfl
@[simp] theorem closed_entered (v : StreamVault) (l : Log) : (v.closed l).entered = 1 := rfl
@[simp] theorem closed_teeSigner (v : StreamVault) (l : Log) :
    (v.closed l).teeSigner = v.teeSigner := rfl
@[simp] theorem closed_nextStreamId (v : StreamVault) (l : Log) :
    (v.closed l).nextStreamId = v.nextStreamId := rfl
@[simp] theorem closed_owner (v : StreamVault) (l : Log) : (v.closed l).owner = v.owner := rfl

/-- The stream exists and was not cancelled. -/
def Live (v : StreamVault) (id : Uint256) : Prop :=
  (v.streams id).employer ≠ 0 ∧ (v.streams id).cancelled = false

end StreamVault

/-! ## Authorizations -/

variable (ch : Chain)

def authDigest (tag : Bytes32) (streamId : Uint256) (commitment : Bytes32)
    (accrued deadline : Uint256) : Bytes32 :=
  ch.keccak256 (authPreimage ch tag streamId commitment accrued deadline)

/-- What `ecrecover` answers for a digest and a 65-byte signature. -/
def signerOf (digest : Bytes32) (sig : Bytes) : Address :=
  let v := sig.getD 64 0
  ch.ecrecover (ch.keccak256 (ethSignedPreimage digest)) (if v < 27 then v + 27 else v)
    (wordAt sig 0) (wordAt sig 1)

/-- The checks that `withdraw` and `cancelStream` make on an authorization. -/
structure Authorized (v : StreamVault) (tag : Bytes32) (timestamp streamId accrued deadline : Uint256)
    (sig : Bytes) : Prop where
  unexpired : timestamp ≤ deadline
  length : sig.length = 65
  signer : signerOf ch (authDigest ch tag streamId (v.streams streamId).commitment accrued deadline)
    sig = v.teeSigner
  signer_ne_zero : v.teeSigner ≠ 0

theorem recoverEthSigned_bind {β : Type} {digest : Bytes32} {sig : Bytes}
    {f : Address → Except Revert β} {r : β} :
    (recoverEthSigned ch digest sig >>= f) = .ok r ↔
      sig.length = 65 ∧ signerOf ch digest sig ≠ 0 ∧ f (signerOf ch digest sig) = .ok r := by
  unfold recoverEthSigned signerOf
  simp only [bind_assoc, require_bind, pure_bind]

/-! ## Entry points -/

theorem setTeeSigner_eq_ok {sender signer : Address} {v : StreamVault} {r : Step} :
    setTeeSigner sender signer v = .ok r ↔ sender = v.owner ∧ signer ≠ 0 ∧
      r = .done ({ v with teeSigner := signer }.emit (.teeSignerUpdated signer)) := by
  simp only [setTeeSigner, require_bind, pure_eq_ok]

/-- The storage after `createStream`, but for its log entry. -/
def StreamVault.created (v : StreamVault) (s : Stream) (next : Uint256) : StreamVault :=
  { v with nextStreamId := next }.setStream v.nextStreamId s

theorem createStream_eq_ok {sender recipient token : Address} {commitment : Bytes32}
    {startTime : Uint64} {encryptedTerms : Bytes} {v : StreamVault} {r : Step} :
    createStream sender recipient token commitment startTime encryptedTerms v = .ok r ↔
      recipient ≠ 0 ∧ token ≠ 0 ∧ commitment ≠ 0 ∧
      ∃ next : Uint256, next.val = v.nextStreamId.val + 1 ∧
        r = .done ((v.created ⟨sender, recipient, token, commitment, 0, 0, startTime, false⟩ next).emit
          (.streamCreated v.nextStreamId sender recipient token commitment startTime
            encryptedTerms)) := by
  simp only [createStream, require_bind, checkedAdd_bind, pure_eq_ok, Fin.val_one,
    StreamVault.created]

theorem nonReentrant_eq_ok {v : StreamVault} {body : StreamVault → Except Revert Step} {r : Step} :
    nonReentrant v body = .ok r ↔ v.entered = 1 ∧ body v.lock = .ok r := by
  simp only [nonReentrant, require_bind]
  rfl

theorem fund_eq_ok {sender : Address} {id : Uint256} {amount : Uint128} {v : StreamVault} {r : Step} :
    fund ch sender id amount v = .ok r ↔ v.entered = 1 ∧ v.Live id ∧ 0 < amount ∧
      ∃ funded : Uint128, funded.val = (v.streams id).funded.val + amount.val ∧
        r = .call (v.lock.setStream id { v.streams id with funded := funded })
          ⟨(v.streams id).token, sender, ch.this, widen amount, id, .funding⟩
          (.funded id amount) := by
  simp only [fund, nonReentrant_eq_ok, require_bind, checkedAdd_bind, pure_eq_ok]
  simp only [StreamVault.lock_streams, StreamVault.Live, and_assoc]

theorem authorized_iff {v : StreamVault} {tag : Bytes32} {timestamp id accrued deadline : Uint256}
    {sig : Bytes} :
    Authorized ch v tag timestamp id accrued deadline sig ↔
      timestamp ≤ deadline ∧ sig.length = 65 ∧
      signerOf ch (authDigest ch tag id (v.streams id).commitment accrued deadline) sig ≠ 0 ∧
      signerOf ch (authDigest ch tag id (v.streams id).commitment accrued deadline) sig =
        v.teeSigner := by
  constructor
  · rintro ⟨ht, hl, hs, h0⟩
    exact ⟨ht, hl, hs ▸ h0, hs⟩
  · rintro ⟨ht, hl, h0, hs⟩
    exact ⟨ht, hl, hs, hs ▸ h0⟩

theorem withdraw_eq_ok {timestamp id accrued deadline : Uint256} {sig : Bytes} {v : StreamVault}
    {r : Step} :
    withdraw ch timestamp id accrued deadline sig v = .ok r ↔
      v.entered = 1 ∧ v.Live id ∧
      Authorized ch v (withdrawTag ch.keccak256) timestamp id accrued deadline sig ∧
      (v.streams id).withdrawn.val < (v.streams id).capped accrued ∧
      r = .call (v.lock.setStream id ((v.streams id).paid accrued))
        (transfer ch (v.streams id).token (v.streams id).recipient
          ((v.streams id).payoutDue accrued) id .payout)
        (.withdrawn id ((v.streams id).payoutDue accrued)) := by
  simp only [withdraw, nonReentrant_eq_ok, require_bind, recoverEthSigned_bind, checkedSub_bind,
    pure_eq_ok, Stream.capped_eq, Stream.truncate_capped]
  simp only [StreamVault.lock_streams, StreamVault.lock_teeSigner, authorized_iff,
    StreamVault.Live, authDigest, and_assoc, Fin.lt_def, widen_val]
  constructor
  · rintro ⟨he, hx, hc, ht, hl, h0, hs, hw, _, hr⟩
    exact ⟨he, hx, hc, ht, hl, h0, hs, hw, hr⟩
  · rintro ⟨he, hx, hc, ht, hl, h0, hs, hw, hr⟩
    exact ⟨he, hx, hc, ht, hl, h0, hs, hw, hw.le, hr⟩

/-- The last check that a withdrawal can fail. -/
theorem withdraw_nothing_accrued {timestamp id accrued deadline : Uint256} {sig : Bytes}
    {v : StreamVault} (hu : v.entered = 1) (hl : v.Live id)
    (ha : Authorized ch v (withdrawTag ch.keccak256) timestamp id accrued deadline sig)
    (hdue : (v.streams id).capped accrued ≤ (v.streams id).withdrawn.val) :
    withdraw ch timestamp id accrued deadline sig v = .error (.message "nothing accrued") := by
  obtain ⟨ht, hlen, h0, hs⟩ := (authorized_iff ch).mp ha
  simp only [authDigest, signerOf] at h0 hs
  simp only [withdraw, nonReentrant, recoverEthSigned, Stream.capped_eq, bind_assoc, pure_bind,
    require_bind_of_pos hu]
  rw [require_bind_of_pos hl.1, require_bind_of_pos hl.2, require_bind_of_pos ht,
    require_bind_of_pos hlen, require_bind_of_pos h0, require_bind_of_pos hs]
  exact require_bind_of_neg (not_lt.mpr hdue)

theorem cancelStream_eq_ok {sender : Address} {timestamp id accrued deadline : Uint256} {sig : Bytes}
    {v : StreamVault} {r : Step} :
    cancelStream ch sender timestamp id accrued deadline sig v = .ok r ↔
      v.entered = 1 ∧ sender = (v.streams id).employer ∧ (v.streams id).cancelled = false ∧
      Authorized ch v (settleTag ch.keccak256) timestamp id accrued deadline sig ∧
      (v.streams id).withdrawn ≤ (v.streams id).funded ∧
      r = if 0 < (v.streams id).payoutDue accrued then
          .call (v.lock.setStream id ((v.streams id).settled accrued))
            (transfer ch (v.streams id).token (v.streams id).recipient
              ((v.streams id).payoutDue accrued) id .payout)
            (.settled id ((v.streams id).refundDue accrued))
        else refundEmployer ch id ((v.streams id).refundDue accrued)
          (v.lock.setStream id ((v.streams id).settled accrued)) := by
  simp only [cancelStream, nonReentrant_eq_ok, require_bind, recoverEthSigned_bind, Stream.capped_eq,
    Stream.payoutDue_eq, Stream.settled_withdrawn_eq, ok_bind, Stream.refundDue_bind, ite_pure_eq_ok]
  simp only [StreamVault.lock_streams, StreamVault.lock_teeSigner, authorized_iff, authDigest,
    and_assoc]
  rfl

theorem revealTerms_eq_ok {id : Uint256} {terms : Bytes} {v : StreamVault} {r : Step} :
    revealTerms ch id terms v = .ok r ↔ (v.streams id).employer ≠ 0 ∧
      ch.keccak256 terms = (v.streams id).commitment ∧
      r = .done (v.emit (.termsRevealed id terms)) := by
  simp only [revealTerms, require_bind, pure_eq_ok]

end StealthWage.Vault
