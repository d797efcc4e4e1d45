import StealthWage.VaultSpec

/-! # What a call does to the storage

A call that stops at a token call is `Suspended`: the record it was entered with, the
checks it passed and what it has written since determine each other. `enter_call`,
`enter_done` and the `resume` lemmas say all that a piece of the contract's code can do. -/
namespace StealthWage.Vault
open CallStack Words

variable {ch : Chain} {E : Type*}

abbrev VaultWorld (ch : Chain) (E : Type*) := World StreamVault (Msg ch) TokenCall E
abbrev VaultPending (ch : Chain) (E : Type*) := Pending StreamVault (Msg ch) TokenCall Cont E
abbrev VaultConfig (ch : Chain) (E : Type*) := Config StreamVault (Msg ch) TokenCall Cont E

/-- The stream that suspended code works on. -/
def Cont.streamId : Cont → Uint256
  | .funded id _ => id
  | .withdrawn id _ => id
  | .settled id _ => id
  | .refunded id _ => id

/-- The call passes every check of `fund`, and `funded` is the new total. -/
structure Funds (m : Msg ch) (v : StreamVault) (id : Uint256) (amount funded : Uint128) : Prop where
  entry : m.entry = .fund id amount
  live : v.Live id
  pos : 0 < amount
  sum : funded.val = (v.streams id).funded.val + amount.val

/-- The call passes every check of `withdraw`. -/
structure Withdraws (m : Msg ch) (v : StreamVault) (id accrued deadline : Uint256) (sig : Bytes) :
    Prop where
  entry : m.entry = .withdraw id accrued deadline sig
  live : v.Live id
  authorized : Authorized ch v (withdrawTag ch.keccak256) m.timestamp id accrued deadline sig
  due : (v.streams id).withdrawn.val < (v.streams id).capped accrued

/-- The call passes every check of `cancelStream`. -/
structure Cancels (m : Msg ch) (v : StreamVault) (id accrued deadline : Uint256) (sig : Bytes) :
    Prop where
  entry : m.entry = .cancelStream id accrued deadline sig
  live : v.Live id
  sender : m.sender = (v.streams id).employer
  authorized : Authorized ch v (settleTag ch.keccak256) m.timestamp id accrued deadline sig

/-- A call that waits for a token call, against the storage it has left. -/
inductive Suspended (v : StreamVault) : VaultPending ch E → Prop
  | fund {w : VaultWorld ch E} {m : Msg ch} {id : Uint256} {amount funded : Uint128}
      (checks : Funds m w.state id amount funded)
      (written : v.streams id = { w.state.streams id with funded := funded }) :
      Suspended v ⟨w, m, ⟨(w.state.streams id).token, m.sender, ch.this, widen amount, id, .funding⟩,
        .funded id amount⟩
  | withdraw {w : VaultWorld ch E} {m : Msg ch} {id accrued deadline : Uint256} {sig : Bytes}
      (checks : Withdraws m w.state id accrued deadline sig)
      (written : v.streams id = (w.state.streams id).paid accrued) :
      Suspended v ⟨w, m, transfer ch (w.state.streams id).token (w.state.streams id).recipient
        ((w.state.streams id).payoutDue accrued) id .payout,
        .withdrawn id ((w.state.streams id).payoutDue accrued)⟩
  | settle {w : VaultWorld ch E} {m : Msg ch} {id accrued deadline : Uint256} {sig : Bytes}
      (checks : Cancels m w.state id accrued deadline sig)
      (written : v.streams id = (w.state.streams id).settled accrued) :
      Suspended v ⟨w, m, transfer ch (w.state.streams id).token (w.state.streams id).recipient
        ((w.state.streams id).payoutDue accrued) id .payout,
        .settled id ((w.state.streams id).refundDue accrued)⟩
  | refund {w : VaultWorld ch E} {m : Msg ch} {id accrued deadline : Uint256} {sig : Bytes}
      (checks : Cancels m w.state id accrued deadline sig)
      (written : v.streams id = (w.state.streams id).settled accrued) :
      Suspended v ⟨w, m, transfer ch (w.state.streams id).token (w.state.streams id).employer
        ((w.state.streams id).refundDue accrued) id .refund,
        .refunded id ((w.state.streams id).refundDue accrued)⟩

namespace Suspended

variable {v v' : StreamVault} {p : VaultPending ch E}

theorem saved_live (h : Suspended v p) : p.saved.state.Live p.cont.streamId := by
  cases h with
  | fund checks => exact checks.live
  | withdraw checks => exact checks.live
  | settle checks => exact checks.live
  | refund checks => exact checks.live

/-- A call never changes who a stream is between, nor what it commits to. -/
theorem parties (h : Suspended v p) :
    (v.streams p.cont.streamId).employer = (p.saved.state.streams p.cont.streamId).employer ∧
    (v.streams p.cont.streamId).recipient = (p.saved.state.streams p.cont.streamId).recipient ∧
    (v.streams p.cont.streamId).token = (p.saved.state.streams p.cont.streamId).token ∧
    (v.streams p.cont.streamId).commitment =
      (p.saved.state.streams p.cont.streamId).commitment := by
  cases h with
  | fund _ written => simp only [Cont.streamId, written, and_self]
  | withdraw _ written => simp only [Cont.streamId, written, Stream.paid, and_self]
  | settle _ written => simp only [Cont.streamId, written, Stream.settled, and_self]
  | refund _ written => simp only [Cont.streamId, written, Stream.settled, and_self]

theorem exists_employer (h : Suspended v p) : (v.streams p.cont.streamId).employer ≠ 0 := by
  rw [h.parties.1]
  exact h.saved_live.1

theorem request_streamId (h : Suspended v p) : p.request.streamId = p.cont.streamId := by
  cases h <;> rfl

theorem congr (h : Suspended v p)
    (hv : v'.streams p.cont.streamId = v.streams p.cont.streamId) : Suspended v' p := by
  cases h with
  | fund checks written => exact .fund checks (hv.trans written)
  | withdraw checks written => exact .withdraw checks (hv.trans written)
  | settle checks written => exact .settle checks (hv.trans written)
  | refund checks written => exact .refund checks (hv.trans written)

theorem cancels {id accrued deadline : Uint256} {sig : Bytes} (h : Suspended v p)
    (he : p.msg.entry = .cancelStream id accrued deadline sig) :
    Cancels p.msg p.saved.state id accrued deadline sig ∧
    v.streams id = (p.saved.state.streams id).settled accrued := by
  cases h with
  | fund checks => simp [checks.entry] at he
  | withdraw checks => simp [checks.entry] at he
  | settle checks written =>
    obtain ⟨rfl, rfl, rfl, rfl⟩ := Entry.cancelStream.inj (checks.entry.symm.trans he)
    exact ⟨checks, written⟩
  | refund checks written =>
    obtain ⟨rfl, rfl, rfl, rfl⟩ := Entry.cancelStream.inj (checks.entry.symm.trans he)
    exact ⟨checks, written⟩

end Suspended

/-- What a call that stops at a token call leaves behind. -/
structure Opens (w : VaultWorld ch E) (m : Msg ch) (s : StreamVault) (c : TokenCall) (k : Cont) :
    Prop where
  unlocked : w.state.entered = 1
  unpaid : ∀ id refund, k = .refunded id refund →
    (s.streams id).withdrawn = (w.state.streams id).withdrawn
  suspended : Suspended s ⟨w, m, c, k⟩
  state : s = w.state.lock.setStream k.streamId (s.streams k.streamId)

/-- What a call that returns without a token call leaves behind. -/
inductive Closes (m : Msg ch) (v : StreamVault) : StreamVault → Prop
  | signer {teeSigner : Address} (entry : m.entry = .setTeeSigner teeSigner)
      (sender : m.sender = v.owner) (nonzero : teeSigner ≠ 0) :
      Closes m v ({ v with teeSigner := teeSigner }.emit (.teeSignerUpdated teeSigner))
  | reveal {id : Uint256} {terms : Bytes} (entry : m.entry = .revealTerms id terms)
      (created : (v.streams id).employer ≠ 0)
      (matching : ch.keccak256 terms = (v.streams id).commitment) :
      Closes m v (v.emit (.termsRevealed id terms))
  | create {recipient token : Address} {commitment : Bytes32} {startTime : Uint64}
      {encryptedTerms : Bytes} {next : Uint256}
      (entry : m.entry = .createStream recipient token commitment startTime encryptedTerms)
      (recipient_ne_zero : recipient ≠ 0) (token_ne_zero : token ≠ 0)
      (commitment_ne_zero : commitment ≠ 0) (next_eq : next.val = v.nextStreamId.val + 1) :
      Closes m v ((v.created ⟨m.sender, recipient, token, commitment, 0, 0, startTime, false⟩
        next).emit (.streamCreated v.nextStreamId m.sender recipient token commitment startTime
          encryptedTerms))
  | cancel {id accrued deadline : Uint256} {sig : Bytes} (unlocked : v.entered = 1)
      (checks : Cancels m v id accrued deadline sig)
      (covered : (v.streams id).withdrawn ≤ (v.streams id).funded)
      (unpaid : (v.streams id).payoutDue accrued = 0)
      (spent : (v.streams id).refundDue accrued = 0) :
      Closes m v ((v.lock.setStream id ((v.streams id).settled accrued)).closed
        (.streamCancelled id 0))

theorem Closes.cancels {m : Msg ch} {v s : StreamVault} {id accrued deadline : Uint256}
    {sig : Bytes} (h : Closes m v s) (he : m.entry = .cancelStream id accrued deadline sig) :
    v.entered = 1 ∧ Cancels m v id accrued deadline sig ∧
    s.streams id = (v.streams id).settled accrued := by
  cases h with
  | signer entry => simp [he] at entry
  | reveal entry => simp [he] at entry
  | create entry => simp [he] at entry
  | cancel unlocked checks =>
    obtain ⟨rfl, rfl, rfl, rfl⟩ := Entry.cancelStream.inj (checks.entry.symm.trans he)
    exact ⟨unlocked, checks, Function.update_self ..⟩

theorem uint256_eq_zero {x : Uint256} (h : ¬ 0 < x) : x = 0 :=
  Fin.le_zero_iff.mp (not_lt.mp h)

theorem refundEmployer_eq {id refund : Uint256} {v : StreamVault} :
    refundEmployer ch id refund v = if 0 < refund then
      .call v (transfer ch (v.streams id).token (v.streams id).employer refund id .refund)
        (.refunded id refund)
      else .done (v.closed (.streamCancelled id 0)) := by
  unfold refundEmployer
  split_ifs with h
  · rfl
  · rw [uint256_eq_zero h]
    rfl

theorem enter_call {w : VaultWorld ch E} {m : Msg ch} {s : StreamVault} {c : TokenCall} {k : Cont}
    (h : enter ch m w.state = .ok (.call s c k)) : Opens w m s c k := by
  unfold enter at h
  cases he : m.entry with
  | setTeeSigner signer =>
    simp only [he, setTeeSigner_eq_ok, reduceCtorEq, and_false] at h
  | createStream recipient token commitment startTime blob =>
    simp only [he, createStream_eq_ok, reduceCtorEq, and_false, exists_false] at h
  | revealTerms id terms =>
    simp only [he, revealTerms_eq_ok, reduceCtorEq, and_false] at h
  | fund id amount =>
    simp only [he, fund_eq_ok] at h
    obtain ⟨hu, hl, hp, funded, hf, hr⟩ := h
    simp only [Progress.call.injEq] at hr
    obtain ⟨rfl, rfl, rfl⟩ := hr
    exact ⟨hu, by simp, .fund ⟨he, hl, hp, hf⟩ (by simp), by simp [Cont.streamId]⟩
  | withdraw id accrued deadline sig =>
    simp only [he, withdraw_eq_ok] at h
    obtain ⟨hu, hl, ha, hd, hr⟩ := h
    simp only [Progress.call.injEq] at hr
    obtain ⟨rfl, rfl, rfl⟩ := hr
    exact ⟨hu, by simp, .withdraw ⟨he, hl, ha, hd⟩ (by simp), by simp [Cont.streamId]⟩
  | cancelStream id accrued deadline sig =>
    simp only [he, cancelStream_eq_ok] at h
    obtain ⟨hu, hs, hc, ha, hcov, hr⟩ := h
    have checks : Cancels m w.state id accrued deadline sig :=
      ⟨he, ⟨hs ▸ m.sender_ne_zero, hc⟩, hs, ha⟩
    split_ifs at hr with hpay
    · simp only [Progress.call.injEq] at hr
      obtain ⟨rfl, rfl, rfl⟩ := hr
      exact ⟨hu, by simp, .settle checks (by simp), by simp [Cont.streamId]⟩
    · rw [refundEmployer_eq] at hr
      split_ifs at hr with href
      simp only [Progress.call.injEq, StreamVault.setStream_streams, Function.update_self,
        StreamVault.lock_streams] at hr
      obtain ⟨rfl, rfl, rfl⟩ := hr
      refine ⟨hu, ?_, .refund checks (by simp), by simp [Cont.streamId]⟩
      intro i r hk
      obtain ⟨rfl, -⟩ := Cont.refunded.inj hk
      rw [StreamVault.setStream_streams, Function.update_self]
      exact (w.state.streams id).settled_of_payoutDue_eq_zero (uint256_eq_zero hpay)

theorem enter_done {m : Msg ch} {v s : StreamVault} (h : enter ch m v = .ok (.done s)) :
    Closes m v s := by
  unfold enter at h
  cases he : m.entry with
  | setTeeSigner signer =>
    simp only [he, setTeeSigner_eq_ok, Progress.done.injEq] at h
    obtain ⟨hs, h0, rfl⟩ := h
    exact .signer he hs h0
  | createStream recipient token commitment startTime blob =>
    simp only [he, createStream_eq_ok, Progress.done.injEq] at h
    obtain ⟨hr, ht, hc, next, hn, rfl⟩ := h
    exact .create he hr ht hc hn
  | revealTerms id terms =>
    simp only [he, revealTerms_eq_ok, Progress.done.injEq] at h
    obtain ⟨hx, hk, rfl⟩ := h
    exact .reveal he hx hk
  | fund id amount =>
    simp only [he, fund_eq_ok, reduceCtorEq, and_false, exists_false] at h
  | withdraw id accrued deadline sig =>
    simp only [he, withdraw_eq_ok, reduceCtorEq, and_false] at h
  | cancelStream id accrued deadline sig =>
    simp only [he, cancelStream_eq_ok] at h
    obtain ⟨hu, hs, hc, ha, hcov, hr⟩ := h
    split_ifs at hr with hpay
    rw [refundEmployer_eq] at hr
    split_ifs at hr with href
    obtain rfl := Progress.done.inj hr
    exact .cancel hu ⟨he, ⟨hs ▸ m.sender_ne_zero, hc⟩, hs, ha⟩ hcov (uint256_eq_zero hpay)
      (uint256_eq_zero href)

/-- The refund that suspended code has decided on but not yet sent. -/
def Cont.owed : Cont → ℕ
  | .settled _ refund => refund.val
  | _ => 0

/-- Code that waits for a token call goes on whenever the token answers `true`. -/
theorem resume_true (k : Cont) (v : StreamVault) : ∃ r, resume ch k true v = .ok r := by
  cases k <;> exact ⟨_, rfl⟩

/-- Code that goes on after a token call changes no stream. -/
theorem resume_done {k : Cont} {ok : Bool} {v s : StreamVault}
    (h : resume ch k ok v = .ok (.done s)) : ok = true ∧ k.owed = 0 ∧ ∃ log, s = v.closed log := by
  cases k with
  | funded id amount =>
    simp only [resume, require_bind, pure_eq_ok] at h
    exact ⟨h.1, rfl, _, Progress.done.inj h.2⟩
  | withdrawn id payout =>
    simp only [resume, require_bind, pure_eq_ok] at h
    exact ⟨h.1, rfl, _, Progress.done.inj h.2⟩
  | settled id refund =>
    simp only [resume, require_bind, pure_eq_ok, refundEmployer_eq] at h
    obtain ⟨hok, hr⟩ := h
    split_ifs at hr with href
    refine ⟨hok, ?_, _, Progress.done.inj hr⟩
    rw [uint256_eq_zero href]
    rfl
  | refunded id refund =>
    simp only [resume, require_bind, pure_eq_ok] at h
    exact ⟨h.1, rfl, _, Progress.done.inj h.2⟩

/-- Only `cancelStream` makes a second token call. -/
theorem resume_call {k k' : Cont} {ok : Bool} {v s : StreamVault} {c : TokenCall}
    (h : resume ch k ok v = .ok (.call s c k')) :
    ok = true ∧ s = v ∧ ∃ id refund, 0 < refund ∧ k = .settled id refund ∧
      k' = .refunded id refund ∧
      c = transfer ch (v.streams id).token (v.streams id).employer refund id .refund := by
  cases k with
  | settled id refund =>
    simp only [resume, require_bind, pure_eq_ok, refundEmployer_eq] at h
    obtain ⟨hok, hr⟩ := h
    split_ifs at hr with href
    simp only [Progress.call.injEq] at hr
    obtain ⟨rfl, rfl, rfl⟩ := hr
    exact ⟨hok, rfl, id, refund, href, rfl, rfl, rfl⟩
  | funded id amount => simp only [resume, require_bind, pure_eq_ok, StreamVault.leave,
      reduceCtorEq, and_false] at h
  | withdrawn id payout => simp only [resume, require_bind, pure_eq_ok, StreamVault.leave,
      reduceCtorEq, and_false] at h
  | refunded id refund => simp only [resume, require_bind, pure_eq_ok, StreamVault.leave,
      reduceCtorEq, and_false] at h

end StealthWage.Vault
