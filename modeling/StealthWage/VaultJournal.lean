import StealthWage.VaultLifecycle

/-! # The storage can be read back from the events

An indexer sees the events and nothing else. Reading them in order from the deployment gives
the whole storage whenever no call is under way; while one is, the storage is ahead of the
events in the record that the call works on and in the lock. -/
namespace StealthWage.Vault
open CallStack Runs Words

variable {ch : Chain} {E : Type*}

namespace StreamVault

/-- What one more event says about the storage. -/
def read (v : StreamVault) (log : Log) : StreamVault :=
  match log with
  | .streamCreated streamId employer recipient token commitment startTime _ =>
    (v.created ⟨employer, recipient, token, commitment, 0, 0, startTime, false⟩
      (streamId + 1)).emit log
  | .streamFunded streamId amount =>
    let s := v.streams streamId
    (v.setStream streamId { s with funded := s.funded + truncate amount }).emit log
  | .withdrawn streamId _ amount =>
    let s := v.streams streamId
    (v.setStream streamId { s with withdrawn := s.withdrawn + truncate amount }).emit log
  | .streamCancelled streamId refunded =>
    let s := v.streams streamId
    (v.setStream streamId
      { s with cancelled := true, withdrawn := s.funded - truncate refunded }).emit log
  | .termsRevealed _ _ => v.emit log
  | .teeSignerUpdated newSigner => { v with teeSigner := newSigner }.emit log

/-- All the events that a vault has emitted since it was `v`. -/
def replay (v : StreamVault) (logs : List Log) : StreamVault := logs.foldl read v

theorem replay_concat (v : StreamVault) (logs : List Log) (log : Log) :
    v.replay (logs ++ [log]) = (v.replay logs).read log := by
  simp [replay]

end StreamVault

/-- The event that ends a call which has waited for the token. -/
def Cont.event (v : StreamVault) : Cont → Log
  | .funded streamId amount => .streamFunded streamId (widen amount)
  | .withdrawn streamId payout => .withdrawn streamId (v.streams streamId).recipient payout
  | .settled streamId _ => .streamCancelled streamId 0
  | .refunded streamId refund => .streamCancelled streamId refund

theorem resume_event {k : Cont} {ok : Bool} {v s : StreamVault}
    (h : resume ch k ok v = .ok (.done s)) : s = v.closed (k.event v) := by
  cases k with
  | funded id amount =>
    simp only [resume, require_bind, pure_eq_ok] at h
    exact Progress.done.inj h.2
  | withdrawn id payout =>
    simp only [resume, require_bind, pure_eq_ok] at h
    exact Progress.done.inj h.2
  | settled id refund =>
    simp only [resume, require_bind, pure_eq_ok, refundEmployer_eq] at h
    obtain ⟨-, hr⟩ := h
    split_ifs at hr
    exact Progress.done.inj hr
  | refunded id refund =>
    simp only [resume, require_bind, pure_eq_ok] at h
    exact Progress.done.inj h.2

/-! ## One event -/

theorem fin_succ_of_next {n : ℕ} [NeZero n] {a b : Fin n} (h : b.val = a.val + 1) (hn : 1 < n) :
    b = a + 1 := by
  have hone : ((1 : Fin n) : ℕ) = 1 := by
    rw [Fin.val_one', Nat.mod_eq_of_lt hn]
  apply Fin.ext
  rw [Fin.val_add, hone, ← h, Nat.mod_eq_of_lt b.isLt]

theorem next_eq {a b : Uint256} (h : b.val = a.val + 1) : b = a + 1 :=
  fin_succ_of_next h (by norm_num)

/-- The reader has the record that `p` was entered with, and the storage is that of the reader
but for this record and the lock. -/
structure Ahead (b v : StreamVault) (p : VaultPending ch E) : Prop where
  record : b.streams p.cont.streamId = p.saved.state.streams p.cont.streamId
  state : v = b.lock.setStream p.cont.streamId (v.streams p.cont.streamId)

theorem Closes.read {m : Msg ch} {v s : StreamVault} (h : Closes m v s) (hu : v.entered = 1) :
    ∃ log, s.logs = v.logs ++ [log] ∧ s = v.read log := by
  cases h with
  | signer => exact ⟨_, rfl, rfl⟩
  | reveal => exact ⟨_, rfl, rfl⟩
  | create _ _ _ _ next =>
    refine ⟨_, rfl, ?_⟩
    rw [next_eq next]
    rfl
  | @cancel id accrued deadline sig unlocked checks covered unpaid spent =>
    have hrefund : (v.streams id).funded.val -
        max (v.streams id).withdrawn.val ((v.streams id).capped accrued) = 0 :=
      congrArg Fin.val spent
    have hcap := (v.streams id).capped_le_funded accrued
    have hcov := Fin.le_def.mp covered
    have hsettled : (v.streams id).settled accrued =
        { v.streams id with
          cancelled := true, withdrawn := (v.streams id).funded - truncate 0 } := by
      have hzero : truncate 0 = 0 := truncate_of_lt (by norm_num)
      simp only [Stream.settled]
      congr 1
      apply Fin.ext
      rw [hzero, Fin.sub_val_of_le (Fin.zero_le _), Fin.val_zero]
      simp only
      omega
    refine ⟨.streamCancelled id 0, rfl, ?_⟩
    simp only [StreamVault.read, ← hsettled, StreamVault.closed, StreamVault.emit,
      StreamVault.setStream, StreamVault.lock, hu]

/-- What others do meanwhile is read in the same way: it concerns other records. -/
theorem Closes.read_ahead {m : Msg ch} {b v s : StreamVault} {p : VaultPending ch E}
    (h : Closes m v s) (ha : Ahead b v p) (hne : p.cont.streamId ≠ v.nextStreamId) :
    ∃ log, s.logs = v.logs ++ [log] ∧ Ahead (b.read log) s p := by
  obtain ⟨r, rfl⟩ : ∃ r, v = b.lock.setStream p.cont.streamId r := ⟨_, ha.state⟩
  have hself : (b.lock.setStream p.cont.streamId r).streams p.cont.streamId = r :=
    Function.update_self ..
  cases h with
  | signer => exact ⟨_, rfl, ha.record, by rw [StreamVault.emit_streams, hself]; rfl⟩
  | reveal => exact ⟨_, rfl, ha.record, by rw [StreamVault.emit_streams, hself]; rfl⟩
  | create _ _ _ _ next =>
    refine ⟨_, rfl, ?_, ?_⟩
    · exact (Function.update_of_ne hne _ _).trans ha.record
    · have hfresh : p.cont.streamId ≠ b.nextStreamId := hne
      rw [next_eq next]
      simp only [StreamVault.read, StreamVault.created, StreamVault.setStream, StreamVault.emit,
        StreamVault.lock, Function.update_of_ne hfresh, Function.update_self]
      rw [Function.update_comm hfresh]
  | cancel unlocked => simp at unlocked

/-! ## Every run -/

/-- How the storage stands to what the events since `v₀` say. -/
structure Journaled (v₀ : StreamVault) (pending : Option (VaultPending ch E))
    (w : VaultWorld ch E) : Prop where
  kept : Kept pending w
  idle : pending = none → w.state = v₀.replay w.state.logs
  ahead : ∀ p, pending = some p → Ahead (v₀.replay w.state.logs) w.state p

namespace Journaled

variable {v₀ : StreamVault} {pending : Option (VaultPending ch E)} {w : VaultWorld ch E}

theorem closes {m : Msg ch} {s : StreamVault} (h : Journaled v₀ pending w)
    (hc : Closes m w.state s) : Journaled v₀ pending (w.finish m s) := by
  refine ⟨hc.kept h.kept, fun hnone => ?_, fun p hp => ?_⟩
  · subst hnone
    obtain ⟨log, hlogs, hs⟩ := hc.read h.kept.lock
    rw [World.finish_state, hlogs, StreamVault.replay_concat, ← h.idle rfl]
    exact hs
  · subst hp
    have hfresh := (h.kept.born (h.kept.frame p rfl).exists_employer).2.ne
    obtain ⟨log, hlogs, hs⟩ := hc.read_ahead (h.ahead p rfl) hfresh
    rw [World.finish_state, hlogs, StreamVault.replay_concat]
    exact hs

theorem opens {m : Msg ch} {s : StreamVault} {c : TokenCall} {k : Cont}
    (h : Journaled v₀ pending w) (ho : Opens w m s c k) :
    Journaled v₀ (some ⟨w, m, c, k⟩) (w.request c s) := by
  obtain ⟨rfl, hk⟩ := ho.kept h.kept
  refine ⟨hk, by simp, ?_⟩
  rintro p ⟨⟩
  rw [World.request_state, ho.logs.1, ← h.idle rfl]
  exact ⟨rfl, ho.state⟩

/-- `cancelStream` goes on to its second token call. -/
theorem refunds {p : VaultPending ch E} {id refund : Uint256} {c : TokenCall} {e : E}
    (h : Journaled v₀ (some p) w) (hcont : p.cont = .settled id refund)
    (hk : Kept (some ⟨p.saved, p.msg, c, .refunded id refund⟩)
      ((w.move e).request c w.state)) :
    Journaled v₀ (some ⟨p.saved, p.msg, c, .refunded id refund⟩)
      ((w.move e).request c w.state) := by
  have ha := h.ahead p rfl
  refine ⟨hk, by simp, ?_⟩
  rintro q ⟨⟩
  have hid : p.cont.streamId = id := by rw [hcont]; rfl
  exact ⟨hid ▸ ha.record, hid ▸ ha.state⟩

end Journaled

/-- The record that an event is about still bears it out. -/
def Describes (ch : Chain) (v : StreamVault) : Log → Prop
  | .streamCreated streamId employer recipient token commitment startTime _ =>
    let s := v.streams streamId
    employer ≠ 0 ∧ s.employer = employer ∧ s.recipient = recipient ∧ s.token = token ∧
      s.commitment = commitment ∧ s.startTime = startTime
  | .termsRevealed streamId terms =>
    (v.streams streamId).employer ≠ 0 ∧ ch.keccak256 terms = (v.streams streamId).commitment
  | _ => True

theorem Describes.grows {w w' : VaultWorld ch E} {log : Log} (h : Describes ch w.state log)
    (hg : Grows w w') : Describes ch w'.state log := by
  cases log with
  | streamCreated id employer recipient token commitment startTime blob =>
    obtain ⟨h0, he, hr, ht, hc, hs⟩ := h
    obtain ⟨he', hr', ht', hc', hs'⟩ := hg.parties id (he ▸ h0)
    exact ⟨h0, he'.trans he, hr'.trans hr, ht'.trans ht, hc'.trans hc, hs'.trans hs⟩
  | termsRevealed id terms =>
    obtain ⟨he, -, -, hc, -⟩ := hg.parties id h.1
    exact ⟨he ▸ h.1, h.2.trans hc.symm⟩
  | _ => trivial

theorem Closes.describes {m : Msg ch} {v s : StreamVault} (h : Closes m v s) :
    ∃ log, s.logs = v.logs ++ [log] ∧ Describes ch s log := by
  cases h with
  | signer => exact ⟨_, rfl, trivial⟩
  | reveal _ created matching => exact ⟨_, rfl, created, matching⟩
  | create =>
    refine ⟨_, rfl, m.sender_ne_zero, ?_⟩
    simp [StreamVault.created]
  | cancel => exact ⟨_, rfl, trivial⟩

theorem Cont.describes (k : Cont) (v s : StreamVault) : Describes ch s (k.event v) := by
  cases k <;> trivial

/-- Every event on record describes the storage. -/
structure Announced (pending : Option (VaultPending ch E)) (w : VaultWorld ch E) : Prop where
  kept : Kept pending w
  logs : ∀ log ∈ w.state.logs, Describes ch w.state log

theorem Announced.forward {pending pending' : Option (VaultPending ch E)} {w w' : VaultWorld ch E}
    (h : Announced pending w) (hk : Kept pending' w') (hg : Grows w w') {more : List Log}
    (hlogs : w'.state.logs = w.state.logs ++ more) (hmore : ∀ log ∈ more, Describes ch w'.state log) :
    Announced pending' w' := by
  refine ⟨hk, fun log hlog => ?_⟩
  rw [hlogs, List.mem_append] at hlog
  rcases hlog with hlog | hlog
  · exact (h.logs log hlog).grows hg
  · exact hmore log hlog

theorem announced_guarded (out : Outside TokenCall E) :
    Guarded (contract ch) out (fun _ _ => True) (@Announced ch E) where
  enter_done p w m s h _ hr := by
    have hc := enter_done hr
    obtain ⟨log, hlogs, hlog⟩ := hc.describes
    exact h.forward (hc.kept h.kept) (h.kept.closes_grows hc) hlogs (by simpa using hlog)
  enter_call p w m s c k h _ hr := by
    have ho := enter_call hr
    obtain ⟨hnone, hk⟩ := ho.kept h.kept
    exact ⟨hnone, h.forward hk ho.grows (ho.logs.1.trans (List.append_nil _).symm)
      (List.forall_mem_nil _)⟩
  resume_done p w ok e s h hsaved he hr := by
    have hk := (kept_guarded out).resume_done p w ok e s h.kept hsaved.kept he hr
    have hg := (grows_advances out).resume p w ok e (.done s) h.kept hr
    obtain rfl := resume_event hr
    exact h.forward hk hg rfl (by simpa using p.cont.describes _ _)
  resume_call p w ok e s c k h hsaved he hr := by
    have hk := (kept_guarded out).resume_call p w ok e s c k h.kept hsaved.kept he hr
    have hg := (grows_advances out).resume p w ok e (.call s c k) h.kept hr
    obtain ⟨-, rfl, -⟩ := resume_call hr
    exact h.forward hk hg (List.append_nil _).symm (List.forall_mem_nil _)
  drift p w e h he := ⟨(kept_guarded out).drift p w e h.kept he, h.logs⟩

theorem Reached.ordered {w : VaultWorld ch E} (h : Reached w) :
    ∃ deployer, Ordered deployer none w := by
  obtain ⟨out, deployer, teeSigner, e, events, hrun⟩ := h
  exact ⟨deployer, (covers_run (c := deployed ch deployer teeSigner e)
    (ordered_guarded out deployer) (ordered_constructor deployer teeSigner e) hrun).head⟩

theorem Reached.announced {w : VaultWorld ch E} (h : Reached w) :
    ∀ log ∈ w.state.logs, Describes ch w.state log := by
  obtain ⟨out, deployer, teeSigner, e, events, hrun⟩ := h
  have hinitial : Announced none (deployed ch deployer teeSigner e).world :=
    ⟨kept_constructor deployer teeSigner e, by simp [deployed, StreamVault.constructor]⟩
  exact (covers_run (c := deployed ch deployer teeSigner e) (announced_guarded out) hinitial
    hrun).head.logs

/-- Two moments of one run at which no call is under way. -/
def Continues (w w' : VaultWorld ch E) : Prop :=
  ∃ out deployer teeSigner e events more,
    run (step (contract ch) out) (deployed ch deployer teeSigner e) events = some ⟨w, []⟩ ∧
    run (step (contract ch) out) ⟨w, []⟩ more = some ⟨w', []⟩

namespace Continues

variable {w w' : VaultWorld ch E}

theorem before (h : Continues w w') : Reached w := by
  obtain ⟨out, deployer, teeSigner, e, events, -, hrun, -⟩ := h
  exact ⟨out, deployer, teeSigner, e, events, hrun⟩

theorem after (h : Continues w w') : Reached w' := by
  obtain ⟨out, deployer, teeSigner, e, events, more, hrun, hmore⟩ := h
  exact ⟨out, deployer, teeSigner, e, events ++ more, run_append_eq_some.mpr ⟨_, hrun, hmore⟩⟩

theorem grows (h : Continues w w') : Grows w w' := by
  have hkept := h.before.kept
  obtain ⟨out, deployer, teeSigner, e, events, more, -, hmore⟩ := h
  have hstays : Stays (contract ch) out ⟨w, []⟩ more := stays_of_nil rfl more
  exact (since_run (c := ⟨w, []⟩) (kept_guarded out) (grows_advances out) hkept hstays hmore).world

end Continues

end StealthWage.Vault
