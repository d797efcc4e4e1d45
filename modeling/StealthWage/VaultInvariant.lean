import StealthWage.VaultSteps

/-! # The invariant of the vault

`Kept` ties the storage to the token calls made so far and, while a call is suspended, to
the call and the world it was entered in. It holds in every world of every run, for
arbitrary tokens and arbitrarily nested calls. -/
namespace StealthWage.Vault
open CallStack Words

variable {ch : Chain} {E : Type*}

/-- Total of the token calls made for one stream and purpose. -/
def total (purpose : Purpose) (id : Uint256) (calls : List TokenCall) : ℕ :=
  ((calls.filter fun c => c.streamId = id ∧ c.purpose = purpose).map fun c => c.amount.val).sum

abbrev payouts (w : VaultWorld ch E) (id : Uint256) : ℕ := total .payout id w.issued
abbrev refunds (w : VaultWorld ch E) (id : Uint256) : ℕ := total .refund id w.issued

@[simp] theorem total_nil (purpose : Purpose) (id : Uint256) : total purpose id [] = 0 := rfl

theorem total_append (purpose : Purpose) (id : Uint256) (calls more : List TokenCall) :
    total purpose id (calls ++ more) = total purpose id calls + total purpose id more := by
  simp only [total, List.filter_append, List.map_append, List.sum_append]

theorem total_singleton (purpose : Purpose) (id : Uint256) (c : TokenCall) :
    total purpose id [c] = if c.streamId = id ∧ c.purpose = purpose then c.amount.val else 0 := by
  unfold total
  split_ifs with h <;> simp [h]

theorem total_eq_zero {purpose : Purpose} {id : Uint256} {calls : List TokenCall}
    (h : ∀ c ∈ calls, c.streamId ≠ id) : total purpose id calls = 0 := by
  have hf : calls.filter (fun c => c.streamId = id ∧ c.purpose = purpose) = [] := by
    apply List.filter_eq_nil_iff.mpr
    intro c hc
    simp [h c hc]
  unfold total
  rw [hf]
  rfl

/-- The refund that a suspended `cancelStream` has decided on but not yet sent. -/
def owedRefund (pending : Option (VaultPending ch E)) (id : Uint256) : ℕ :=
  match pending with
  | none => 0
  | some p => if p.cont.streamId = id then p.cont.owed else 0

theorem owedRefund_of_ne {pending : Option (VaultPending ch E)} {id : Uint256}
    (h : ∀ p, pending = some p → p.cont.streamId ≠ id) : owedRefund pending id = 0 := by
  cases pending with
  | none => rfl
  | some p => exact if_neg (h p rfl)

theorem owedRefund_of_owed {pending : Option (VaultPending ch E)} {id : Uint256}
    (h : ∀ p, pending = some p → p.cont.owed = 0) : owedRefund pending id = 0 := by
  cases pending with
  | none => rfl
  | some p =>
    have hp : p.cont.owed = 0 := h p rfl
    simp only [owedRefund, hp, ite_self]

/-- A call made for a stream moves the stream's token, to the party it is meant for. -/
def CallOk (ch : Chain) (v : StreamVault) (c : TokenCall) : Prop :=
  (v.streams c.streamId).employer ≠ 0 ∧ c.token = (v.streams c.streamId).token ∧
  match c.purpose with
  | .funding => c.payee = ch.this ∧ c.payer ≠ ch.this
  | .payout => c.payee = (v.streams c.streamId).recipient ∧ c.payer = ch.this
  | .refund => c.payee = (v.streams c.streamId).employer ∧ c.payer = ch.this

structure Kept (pending : Option (VaultPending ch E)) (w : VaultWorld ch E) : Prop where
  lock : w.state.entered = if pending.isSome then 2 else 1
  nonzero : w.state.nextStreamId ≠ 0
  unborn : ∀ id, id = 0 ∨ w.state.nextStreamId ≤ id → w.state.streams id = Stream.zero
  covered : ∀ id, (w.state.streams id).withdrawn ≤ (w.state.streams id).funded
  paid : ∀ id, payouts w id = (w.state.streams id).withdrawn.val
  refunded : ∀ id, refunds w id + owedRefund pending id =
    if (w.state.streams id).cancelled then
      (w.state.streams id).funded.val - (w.state.streams id).withdrawn.val
    else 0
  issued : ∀ c ∈ w.issued, CallOk ch w.state c
  frame : ∀ p, pending = some p → Suspended w.state p

namespace Kept

variable {pending : Option (VaultPending ch E)} {w : VaultWorld ch E}

/-- A stream with an employer was created: its id is below the next one. -/
theorem born (h : Kept pending w) {id : Uint256} (hx : (w.state.streams id).employer ≠ 0) :
    id ≠ 0 ∧ id < w.state.nextStreamId := by
  by_contra hn
  have hid : id = 0 ∨ w.state.nextStreamId ≤ id := by
    by_cases h0 : id = 0
    · exact .inl h0
    · exact .inr (not_lt.mp fun hlt => hn ⟨h0, hlt⟩)
  exact hx (by rw [h.unborn id hid]; rfl)

theorem entered_eq_one (h : Kept pending w) (he : w.state.entered = 1) : pending = none := by
  have hl := h.lock
  cases pending with
  | none => rfl
  | some p =>
    rw [he] at hl
    simp at hl

/-- Changes that no clause looks at. -/
theorem congr (h : Kept pending w) {w' : VaultWorld ch E}
    (hs : w'.state.streams = w.state.streams) (hn : w'.state.nextStreamId = w.state.nextStreamId)
    (he : w'.state.entered = w.state.entered) (hi : w'.issued = w.issued) : Kept pending w' where
  lock := by rw [he]; exact h.lock
  nonzero := by rw [hn]; exact h.nonzero
  unborn := by rw [hs, hn]; exact h.unborn
  covered := by rw [hs]; exact h.covered
  paid := by unfold payouts; rw [hs, hi]; exact h.paid
  refunded := by unfold refunds; rw [hs, hi]; exact h.refunded
  issued := by rw [hi]; unfold CallOk; rw [hs]; exact h.issued
  frame := fun p hp => (h.frame p hp).congr (by rw [hs])

/-- One stream changes and `more` calls are made for it, from a world where no call is
suspended. -/
theorem update (h : Kept none w) {id : Uint256} {s : Stream} (more : List TokenCall)
    {w' : VaultWorld ch E} (hx : (w.state.streams id).employer ≠ 0)
    (hs : w'.state.streams = Function.update w.state.streams id s)
    (hn : w'.state.nextStreamId = w.state.nextStreamId)
    (he : w'.state.entered = if pending.isSome then 2 else 1)
    (hi : w'.issued = w.issued ++ more)
    (hparty : s.employer = (w.state.streams id).employer ∧
      s.recipient = (w.state.streams id).recipient ∧ s.token = (w.state.streams id).token)
    (hlive : (w.state.streams id).cancelled = false) (hcov : s.withdrawn ≤ s.funded)
    (hpaid : (w.state.streams id).withdrawn.val + total .payout id more = s.withdrawn.val)
    (href : total .refund id more + owedRefund pending id =
      if s.cancelled then s.funded.val - s.withdrawn.val else 0)
    (howed : ∀ j, j ≠ id → owedRefund pending j = 0)
    (hmore : ∀ c ∈ more, c.streamId = id ∧ CallOk ch w'.state c)
    (hframe : ∀ p, pending = some p → Suspended w'.state p) : Kept pending w' where
  lock := he
  nonzero := by rw [hn]; exact h.nonzero
  unborn := by
    intro j hj
    rw [hn] at hj
    have hne : j ≠ id := by
      rintro rfl
      rw [h.unborn j hj] at hx
      exact hx rfl
    rw [hs, Function.update_of_ne hne]
    exact h.unborn j hj
  covered := by
    intro j
    rw [hs]
    by_cases hj : j = id
    · subst hj
      simpa using hcov
    · rw [Function.update_of_ne hj]
      exact h.covered j
  paid := by
    intro j
    unfold payouts
    rw [hs, hi, total_append]
    by_cases hj : j = id
    · subst hj
      rw [Function.update_self, ← hpaid, ← h.paid j]
    · have hz : total .payout j more = 0 :=
        total_eq_zero fun c hc => (hmore c hc).1 ▸ Ne.symm hj
      rw [Function.update_of_ne hj, ← h.paid j, hz, Nat.add_zero]
  refunded := by
    intro j
    have hr := h.refunded j
    unfold refunds at hr ⊢
    rw [hs, hi, total_append]
    by_cases hj : j = id
    · subst hj
      simp only [hlive, Bool.false_eq_true, if_false, owedRefund] at hr
      rw [Function.update_self, ← href]
      omega
    · have hz : total .refund j more = 0 :=
        total_eq_zero fun c hc => (hmore c hc).1 ▸ Ne.symm hj
      rw [Function.update_of_ne hj, ← hr, howed j hj, hz]
      rfl
  issued := by
    intro c hc
    rw [hi, List.mem_append] at hc
    rcases hc with hc | hc
    · have hok := h.issued c hc
      unfold CallOk at hok ⊢
      rw [hs]
      by_cases hj : c.streamId = id
      · rw [hj] at hok ⊢
        rw [Function.update_self, hparty.1, hparty.2.1, hparty.2.2]
        exact hok
      · rwa [Function.update_of_ne hj]
    · exact (hmore c hc).2
  frame := hframe

/-- A stream is created, perhaps while a call is suspended. -/
theorem create (h : Kept pending w) {s : Stream} {next : Uint256} {log : Log} {m : Msg ch}
    (hnext : next.val = w.state.nextStreamId.val + 1) (hf : s.funded = 0) (hw : s.withdrawn = 0)
    (hc : s.cancelled = false) : Kept pending (w.finish m ((w.state.created s next).emit log)) := by
  have hfresh : w.state.streams w.state.nextStreamId = Stream.zero :=
    h.unborn _ (.inr le_rfl)
  have hne : ∀ j, (w.state.streams j).employer ≠ 0 → j ≠ w.state.nextStreamId :=
    fun j hj => (h.born hj).2.ne
  have hother : ∀ j, (w.state.streams j).employer ≠ 0 →
      ((w.state.created s next).emit log).streams j = w.state.streams j :=
    fun j hj => Function.update_of_ne (hne j hj) _ _
  have hlt : w.state.nextStreamId < next := Fin.lt_def.mpr (by omega)
  refine ⟨h.lock, ?_, ?_, ?_, ?_, ?_, ?_, ?_⟩
  · exact ((Fin.zero_le _).trans_lt hlt).ne'
  · intro j hj
    have hj' : j ≠ w.state.nextStreamId := by
      rintro rfl
      rcases hj with h0 | hle
      · exact h.nonzero h0
      · exact absurd hlt (not_lt.mpr hle)
    refine (Function.update_of_ne hj' _ _).trans (h.unborn j ?_)
    exact hj.imp_right fun hle => hlt.le.trans hle
  · intro j
    by_cases hj : j = w.state.nextStreamId
    · subst hj
      simp [StreamVault.created, hf, hw]
    · simpa [StreamVault.created, hj] using h.covered j
  · intro j
    have hp := h.paid j
    by_cases hj : j = w.state.nextStreamId
    · subst hj
      simpa [payouts, StreamVault.created, hw, hfresh, Stream.zero] using hp
    · simpa [payouts, StreamVault.created, hj] using hp
  · intro j
    have hr := h.refunded j
    by_cases hj : j = w.state.nextStreamId
    · subst hj
      simpa [refunds, StreamVault.created, hc, hfresh, Stream.zero] using hr
    · simpa [refunds, StreamVault.created, hj] using hr
  · intro c hmem
    have hok := h.issued c hmem
    unfold CallOk at hok ⊢
    rw [World.finish_state, hother c.streamId hok.1]
    exact hok
  · intro p hp
    have hsus := h.frame p hp
    exact hsus.congr (hother _ hsus.exists_employer)

/-- The suspended call returns; it owes no refund any more. -/
theorem close {p : VaultPending ch E} (h : Kept (some p) w) (howed : p.cont.owed = 0) (e : E)
    (m : Msg ch) (log : Log) : Kept none ((w.move e).finish m (w.state.closed log)) := by
  refine ⟨rfl, h.nonzero, h.unborn, h.covered, h.paid, ?_, h.issued, by simp⟩
  intro j
  have hr := h.refunded j
  simp only [owedRefund, howed, ite_self] at hr ⊢
  exact hr

/-- `cancelStream` goes on to its second token call. -/
theorem refund {p : VaultPending ch E} {id refund : Uint256} (h : Kept (some p) w)
    (hk : p.cont = .settled id refund) (e : E) :
    Kept (some ⟨p.saved, p.msg, transfer ch (w.state.streams id).token
      (w.state.streams id).employer refund id .refund, .refunded id refund⟩)
      ((w.move e).request (transfer ch (w.state.streams id).token
        (w.state.streams id).employer refund id .refund) w.state) := by
  obtain ⟨saved, m, c, k⟩ := p
  obtain rfl : k = .settled id refund := hk
  refine ⟨h.lock, h.nonzero, h.unborn, h.covered, ?_, ?_, ?_, ?_⟩
  · intro j
    have hp := h.paid j
    unfold payouts at hp ⊢
    rw [World.request_issued, total_append, total_singleton]
    simpa [transfer] using hp
  · intro j
    have hr := h.refunded j
    unfold refunds at hr ⊢
    rw [World.request_issued, total_append, total_singleton]
    rw [owedRefund_of_owed (by rintro _ ⟨⟩; rfl)]
    refine Eq.trans ?_ hr
    by_cases hj : id = j <;> simp [transfer, owedRefund, Cont.owed, Cont.streamId, hj]
  · intro c' hc'
    rw [World.request_issued, List.mem_append, List.mem_singleton] at hc'
    rcases hc' with hc' | rfl
    · exact h.issued c' hc'
    · exact ⟨(h.frame _ rfl).exists_employer, rfl, rfl, rfl⟩
  · rintro q ⟨⟩
    cases h.frame _ rfl with
    | settle checks written =>
      have hsus : Suspended w.state _ := .refund (w := saved) checks written
      simpa only [World.request_state, written, Stream.settled] using hsus

end Kept

/-! ## The obligations -/

theorem Closes.kept {pending : Option (VaultPending ch E)} {w : VaultWorld ch E} {m : Msg ch}
    {s : StreamVault} (hc : Closes m w.state s) (h : Kept pending w) :
    Kept pending (w.finish m s) := by
  cases hc with
  | signer => exact h.congr rfl rfl rfl rfl
  | reveal => exact h.congr rfl rfl rfl rfl
  | create _ _ _ _ next_eq => exact h.create next_eq rfl rfl rfl
  | @cancel id accrued deadline sig unlocked checks covered unpaid spent =>
    obtain rfl := h.entered_eq_one unlocked
    have hw := (w.state.streams id).settled_of_payoutDue_eq_zero unpaid
    have hspent : (w.state.streams id).funded.val - max _ _ = 0 := congrArg Fin.val spent
    refine h.update [] checks.live.1 rfl rfl rfl (by simp) ⟨rfl, rfl, rfl⟩ checks.live.2
      ?_ ?_ ?_ (fun _ _ => rfl) (by simp) (by simp)
    · rw [hw]
      exact covered
    · rw [hw]
      rfl
    · simpa [owedRefund, Stream.settled] using hspent.symm

/-- What the call has done to its stream's figures by the time it makes a token call. -/
theorem Opens.figures {w : VaultWorld ch E} {m : Msg ch} {s : StreamVault} {c : TokenCall}
    {k : Cont} (ho : Opens w m s c k)
    (hcov : (w.state.streams k.streamId).withdrawn ≤ (w.state.streams k.streamId).funded) :
    (s.streams k.streamId).withdrawn ≤ (s.streams k.streamId).funded ∧
    (w.state.streams k.streamId).withdrawn.val + total .payout k.streamId [c] =
      (s.streams k.streamId).withdrawn.val ∧
    total .refund k.streamId [c] + k.owed =
      if (s.streams k.streamId).cancelled then
        (s.streams k.streamId).funded.val - (s.streams k.streamId).withdrawn.val
      else 0 := by
  have hunpaid := ho.unpaid
  have hlive := ho.suspended.saved_live.2
  simp only [Fin.le_def] at hcov ⊢
  cases ho.suspended with
  | @fund _ _ id amount funded checks written =>
    simp only [Cont.streamId] at hlive hcov ⊢
    have hsum := checks.sum
    simp only [written, total_singleton, hlive, Cont.owed]
    refine ⟨by omega, by simp, by simp⟩
  | @withdraw _ _ id accrued _ _ checks written =>
    simp only [Cont.streamId] at hlive hcov ⊢
    have hdue := checks.due
    have hcap := (w.state.streams id).capped_le_funded accrued
    simp only [written, total_singleton, hlive, Cont.owed, Stream.paid, transfer, Stream.payoutDue]
    refine ⟨hcap, ?_, by simp⟩
    simp only [and_self, if_true]
    omega
  | @settle _ _ id accrued _ _ checks written =>
    simp only [Cont.streamId] at hlive hcov ⊢
    have hcap := (w.state.streams id).capped_le_funded accrued
    simp only [written, total_singleton, Cont.owed, Stream.settled, transfer, Stream.payoutDue,
      Stream.refundDue]
    refine ⟨by omega, ?_, by simp⟩
    simp only [and_self, if_true]
    omega
  | @refund _ _ id accrued _ _ checks written =>
    simp only [Cont.streamId] at hlive hcov ⊢
    have hcap := (w.state.streams id).capped_le_funded accrued
    have heq := hunpaid id _ rfl
    rw [heq]
    simp only [written, total_singleton, Cont.owed, Stream.settled, transfer, Stream.refundDue] at heq ⊢
    have hv := congrArg Fin.val heq
    refine ⟨by simpa using hcov, by simp, ?_⟩
    simp only [and_self, if_true] at hv ⊢
    omega

theorem Suspended.callOk {v : StreamVault} {p : VaultPending ch E} (h : Suspended v p) :
    CallOk ch v p.request := by
  have hx := h.exists_employer
  obtain ⟨he, hr, ht, -⟩ := h.parties
  cases h with
  | @fund w m => exact ⟨hx, ht.symm, rfl, m.sender_ne_this⟩
  | withdraw => exact ⟨hx, ht.symm, hr.symm, rfl⟩
  | settle => exact ⟨hx, ht.symm, hr.symm, rfl⟩
  | refund => exact ⟨hx, ht.symm, he.symm, rfl⟩

theorem Opens.kept {pending : Option (VaultPending ch E)} {w : VaultWorld ch E} {m : Msg ch}
    {s : StreamVault} {c : TokenCall} {k : Cont} (ho : Opens w m s c k) (h : Kept pending w) :
    pending = none ∧ Kept (some ⟨w, m, c, k⟩) (w.request c s) := by
  obtain rfl := h.entered_eq_one ho.unlocked
  obtain ⟨hcov, hpaid, href⟩ := ho.figures (h.covered k.streamId)
  have hlive := ho.suspended.saved_live
  obtain ⟨he, hr, ht, -⟩ := ho.suspended.parties
  refine ⟨rfl, h.update [c] hlive.1 ?_ ?_ ?_ rfl ⟨he, hr, ht⟩ hlive.2 hcov hpaid ?_ ?_ ?_ ?_⟩
  · exact (congrArg StreamVault.streams ho.state :)
  · exact (congrArg StreamVault.nextStreamId ho.state :)
  · exact (congrArg StreamVault.entered ho.state :)
  · rw [← href, owedRefund, if_pos rfl]
  · intro j hj
    apply owedRefund_of_ne
    rintro p ⟨⟩
    exact Ne.symm hj
  · intro c' hc'
    obtain rfl := List.mem_singleton.mp hc'
    exact ⟨ho.suspended.request_streamId, ho.suspended.callOk⟩
  · rintro p ⟨⟩
    exact ho.suspended

theorem kept_guarded (out : Outside TokenCall E) :
    Guarded (contract ch) out (fun _ _ => True) (@Kept ch E) where
  enter_done _ _ _ _ h _ hr := (enter_done hr).kept h
  enter_call _ _ _ _ _ _ h _ hr := (enter_call hr).kept h
  resume_done _ _ _ _ _ h _ _ hr := by
    obtain ⟨-, howed, log, rfl⟩ := resume_done hr
    exact h.close howed _ _ log
  resume_call _ _ _ _ _ _ _ h _ _ hr := by
    obtain ⟨-, rfl, id, refund, -, hk, rfl, rfl⟩ := resume_call hr
    exact h.refund hk _
  drift _ _ _ h _ := h.congr rfl rfl rfl rfl

theorem Cancels.enter_ok {w : VaultWorld ch E} {m : Msg ch} {id accrued deadline : Uint256}
    {sig : Bytes} (h : Kept none w) (hc : Cancels m w.state id accrued deadline sig) :
    ∃ r, enter ch m w.state = .ok r := by
  have hunlocked : w.state.entered = 1 := h.lock
  unfold enter
  rw [hc.entry]
  exact ⟨_, (cancelStream_eq_ok ch).mpr
    ⟨hunlocked, hc.sender, hc.live.2, hc.authorized, h.covered id, rfl⟩⟩

theorem kept_constructor (sender teeSigner : Address) (e : E) :
    Kept none (⟨.constructor sender teeSigner, e, [], []⟩ : VaultWorld ch E) where
  lock := rfl
  nonzero := by simp [StreamVault.constructor]
  unborn _ _ := rfl
  covered _ := le_rfl
  paid _ := rfl
  refunded _ := rfl
  issued := by simp
  frame := by simp

/-- A vault just deployed, and nothing on the call stack. -/
def deployed (ch : Chain) (sender teeSigner : Address) (e : E) : VaultConfig ch E :=
  ⟨⟨.constructor sender teeSigner, e, [], []⟩, []⟩

/-- `Kept` holds in every world that a run can reach or a revert can bring back. -/
theorem kept_run {out : Outside TokenCall E} {sender teeSigner : Address} {e : E}
    {c : VaultConfig ch E} {events : List (Event (Msg ch) E)}
    (hrun : Runs.run (step (contract ch) out) (deployed ch sender teeSigner e) events = some c) :
    Covers Kept c.world c.stack :=
  covers_run (c := deployed ch sender teeSigner e) (kept_guarded out)
    (kept_constructor sender teeSigner e) hrun

/-- A world in which a run of the deployed vault can leave it, with no call under way. -/
def Reached (w : VaultWorld ch E) : Prop :=
  ∃ out sender teeSigner e events,
    Runs.run (step (contract ch) out) (deployed ch sender teeSigner e) events = some ⟨w, []⟩

theorem Reached.kept {w : VaultWorld ch E} (h : Reached w) : Kept none w := by
  obtain ⟨out, sender, teeSigner, e, events, hrun⟩ := h
  exact (kept_run hrun).head

end StealthWage.Vault
