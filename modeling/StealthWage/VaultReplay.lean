import StealthWage.Protocol
import StealthWage.VaultAccounting

/-! # Replay, batching and order

What a recipient has been paid depends on the fundings and on the largest figure claimed,
not on the withdrawals by which it was reached. -/
namespace StealthWage.Vault
open CallStack Escrow Protocol Runs Words

variable {ch : Chain} {E : Type*}

/-- A history of one stream without a payout before it, in which nobody claims more than `A`. -/
structure History (w : VaultWorld ch E) (id : Uint256) (ms : List (Msg ch)) (A : ℕ) : Prop where
  reached : Reached w
  live : w.state.Live id
  fresh : payouts w id = 0
  ordinary : AllOrdinary id w ms
  below : ∀ m ∈ ms, ∀ a, askedOf id m = some a → a ≤ A

/-- All that the stream has received by the end of a history. -/
def received (w : VaultWorld ch E) (id : Uint256) (ms : List (Msg ch)) : ℕ :=
  (w.state.streams id).funded.val + (gather (fundingOf id) w ms).sum

theorem received_eq_of_perm {w w' : VaultWorld ch E} {id : Uint256} {ms ms' : List (Msg ch)}
    (hf : (w.state.streams id).funded = (w'.state.streams id).funded)
    (hp : (gather (fundingOf id) w ms).Perm (gather (fundingOf id) w' ms')) :
    received w id ms = received w' id ms' := by
  unfold received
  rw [hf, hp.sum_eq]

namespace History

variable {w : VaultWorld ch E} {id : Uint256} {ms : List (Msg ch)} {A : ℕ}

theorem kept_attempts (h : History w id ms A) : Kept none (attempts w ms) :=
  (attempts_account h.reached.kept h.live h.ordinary).1

theorem live_attempts (h : History w id ms A) : (attempts w ms).state.Live id :=
  (attempts_account h.reached.kept h.live h.ordinary).2.1

/-- The figure `A` decides alone what is paid if it comes last. -/
theorem account_last (h : History w id ms A) :
    max (account id (attempts w ms)).paid (min A (account id (attempts w ms)).funded) =
      min A (received w id ms) := by
  obtain ⟨-, -, ha⟩ := attempts_account h.reached.kept h.live h.ordinary
  have hpaid : (account id w).paid = 0 := by
    rw [← h.fresh, h.reached.kept.paid id]
    rfl
  have hclaims : ∀ a ∈ claims (gather (opOf id) w ms), a ≤ A := by
    intro a hmem
    obtain ⟨m, hm, hask⟩ := mem_claims_gather hmem
    exact h.below m hm a hask
  have hle : (account id w).paid ≤ min A (account id w).funded := by
    rw [hpaid]
    exact Nat.zero_le _
  rw [ha, Account.paid_of_last _ _ hclaims hle, Account.run_funded, deposits_gather]
  rfl

theorem withdraw_last {m : Msg ch} (h : History w id ms A)
    (hm : Ordinary id (attempts w ms) m) (hlast : askedOf id m = some A) :
    payouts (attempts w (ms ++ [m])) id = min A (received w id ms) ∧
    ((attempts w (ms ++ [m])).state.streams id).withdrawn.val = min A (received w id ms) := by
  have hend := (attempt_kept h.kept_attempts m).paid id
  obtain ⟨-, ha⟩ := attempt_account h.kept_attempts h.live_attempts hm
  have hop : opOf id (attempts w ms) m = some (.claim A) := by simp [opOf, hlast]
  have hwithdrawn := congrArg Account.paid ha
  rw [hop] at hwithdrawn
  have hlast := hwithdrawn.trans h.account_last
  rw [attempts_append, attempts_cons, attempts_nil, hend]
  exact ⟨hlast, hlast⟩

theorem cancel_last {m : Msg ch} {accrued deadline : Uint256} {sig : Bytes}
    (h : History w id ms accrued.val)
    (hc : Cancels m (attempts w ms).state id accrued deadline sig) :
    payouts (attempts w (ms ++ [m])) id = min accrued.val (received w id ms) ∧
    ((attempts w (ms ++ [m])).state.streams id).withdrawn.val =
      min accrued.val (received w id ms) ∧
    refunds (attempts w (ms ++ [m])) id =
      received w id ms - min accrued.val (received w id ms) := by
  have hend := attempt_kept h.kept_attempts m
  have hstream := attempt_cancel h.kept_attempts hc
  have hlast := h.account_last
  have hfunded := funded_attempts h.reached.kept h.live h.ordinary
  have hpaid := hend.paid id
  have hrefund := hend.refunded id
  rw [hstream] at hpaid hrefund
  simp only [Stream.settled, Stream.capped, if_true, owedRefund, Nat.add_zero] at hpaid hrefund
  simp only [account] at hlast
  rw [attempts_append, attempts_cons, attempts_nil, hstream, hpaid, hrefund, hlast, hfunded]
  exact ⟨rfl, hlast, rfl⟩

end History

/-- The figures of one terms blob grow with the clock, so one signed last exceeds them all. -/
theorem below_of_accruedAt {V : Viem} (hV : V.Lawful) {b : Bytes} {t : StreamTerms}
    (ht : decodeTerms V b = some t) {id : Uint256} {ms : List (Msg ch)} {A : ℕ} {s : ℤ}
    (hA : (A : ℤ) = accruedAt t s)
    (hms : ∀ m ∈ ms, ∀ a : ℕ, askedOf id m = some a → ∃ s' ≤ s, (a : ℤ) = accruedAt t s') :
    ∀ m ∈ ms, ∀ a, askedOf id m = some a → a ≤ A := by
  intro m hm a ha
  obtain ⟨s', hs, heq⟩ := hms m hm a ha
  have hrate : 0 ≤ t.ratePerSecond := by
    obtain ⟨-, hrate, -⟩ := decodeTerms_range hV ht
    omega
  have hmono := accruedAt_mono hrate hs
  omega

/-- Cumulative accounting is a running maximum; histories with the same fundings that end
with the same largest figure end alike; and figures of one terms blob, the last one signed
last, are such histories. -/
theorem pay_running_max (id : Uint256) :
    (∀ (w : VaultWorld ch E) (ms : List (Msg ch)),
      Reached w → w.state.Live id → AllOrdinary id w ms →
      payouts (attempts w ms) id =
        max (payouts w id) (largest (gather (figureOf id) w ms))) ∧
    (∀ (w w' : VaultWorld ch E) (ms ms' : List (Msg ch)) (A : ℕ),
      History w id ms A → History w' id ms' A →
      (w.state.streams id).funded = (w'.state.streams id).funded →
      (gather (fundingOf id) w ms).Perm (gather (fundingOf id) w' ms') →
      (∀ m m', Ordinary id (attempts w ms) m → Ordinary id (attempts w' ms') m' →
        askedOf id m = some A → askedOf id m' = some A →
        payouts (attempts w (ms ++ [m])) id = payouts (attempts w' (ms' ++ [m'])) id ∧
        ((attempts w (ms ++ [m])).state.streams id).withdrawn =
          ((attempts w' (ms' ++ [m'])).state.streams id).withdrawn) ∧
      (∀ m m' accrued deadline deadline' sig sig', accrued.val = A →
        Cancels m (attempts w ms).state id accrued deadline sig →
        Cancels m' (attempts w' ms').state id accrued deadline' sig' →
        payouts (attempts w (ms ++ [m])) id = payouts (attempts w' (ms' ++ [m'])) id ∧
        ((attempts w (ms ++ [m])).state.streams id).withdrawn =
          ((attempts w' (ms' ++ [m'])).state.streams id).withdrawn ∧
        refunds (attempts w (ms ++ [m])) id = refunds (attempts w' (ms' ++ [m'])) id)) ∧
    (∀ (V : Viem) (b : Bytes) (t : StreamTerms) (ms : List (Msg ch)) (A : ℕ) (s : ℤ), V.Lawful →
      decodeTerms V b = some t → (A : ℤ) = accruedAt t s →
      (∀ m ∈ ms, ∀ a : ℕ, askedOf id m = some a → ∃ s' ≤ s, (a : ℤ) = accruedAt t s') →
      ∀ m ∈ ms, ∀ a, askedOf id m = some a → a ≤ A) := by
  refine ⟨?_, ?_, ?_⟩
  · intro w ms hw hl ho
    exact payouts_attempts hw.kept hl ho
  · intro w w' ms ms' A h h' hf hp
    have hreceived := received_eq_of_perm hf hp
    constructor
    · intro m m' hm hm' hask hask'
      obtain ⟨hpaid, hw⟩ := h.withdraw_last hm hask
      obtain ⟨hpaid', hw'⟩ := h'.withdraw_last hm' hask'
      rw [hreceived] at hpaid hw
      exact ⟨hpaid.trans hpaid'.symm, Fin.ext (hw.trans hw'.symm)⟩
    · rintro m m' accrued deadline deadline' sig sig' rfl hc hc'
      obtain ⟨hpaid, hw, hr⟩ := h.cancel_last hc
      obtain ⟨hpaid', hw', hr'⟩ := h'.cancel_last hc'
      rw [hreceived] at hpaid hw hr
      exact ⟨hpaid.trans hpaid'.symm, Fin.ext (hw.trans hw'.symm), hr.trans hr'.symm⟩
  · intro V b t ms A s hV ht hA hms
    exact below_of_accruedAt hV ht hA hms

end StealthWage.Vault
