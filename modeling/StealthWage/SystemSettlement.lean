import StealthWage.SystemInvariant
import StealthWage.VaultConservation

/-! # Settlement within one authorization lifetime

The enclave dates a settlement, the vault only checks that it is not expired. With one
clock for both, the employer's choice among the authorizations can cost the recipient at
most what accrues while one is valid. -/
namespace StealthWage.System
open CallStack Enclave Js Protocol Runs Vault Words

variable {ch : Chain} {E : Type*} {R : Runtime}

/-- Whatever exists when a block is made was signed no later than the block. -/
abbrev OneClock : State ch E → Move ch E → Prop :=
  Admitted fun e m => e.clock ≤ m.timestamp.val

/-- What a figure signed within the last lifetime is worth. -/
theorem accruedAt_window {t : StreamTerms} (hrate : 0 ≤ t.ratePerSecond) (htotal : 0 ≤ t.total)
    (hstart : 0 ≤ t.startTime) {T clock : ℤ} (h : T - authTtlSeconds ≤ clock) :
    accruedAt t (max (T - 600) 0) ≤ accruedAt t clock := by
  rcases le_total (T - 600) 0 with hle | hle
  · rw [max_eq_right hle, accruedAt_of_le htotal hstart]
    exact accruedAt_nonneg hrate htotal clock
  · rw [max_eq_left hle]
    exact accruedAt_mono hrate h

/-- A settlement at time `T` pays for the time up to some moment of the last 600 seconds. -/
theorem settlement_window (hV : R.viem.Lawful) (hk : R.viem.keccak256 = ch.keccak256)
    {sender signer : Address} {H : Set Bytes} (hH : Set.InjOn ch.keccak256 H)
    {out : Outside TokenCall E} {e₀ : E} {moves : List (Move ch E)} {s s' : State ch E}
    {ev : Event (Msg ch) E} {w₀ : VaultWorld ch E} {m : Msg ch}
    {id accrued deadline : Uint256} {sig : Bytes}
    (htrust : Along (step R out) (Trusted R signer H) (launched ch sender signer e₀)
      (moves ++ [.chain ev]))
    (hclock : Along (step R out) OneClock (launched ch sender signer e₀) (moves ++ [.chain ev]))
    (hrun : run (step R out) (launched ch sender signer e₀) moves = some s)
    (hlast : step R out s (.chain ev) = some s')
    (hret : returns (contract ch) s.vault ev = some (w₀, m))
    (he : m.entry = .cancelStream id accrued deadline sig)
    {t : StreamTerms} {b : Bytes} (ht : encodeTerms R.viem t = some b) (hb : b ∈ H)
    (hc : (s'.vault.world.state.streams id).commitment = ch.keccak256 b) :
    let funded : ℤ := (s'.vault.world.state.streams id).funded.val
    let T : ℤ := m.timestamp.val
    min funded (accruedAt t (max (T - 600) 0)) ≤ payouts s'.vault.world id ∧
      payouts s'.vault.world id ≤ min funded (accruedAt t T) ∧
      (refunds s'.vault.world id : ℤ) = funded - payouts s'.vault.world id := by
  intro funded T
  have hall : run (step R out) (launched ch sender signer e₀) (moves ++ [.chain ev]) = some s' :=
    run_append_eq_some.mpr ⟨s, hrun, (run_singleton _ _).trans hlast⟩
  obtain ⟨v, hv, rfl⟩ := Option.map_eq_some_iff.mp hlast
  have hsettled : Settled v w₀ m id accrued deadline sig := by
    have hvault := vault_run hrun
    have hnested : Nested Later s.vault.world s.vault.stack :=
      nested_run (c := deployed ch sender signer e₀) (kept_guarded out) (later_advances out)
        (kept_constructor sender signer e₀) trivial hvault
    exact settled_of_returns (kept_run hvault) hnested hv hret he
  have hsound := sound_run hV hk hH htrust hclock hall id
  obtain ⟨hkept, hbacked⟩ := hsound.backed.head
  obtain ⟨hpaid, hstored, hsum⟩ := hsettled.figures
  have hfunded : (w₀.state.streams id).funded = (v.world.state.streams id).funded := by
    rw [hsettled.written]
    rfl
  rw [hfunded] at hpaid hsum
  obtain ⟨hrate, htotal, hstart⟩ := encodeTerms_range hV ht
  have hm : m ∈ effective (pendingOf v.stack) v.world :=
    List.mem_append_left _ (mem_returned hv hret)
  have hpresents : presents id m = some (accrued, deadline) := by simp [presents, he]
  obtain ⟨-, ⟨e, hlog, hconcerns, ha, hd, -⟩, hunexpired⟩ := hbacked.used m hm _ _ hpresents
  obtain ⟨-, hreached⟩ := hbacked.final m hm ⟨accrued, deadline, sig, he⟩
  rw [hc] at hconcerns hreached
  have hsigned := accrued_of_concerns hV hk hH (hsound.issued e hlog) hb ht hconcerns
  have hlifetime := (hsound.issued e hlog).deadline
  have hrecent : T - authTtlSeconds ≤ e.clock := by
    have hle := Fin.le_def.mp hunexpired
    omega
  have hlow := accruedAt_window hrate htotal hstart hrecent
  have hhigh : ((v.world.state.streams id).withdrawn.val : ℤ) ≤ accruedAt t T := by
    rcases hreached with hzero | ⟨a, d, ⟨e', hlog', hconcerns', ha', -, hclock'⟩, hle⟩
    · rw [hzero]
      exact accruedAt_nonneg hrate htotal T
    · have hsigned' := accrued_of_concerns hV hk hH (hsound.issued e' hlog') hb ht hconcerns'
      have hmono : accruedAt t e'.clock ≤ accruedAt t T := accruedAt_mono hrate hclock'
      dsimp only at hle
      omega
  have hcov := Fin.le_def.mp (hkept.covered id)
  dsimp only at hcov
  simp only [funded]
  refine ⟨?_, ?_, ?_⟩
  · omega
  · omega
  · omega

open Reference in
/-- The employer settles at second 1700 with what was signed at second 1200; the refund is the
last call. -/
def settled : List (Move coston2 Unit) :=
  [.chain (.call createCall), .chain (.call fundCall), .chain (.answer true),
    .request settleRequest, .chain (.call cancelCall), .chain (.answer true)]

open Reference in
theorem settlement_window_coston2 :
    ∃ s', run (step coston2Runtime compliant) (launched coston2 employer teeSigner ())
        (settled ++ [.chain (.answer true)]) = some s' ∧
      payouts s'.vault.world 1 = 200 ∧ refunds s'.vault.world 1 = 300 ∧
      min ((s'.vault.world.state.streams 1).funded.val : ℤ)
        (accruedAt streamTerms (max (1700 - 600) 0)) ≤ payouts s'.vault.world 1 := by
  have hfinal : (run (step coston2Runtime compliant) (launched coston2 employer teeSigner ())
      settled).any (fun s =>
        ((step coston2Runtime compliant s (.chain (.answer true))).any fun s' =>
          payouts s'.vault.world 1 = 200 ∧ refunds s'.vault.world 1 = 300 ∧
            (s'.vault.world.state.streams 1).commitment = commitment) ∧
        (returns (contract coston2) s.vault (.answer true)).any fun r =>
          r.2.entry = cancelCall.entry ∧ r.2.timestamp = 1700) = true := by decide +kernel
  obtain ⟨s, hrun, hs⟩ := (Option.any_eq_true _ _).mp hfinal
  obtain ⟨hnext, hreturned⟩ := of_decide_eq_true hs
  obtain ⟨s', hlast, hs'⟩ := (Option.any_eq_true _ _).mp hnext
  obtain ⟨⟨w₀, m⟩, hret, hm⟩ := (Option.any_eq_true _ _).mp hreturned
  obtain ⟨hpaid, hrefunded, hc⟩ := of_decide_eq_true hs'
  obtain ⟨hentry, htime⟩ := of_decide_eq_true hm
  obtain ⟨hlow, -, -⟩ := settlement_window coston2Viem_lawful rfl hashed_injOn (by decide +kernel)
    (by decide +kernel) hrun hlast hret hentry encodeTerms_streamTerms (by decide +kernel)
    (hc.trans (by decide +kernel))
  refine ⟨s', run_append_eq_some.mpr ⟨s, hrun, (run_singleton _ _).trans hlast⟩, hpaid,
    hrefunded, ?_⟩
  rw [htime] at hlow
  exact hlow

end StealthWage.System
