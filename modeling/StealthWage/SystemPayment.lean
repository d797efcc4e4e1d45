import StealthWage.SystemInvariant

/-! # Payments are bounded by what was signed

Whatever has been paid out for a stream is covered by its funding and by the accrual at the
largest clock value at which the enclave signed for it. -/
namespace StealthWage.System
open CallStack Enclave Js Protocol Runs Vault Words

variable {ch : Chain} {E : Type*} {R : Runtime}

theorem exists_greatest_clock {signed : List Signing} {P : Signing → Prop}
    (h : ∃ e ∈ signed, P e) :
    ∃ clock, IsGreatest {x | ∃ e ∈ signed, P e ∧ e.clock = x} clock := by
  have hfinite : {x | ∃ e ∈ signed, P e ∧ e.clock = x}.Finite := by
    refine (signed.map Signing.clock).finite_toSet.subset ?_
    rintro x ⟨e, he, -, rfl⟩
    exact List.mem_map_of_mem he
  obtain ⟨e, he, hP⟩ := h
  obtain ⟨clock, hclock, hmax⟩ :=
    Set.exists_max_image _ id hfinite ⟨e.clock, e, he, hP, rfl⟩
  exact ⟨clock, hclock, hmax⟩

/-- The stream's figure is zero, or an authorization in the log reaches it. -/
theorem Sound.withdrawn_le {H : Set Bytes} {ok : Signing → Msg ch → Prop} {id : Uint256}
    {s : State ch E} (h : Sound R H ok id s) (hV : R.viem.Lawful)
    (hk : R.viem.keccak256 = ch.keccak256) (hH : Set.InjOn ch.keccak256 H) {b : Bytes}
    (hb : b ∈ H) {t : StreamTerms} (ht : encodeTerms R.viem t = some b)
    (hc : (s.vault.world.state.streams id).commitment = ch.keccak256 b) :
    (s.vault.world.state.streams id).withdrawn = 0 ∨ ∃ e ∈ s.enclave.signed,
      Concerns ch R.caseMap id (ch.keccak256 b) e ∧
      ((s.vault.world.state.streams id).withdrawn.val : ℤ) ≤ accruedAt t e.clock := by
  obtain ⟨-, hbacked⟩ := h.backed.head
  rcases hbacked.figure with hw | ⟨accrued, deadline, m, ⟨e, he, hconcerns, ha, -⟩, hle⟩
  · exact .inl hw
  · rw [hc] at hconcerns
    have hsigned := accrued_of_concerns hV hk hH (h.issued e he) hb ht hconcerns
    exact .inr ⟨e, he, hconcerns, by omega⟩

/-- End-to-end soundness of payments. -/
theorem payouts_bounded (hV : R.viem.Lawful) (hk : R.viem.keccak256 = ch.keccak256)
    {sender signer : Address} {H : Set Bytes} (hH : Set.InjOn ch.keccak256 H)
    {out : Outside TokenCall E} {e₀ : E} {moves : List (Move ch E)} {s : State ch E}
    (htrust : Along (step R out) (Trusted R signer H) (launched ch sender signer e₀) moves)
    (hrun : run (step R out) (launched ch sender signer e₀) moves = some s)
    (id : Uint256) {t : StreamTerms} {b : Bytes} (ht : encodeTerms R.viem t = some b) (hb : b ∈ H)
    (hc : (s.vault.world.state.streams id).commitment = ch.keccak256 b) :
    (∀ call ∈ s.vault.world.issued, call.streamId = id → call.purpose = .payout →
      call.payee = (s.vault.world.state.streams id).recipient) ∧
    ((∀ e ∈ s.enclave.signed, ¬ Concerns ch R.caseMap id (ch.keccak256 b) e) ∧
        payouts s.vault.world id = 0 ∨
      ∃ clock, IsGreatest {x | ∃ e ∈ s.enclave.signed,
          Concerns ch R.caseMap id (ch.keccak256 b) e ∧ e.clock = x} clock ∧
        (payouts s.vault.world id : ℤ) ≤
          min ((s.vault.world.state.streams id).funded.val : ℤ) (accruedAt t clock)) := by
  have hok : Along (step R out) (Admitted fun _ (_ : Msg ch) => True)
      (launched ch sender signer e₀) moves :=
    (along_true _ _).imp fun _ _ _ _ _ _ _ => trivial
  have hsound := sound_run hV hk hH htrust hok hrun id
  have hkept := hsound.backed.head.1
  have hpaid := hkept.paid id
  have hcov := Fin.le_def.mp (hkept.covered id)
  have hwithdrawn := hsound.withdrawn_le hV hk hH hb ht hc
  constructor
  · intro call hcall hid hpurpose
    obtain ⟨-, -, hparty⟩ := hkept.issued call hcall
    simp only [hpurpose, hid] at hparty
    exact hparty.1
  by_cases hex : ∃ e ∈ s.enclave.signed, Concerns ch R.caseMap id (ch.keccak256 b) e
  · right
    obtain ⟨clock, hclock⟩ := exists_greatest_clock hex
    refine ⟨clock, hclock, ?_⟩
    obtain ⟨hrate, htotal, -⟩ := encodeTerms_range hV ht
    rw [hpaid]
    refine le_min (by exact_mod_cast hcov) ?_
    rcases hwithdrawn with hzero | ⟨e, he, hconcerns, hle⟩
    · rw [hzero]
      exact accruedAt_nonneg hrate htotal clock
    · exact hle.trans (accruedAt_mono hrate (hclock.2 ⟨e, he, hconcerns, rfl⟩))
  · left
    have hnone : ∀ e ∈ s.enclave.signed, ¬ Concerns ch R.caseMap id (ch.keccak256 b) e :=
      fun e he hconcerns => hex ⟨e, he, hconcerns⟩
    refine ⟨hnone, ?_⟩
    rcases hwithdrawn with hzero | ⟨e, he, hconcerns, -⟩
    · rw [hpaid, hzero]
      rfl
    · exact absurd hconcerns (hnone e he)

open Reference in
theorem payouts_bounded_coston2 :
    ∃ s, run (step coston2Runtime compliant) (launched coston2 employer teeSigner ()) paid = some s ∧
      payouts s.vault.world 1 = 100 ∧ ∃ clock, payouts s.vault.world 1 ≤
        min ((s.vault.world.state.streams 1).funded.val : ℤ) (accruedAt streamTerms clock) := by
  have hfinal : (run (step coston2Runtime compliant) (launched coston2 employer teeSigner ())
      paid).any (fun s => payouts s.vault.world 1 = 100 ∧
        (s.vault.world.state.streams 1).commitment = commitment) = true := by decide +kernel
  obtain ⟨s, hrun, hs⟩ := (Option.any_eq_true _ _).mp hfinal
  obtain ⟨hpaid, hc⟩ := of_decide_eq_true hs
  obtain ⟨-, ⟨-, hzero⟩ | ⟨clock, -, hle⟩⟩ := payouts_bounded coston2Viem_lawful rfl hashed_injOn
    paid_trusted hrun 1 encodeTerms_streamTerms (by decide +kernel)
    (hc.trans (by decide +kernel))
  · omega
  · exact ⟨s, hrun, hpaid, clock, hle⟩

end StealthWage.System
