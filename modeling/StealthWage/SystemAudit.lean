import StealthWage.SystemInvariant

/-! # What revealed terms prove

`revealTerms` compares a blob with the commitment and nothing else. The record of the stream
was filled from the arguments of `createStream`, so the revealed terms describe the payments
of a stream exactly as far as its creator passed the parties and the token they name. -/
namespace StealthWage.System
open CallStack Enclave Js Protocol Runs Vault Words

variable {ch : Chain} {E : Type*} {R : Runtime}

/-- The accounts that the terms name, in any spelling. -/
structure Names (t : StreamTerms) (employer recipient token : Address) : Prop where
  employer : spelled 20 t.employer = some employer.val
  recipient : spelled 20 t.recipient = some recipient.val
  token : spelled 20 t.token = some token.val

/-- A call that creates the stream with this commitment passes what the terms name. -/
def CreatesAs (id : Uint256) (commitment : Bytes32) (t : StreamTerms) (w : VaultWorld ch E)
    (m : Msg ch) : Prop :=
  ∀ recipient token startTime encryptedTerms, w.state.nextStreamId = id →
    m.entry = .createStream recipient token commitment startTime encryptedTerms →
    Names t m.sender recipient token

/-- If the stream has the commitment, its record is what the terms name. -/
def Recorded (commitment : Bytes32) (t : StreamTerms) (s : Stream) : Prop :=
  s.employer ≠ 0 → s.commitment = commitment → Names t s.employer s.recipient s.token

theorem recorded_congr {commitment : Bytes32} {t : StreamTerms} {s s' : Stream}
    (h : Recorded commitment t s) (he : s'.employer = s.employer)
    (hr : s'.recipient = s.recipient) (ht : s'.token = s.token)
    (hc : s'.commitment = s.commitment) : Recorded commitment t s' := by
  unfold Recorded
  rw [he, hr, ht, hc]
  exact h

theorem recorded_of_closes {w : VaultWorld ch E} {m : Msg ch} {v : StreamVault} {id : Uint256}
    {commitment : Bytes32} {t : StreamTerms} (hc : Closes m w.state v)
    (h : Recorded commitment t (w.state.streams id)) (hm : CreatesAs id commitment t w m) :
    Recorded commitment t (v.streams id) := by
  cases hc with
  | signer => exact h
  | reveal => exact h
  | @create recipient token c startTime encryptedTerms next entry =>
    by_cases hid : id = w.state.nextStreamId
    · subst hid
      intro hx hcommit
      simp only [StreamVault.emit_streams, StreamVault.created, StreamVault.setStream_streams,
        Function.update_self] at hx hcommit ⊢
      subst hcommit
      exact hm recipient token startTime encryptedTerms rfl entry
    · have hsame : ∀ s log, ((w.state.created s next).emit log).streams id =
          w.state.streams id := fun s log => Function.update_of_ne hid _ _
      rw [hsame]
      exact h
  | @cancel i accrued =>
    by_cases hid : id = i
    · subst hid
      have hsettled : ((w.state.lock.setStream id ((w.state.streams id).settled accrued)).closed
          (.streamCancelled id 0)).streams id = (w.state.streams id).settled accrued :=
        Function.update_self ..
      rw [hsettled]
      exact recorded_congr h rfl rfl rfl rfl
    · have hother : ((w.state.lock.setStream i ((w.state.streams i).settled accrued)).closed
          (.streamCancelled i 0)).streams id = w.state.streams id :=
        Function.update_of_ne hid _ _
      rw [hother]
      exact h

theorem recorded_of_opens {w : VaultWorld ch E} {m : Msg ch} {v : StreamVault} {c : TokenCall}
    {k : Cont} {id : Uint256} {commitment : Bytes32} {t : StreamTerms} (ho : Opens w m v c k)
    (h : Recorded commitment t (w.state.streams id)) : Recorded commitment t (v.streams id) := by
  by_cases hid : id = k.streamId
  · subst hid
    obtain ⟨he, hr, ht, hc⟩ := ho.suspended.parties
    exact recorded_congr h he hr ht hc
  · have hstate : v.streams =
        Function.update w.state.streams k.streamId (v.streams k.streamId) :=
      (congrArg StreamVault.streams ho.state :)
    rw [hstate, Function.update_of_ne hid]
    exact h

theorem recorded_guarded (out : Outside TokenCall E) (id : Uint256) (commitment : Bytes32)
    (t : StreamTerms) :
    Guarded (contract ch) out (CreatesAs id commitment t) (fun pending w =>
      @Kept ch E pending w ∧ Recorded commitment t (w.state.streams id)) where
  enter_done p w m s h hm hr :=
    ⟨(kept_guarded out).enter_done p w m s h.1 trivial hr, recorded_of_closes (enter_done hr) h.2 hm⟩
  enter_call p w m s c k h hm hr := by
    obtain ⟨hp, hk⟩ := (kept_guarded out).enter_call p w m s c k h.1 trivial hr
    exact ⟨hp, hk, recorded_of_opens (enter_call hr) h.2⟩
  resume_done p w ok e s h hsaved he hr := by
    have hk := (kept_guarded out).resume_done p w ok e s h.1 hsaved.1 he hr
    obtain ⟨-, -, log, rfl⟩ := resume_done hr
    exact ⟨hk, h.2⟩
  resume_call p w ok e s c k h hsaved he hr := by
    have hk := (kept_guarded out).resume_call p w ok e s c k h.1 hsaved.1 he hr
    obtain ⟨-, rfl, -⟩ := resume_call hr
    exact ⟨hk, h.2⟩
  drift p w e h he := ⟨(kept_guarded out).drift p w e h.1 he, h.2⟩

/-- `CreatesAs` for the moves of the system. -/
def CreatedAs (id : Uint256) (commitment : Bytes32) (t : StreamTerms) (s : State ch E)
    (move : Move ch E) : Prop :=
  ∀ m, move = .chain (.call m) → CreatesAs id commitment t s.vault.world m

theorem recorded_run {out : Outside TokenCall E} {sender signer : Address} {e₀ : E}
    {moves : List (Move ch E)} {s : State ch E} {id : Uint256} {commitment : Bytes32}
    {t : StreamTerms}
    (hcreated : Along (step R out) (CreatedAs id commitment t) (launched ch sender signer e₀) moves)
    (hrun : run (step R out) (launched ch sender signer e₀) moves = some s) :
    Covers (fun pending w => Kept pending w ∧ Recorded commitment t (w.state.streams id))
      s.vault.world s.vault.stack := by
  refine invariant_along (P := fun s : State ch E => Covers (fun pending w => Kept pending w ∧
    Recorded commitment t (w.state.streams id)) s.vault.world s.vault.stack) ?_ ?_ hcreated hrun
  · intro s move s' hP hQ hs
    cases move with
    | chain ev =>
      obtain ⟨v, hv, rfl⟩ := Option.map_eq_some_iff.mp hs
      refine covers_step (recorded_guarded out id commitment t) hP ?_ hv
      rintro m rfl
      exact hQ m rfl
    | request q =>
      obtain rfl := Option.some.inj hs
      exact hP
  · refine ⟨kept_constructor sender signer e₀, fun hx => ?_⟩
    exact absurd rfl hx

/-- What an auditor concludes from terms that were revealed for a stream. -/
structure Enforced (R : Runtime) (s : State ch E) (id : Uint256) (t : StreamTerms) : Prop where
  token : ∀ call ∈ s.vault.world.issued, call.streamId = id →
    spelled 20 t.token = some call.token.val
  payout : ∀ call ∈ s.vault.world.issued, call.streamId = id → call.purpose = .payout →
    spelled 20 t.recipient = some call.payee.val
  refund : ∀ call ∈ s.vault.world.issued, call.streamId = id → call.purpose = .refund →
    spelled 20 t.employer = some call.payee.val
  accrued : ∀ m ∈ s.vault.world.returned, ∀ accrued deadline,
    presents id m = some (accrued, deadline) → ∃ e ∈ s.enclave.signed,
      Concerns ch R.caseMap id (s.vault.world.state.streams id).commitment e ∧
      (accrued.val : ℤ) = accruedAt t e.clock

/-- Revealed terms are the enforced ones if the stream was created with what they name. -/
theorem audit_sound (hV : R.viem.Lawful) (hk : R.viem.keccak256 = ch.keccak256)
    {sender signer : Address} {H : Set Bytes} (hH : Set.InjOn ch.keccak256 H)
    {out : Outside TokenCall E} {e₀ : E} {moves : List (Move ch E)} {s : State ch E}
    (htrust : Along (step R out) (Trusted R signer H) (launched ch sender signer e₀) moves)
    (hrun : run (step R out) (launched ch sender signer e₀) moves = some s)
    {id : Uint256} {b : Bytes} {r : Step} (hb : b ∈ H)
    (hreveal : revealTerms ch id b s.vault.world.state = .ok r) {t : StreamTerms}
    (ht : decodeTerms R.viem b = some t)
    (hcreated : Along (step R out) (CreatedAs id (ch.keccak256 b) t)
      (launched ch sender signer e₀) moves) : Enforced R s id t := by
  obtain ⟨hx, hc, -⟩ := (revealTerms_eq_ok ch).mp hreveal
  have hok : Along (step R out) (Admitted fun _ (_ : Msg ch) => True)
      (launched ch sender signer e₀) moves :=
    (along_true _ _).imp fun _ _ _ _ _ _ _ => trivial
  have hsound := sound_run hV hk hH htrust hok hrun id
  obtain ⟨hkept, hbacked⟩ := hsound.backed.head
  have hrecorded := (recorded_run hcreated hrun).head.2 hx hc.symm
  refine ⟨?_, ?_, ?_, ?_⟩
  · rintro call hcall rfl
    obtain ⟨-, htoken, -⟩ := hkept.issued call hcall
    rw [htoken]
    exact hrecorded.token
  · rintro call hcall rfl hpurpose
    obtain ⟨-, -, hparty⟩ := hkept.issued call hcall
    simp only [hpurpose] at hparty
    rw [hparty.1]
    exact hrecorded.recipient
  · rintro call hcall rfl hpurpose
    obtain ⟨-, -, hparty⟩ := hkept.issued call hcall
    simp only [hpurpose] at hparty
    rw [hparty.1]
    exact hrecorded.employer
  · intro m hm accrued deadline hp
    obtain ⟨-, ⟨e, he, hconcerns, ha, -⟩, -⟩ :=
      hbacked.used m (List.mem_append_left _ hm) accrued deadline hp
    refine ⟨e, he, hconcerns, ?_⟩
    have hissued := hsound.issued e he
    obtain ⟨t', ht', haccrued⟩ := hissued.terms
    rw [← hc] at hconcerns
    rw [terms_of_concerns hk hH hissued hb hconcerns, ht] at ht'
    rw [← ha, haccrued, Option.some.inj ht']

theorem ok_of_isSome {ε α : Type} {x : Except ε α} (h : x.toOption.isSome = true) :
    ∃ a, x = .ok a := by
  cases x with
  | ok a => exact ⟨a, rfl⟩
  | error e => simp [Except.toOption] at h

open Reference in
theorem audit_sound_coston2 :
    ∃ s, run (step coston2Runtime compliant) (launched coston2 employer teeSigner ()) paid = some s ∧
      s.vault.world.issued.length = 2 ∧ Enforced coston2Runtime s 1 streamTerms := by
  have hfinal : (run (step coston2Runtime compliant) (launched coston2 employer teeSigner ())
      paid).any (fun s => s.vault.world.issued.length = 2 ∧
        (revealTerms coston2 1 terms s.vault.world.state).toOption.isSome) = true := by
    decide +kernel
  obtain ⟨s, hrun, hs⟩ := (Option.any_eq_true _ _).mp hfinal
  obtain ⟨hissued, hreveals⟩ := of_decide_eq_true hs
  obtain ⟨r, hreveal⟩ := ok_of_isSome hreveals
  have hcreated : Along (step coston2Runtime compliant)
      (CreatedAs 1 (coston2.keccak256 terms) streamTerms)
      (launched coston2 employer teeSigner ()) paid := by
    refine along_of_mem (fun move hmove u m hm => ?_) _
    subst hm
    intro r t start encrypted _ hentry
    simp only [paid, List.mem_cons, Move.chain.injEq, Event.call.injEq, reduceCtorEq,
      List.not_mem_nil, or_false, false_or] at hmove
    rcases hmove with rfl | rfl | rfl
    · obtain ⟨rfl, rfl, -, -, -⟩ := Entry.createStream.inj hentry
      constructor <;> decide +kernel
    · simp [fundCall] at hentry
    · simp [withdrawCall] at hentry
  exact ⟨s, hrun, hissued, audit_sound coston2Viem_lawful rfl hashed_injOn paid_trusted hrun
    (by decide +kernel) hreveal decodeTerms_terms hcreated⟩

open Reference in
/-- The stream of `paid`, had the employer passed another recipient and another token. -/
def misnamedCall : Msg coston2 :=
  ⟨employer, 900, .createStream 0x4444444444444444444444444444444444444444
    0x5555555555555555555555555555555555555555 commitment 1000 ciphertext,
    createCall.sender_ne_zero, createCall.sender_ne_this⟩

open Reference in
def misnamed : List (Move coston2 Unit) := .chain (.call misnamedCall) :: paid.tail

open Reference in
/-- The terms are revealed without an objection, and another token went to another account. -/
theorem misnamed_counterexample :
    Along (step coston2Runtime compliant) (Trusted coston2Runtime teeSigner {x | x ∈ hashed})
      (launched coston2 employer teeSigner ()) misnamed ∧
    ∃ s r, run (step coston2Runtime compliant) (launched coston2 employer teeSigner ()) misnamed =
        some s ∧
      revealTerms coston2 1 terms s.vault.world.state = .ok r ∧
      decodeTerms coston2Viem terms = some streamTerms ∧
      (∃ call ∈ s.vault.world.issued, call.streamId = 1 ∧ call.purpose = .payout ∧
        spelled 20 streamTerms.token ≠ some call.token.val ∧
        spelled 20 streamTerms.recipient ≠ some call.payee.val) ∧
      ¬ Enforced coston2Runtime s 1 streamTerms := by
  refine ⟨by decide +kernel, ?_⟩
  have hfinal : (run (step coston2Runtime compliant) (launched coston2 employer teeSigner ())
      misnamed).any (fun s => (revealTerms coston2 1 terms s.vault.world.state).toOption.isSome ∧
        ∃ call ∈ s.vault.world.issued, call.streamId = 1 ∧ call.purpose = .payout ∧
          spelled 20 streamTerms.token ≠ some call.token.val ∧
          spelled 20 streamTerms.recipient ≠ some call.payee.val) = true := by
    decide +kernel
  obtain ⟨s, hrun, hs⟩ := (Option.any_eq_true _ _).mp hfinal
  obtain ⟨hreveals, call, hcall, hid, hpurpose, htoken, hrecipient⟩ := of_decide_eq_true hs
  obtain ⟨r, hreveal⟩ := ok_of_isSome hreveals
  refine ⟨s, r, hrun, hreveal, decodeTerms_terms, ⟨call, hcall, hid, hpurpose, htoken, hrecipient⟩,
    ?_⟩
  exact fun h => htoken (h.token call hcall hid)

end StealthWage.System
