import StealthWage.Reference
import StealthWage.VaultInvariant

/-! # Solvency

The vault holds one balance of a token for all streams in it. A storage update books the
money before the token call that moves it, so the invariant counts what a suspended call
is about to move. -/
namespace StealthWage.Vault
open CallStack Runs Words

variable {ch : Chain} {E : Type*}

/-- A ledger after `amount` has moved. -/
def moved (ledger : Address → ℕ) (payer payee : Address) (amount : ℕ) : Address → ℕ :=
  let paid := Function.update ledger payer (ledger payer - amount)
  Function.update paid payee (paid payee + amount)

/-- A token that moves exactly what the vault asks for or nothing, and that nobody but the
vault can take from the vault. -/
structure HonestToken (ch : Chain) (out : Outside TokenCall E) (T : Address)
    (ledger : E → Address → ℕ) : Prop where
  moves : ∀ c e e', c.token = T → out.answer c true e = some e' →
    c.amount.val ≤ ledger e c.payer ∧ ledger e' = moved (ledger e) c.payer c.payee c.amount.val
  refuses : ∀ c e e', c.token = T → out.answer c false e = some e' → ledger e' = ledger e
  spares : ∀ c ok e e', c.token ≠ T → out.answer c ok e = some e' →
    ledger e ch.this ≤ ledger e' ch.this
  keeps : ∀ e e', out.drift e e' = true → ledger e ch.this ≤ ledger e' ch.this

namespace Stream

/-- What the vault still owes on a stream, in the token `T`. -/
def due (T : Address) (s : Stream) : ℕ :=
  if s.token = T ∧ s.cancelled = false then s.funded.val - s.withdrawn.val else 0

end Stream

/-- The sum over all streams that were not cancelled. -/
@[irreducible] def liabilities (T : Address) (v : StreamVault) : ℕ := ∑ id, (v.streams id).due T

theorem liabilities_update {T : Address} {v v' : StreamVault} {id : Uint256} {s : Stream}
    (h : v'.streams = Function.update v.streams id s) :
    liabilities T v' + (v.streams id).due T = liabilities T v + s.due T := by
  have hsplit : ∀ f : Uint256 → Stream, (∑ i, (f i).due T) =
      (f id).due T + ∑ i ∈ Finset.univ.erase id, (f i).due T := by
    intro f
    exact (Finset.add_sum_erase Finset.univ (fun i => (f i).due T) (Finset.mem_univ id)).symm
  have hrest : (∑ i ∈ Finset.univ.erase id, (v'.streams i).due T) =
      ∑ i ∈ Finset.univ.erase id, (v.streams i).due T := by
    refine Finset.sum_congr rfl fun i hi => ?_
    rw [h, Function.update_of_ne (Finset.ne_of_mem_erase hi)]
  have hself : (v'.streams id).due T = s.due T := by rw [h, Function.update_self]
  unfold liabilities
  rw [hsplit v'.streams, hsplit v.streams, hrest, hself]
  omega

theorem liabilities_eq_of_due {T : Address} {v v' : StreamVault} {id : Uint256} {s : Stream}
    (h : v'.streams = Function.update v.streams id s) (hd : s.due T = (v.streams id).due T) :
    liabilities T v' = liabilities T v := by
  have hupd := liabilities_update (T := T) h
  omega

theorem liabilities_congr {T : Address} {v v' : StreamVault} (h : v'.streams = v.streams) :
    liabilities T v' = liabilities T v := by
  unfold liabilities
  rw [h]

/-- What the suspended call is about to bring in. -/
def incoming (T : Address) (pending : Option (VaultPending ch E)) : ℕ :=
  match pending with
  | none => 0
  | some p => if p.request.token = T ∧ p.request.purpose = .funding then p.request.amount.val else 0

/-- What the suspended call is about to pay, the refund that may follow included. -/
def outgoing (T : Address) (pending : Option (VaultPending ch E)) : ℕ :=
  match pending with
  | none => 0
  | some p =>
    if p.request.token = T then
      (if p.request.purpose = .funding then 0 else p.request.amount.val) + p.cont.owed
    else 0

def Solvent (T : Address) (ledger : E → Address → ℕ) (pending : Option (VaultPending ch E))
    (w : VaultWorld ch E) : Prop :=
  liabilities T w.state + outgoing T pending ≤ ledger w.outside ch.this + incoming T pending

theorem solvent_none {T : Address} {ledger : E → Address → ℕ} {w : VaultWorld ch E} :
    Solvent T ledger none w ↔ liabilities T w.state ≤ ledger w.outside ch.this := by
  unfold Solvent outgoing incoming
  rw [Nat.add_zero, Nat.add_zero]

/-- Storage and suspended call together book exactly what they booked before. -/
theorem Opens.booked {T : Address} {w : VaultWorld ch E} {m : Msg ch} {s : StreamVault}
    {c : TokenCall} {k : Cont} (ho : Opens w m s c k)
    (hcov : (w.state.streams k.streamId).withdrawn ≤ (w.state.streams k.streamId).funded) :
    (s.streams k.streamId).due T + outgoing T (some ⟨w, m, c, k⟩) =
      (w.state.streams k.streamId).due T + incoming T (some ⟨w, m, c, k⟩) := by
  have hunpaid := ho.unpaid
  have hlive := ho.suspended.saved_live.2
  rw [Fin.le_def] at hcov
  cases ho.suspended with
  | @fund _ _ id amount funded checks written =>
    simp only [Cont.streamId] at hlive hcov ⊢
    have hsum := checks.sum
    simp only [written, Stream.due, hlive, outgoing, incoming, Cont.owed, if_true, and_true]
    split_ifs
    · simp only [widen_val]
      omega
    · rfl
  | @withdraw _ _ id accrued _ _ checks written =>
    simp only [Cont.streamId] at hlive hcov ⊢
    have hdue := checks.due
    have hcap := (w.state.streams id).capped_le_funded accrued
    simp only [written, Stream.due, Stream.paid, hlive, outgoing, incoming, Cont.owed, transfer,
      Stream.payoutDue, reduceCtorEq, and_false, if_false, and_true]
    split_ifs
    · omega
    · rfl
  | @settle _ _ id accrued _ _ checks written =>
    simp only [Cont.streamId] at hlive hcov ⊢
    have hcap := (w.state.streams id).capped_le_funded accrued
    simp only [written, Stream.due, Stream.settled, hlive, outgoing, incoming, Cont.owed, transfer,
      Stream.payoutDue, Stream.refundDue, reduceCtorEq, and_false, if_false, and_true]
    split_ifs
    · omega
    · rfl
  | @refund _ _ id accrued _ _ checks written =>
    simp only [Cont.streamId] at hlive hcov ⊢
    have heq := congrArg Fin.val (hunpaid id _ rfl)
    simp only [written, Stream.settled] at heq
    simp only [written, Stream.due, Stream.settled, hlive, outgoing, incoming, Cont.owed, transfer,
      Stream.refundDue, reduceCtorEq, and_false, if_false, and_true]
    split_ifs
    · omega
    · rfl

theorem moved_payer (ledger : Address → ℕ) (payer payee : Address) {amount : ℕ}
    (h : amount ≤ ledger payer) :
    ledger payer ≤ moved ledger payer payee amount payer + amount := by
  unfold moved
  by_cases hp : payer = payee
  · subst hp
    simp only [Function.update_self]
    omega
  · simp only [Function.update_of_ne hp, Function.update_self]
    omega

theorem moved_payee (ledger : Address → ℕ) {payer payee : Address} (amount : ℕ)
    (h : payer ≠ payee) : moved ledger payer payee amount payee = ledger payee + amount := by
  simp [moved, Function.update_of_ne h.symm]

/-- Without a token call, what the vault owes stays the same. -/
theorem Closes.liabilities_eq {T : Address} {pending : Option (VaultPending ch E)}
    {w : VaultWorld ch E} {m : Msg ch} {s : StreamVault} (hc : Closes m w.state s)
    (h : Kept pending w) : liabilities T s = liabilities T w.state := by
  cases hc with
  | signer => exact liabilities_congr rfl
  | reveal => exact liabilities_congr rfl
  | create =>
    have hfresh := h.unborn w.state.nextStreamId (.inr le_rfl)
    refine liabilities_eq_of_due rfl ?_
    rw [hfresh]
    simp [Stream.due, Stream.zero]
  | @cancel id accrued deadline sig unlocked checks covered unpaid spent =>
    have hspent : (w.state.streams id).funded.val - max _ _ = 0 := congrArg Fin.val spent
    have hw := congrArg Fin.val ((w.state.streams id).settled_of_payoutDue_eq_zero unpaid)
    simp only [Stream.settled] at hw
    rw [hw] at hspent
    refine liabilities_eq_of_due rfl ?_
    simp [Stream.due, Stream.settled, hspent]

section honest

variable {out : Outside TokenCall E} {T : Address} {ledger : E → Address → ℕ}

/-- The token call the vault waits for has moved what was booked for it. -/
theorem Solvent.answered (hT : HonestToken ch out T ledger) {p : VaultPending ch E}
    {w : VaultWorld ch E} {e : E} (h : Solvent T ledger (some p) w) (hp : Suspended w.state p)
    (he : out.answer p.request true w.outside = some e) :
    liabilities T w.state + (if p.request.token = T then p.cont.owed else 0) ≤
      ledger e ch.this := by
  obtain ⟨-, -, hcall⟩ := hp.callOk
  unfold Solvent at h
  simp only [outgoing, incoming] at h
  by_cases ht : p.request.token = T
  · obtain ⟨hle, hmoved⟩ := hT.moves _ _ _ ht he
    simp only [ht, if_true, true_and] at h ⊢
    rw [hmoved]
    cases hpurpose : p.request.purpose with
    | funding =>
      simp only [hpurpose, if_true] at h hcall
      obtain ⟨hpayee, hpayer⟩ := hcall
      have hne : p.request.payer ≠ p.request.payee := hpayee ▸ hpayer
      have hin := moved_payee (ledger w.outside) p.request.amount.val hne
      rw [hpayee] at hin ⊢
      omega
    | payout =>
      simp only [hpurpose, reduceCtorEq, if_false] at h hcall
      have hout := moved_payer (ledger w.outside) p.request.payer p.request.payee hle
      rw [hcall.2] at hout ⊢
      omega
    | refund =>
      simp only [hpurpose, reduceCtorEq, if_false] at h hcall
      have hout := moved_payer (ledger w.outside) p.request.payer p.request.payee hle
      rw [hcall.2] at hout ⊢
      omega
  · have hspared := hT.spares _ _ _ _ ht he
    simp only [ht, if_false, false_and] at h ⊢
    omega

theorem solvent_guarded (hT : HonestToken ch out T ledger) :
    Guarded (contract ch) out (fun _ _ => True)
      (fun pending w => @Kept ch E pending w ∧ Solvent T ledger pending w) where
  enter_done p w m s h _ hr := by
    refine ⟨(kept_guarded out).enter_done p w m s h.1 trivial hr, ?_⟩
    have hs := h.2
    unfold Solvent at hs ⊢
    have hliab := (enter_done hr).liabilities_eq (T := T) h.1
    rw [World.finish_state, hliab]
    exact hs
  enter_call p w m s c k h _ hr := by
    obtain ⟨rfl, hk⟩ := (kept_guarded out).enter_call p w m s c k h.1 trivial hr
    have ho := enter_call hr
    have hbooked := ho.booked (T := T) (h.1.covered k.streamId)
    have hstreams := (congrArg StreamVault.streams ho.state :)
    have hupd := liabilities_update (T := T) (v := w.state) hstreams
    have hs := h.2
    refine ⟨rfl, hk, ?_⟩
    unfold Solvent at hs ⊢
    simp only [World.request_state, World.request_outside]
    simp only [incoming, outgoing] at hs hbooked ⊢
    omega
  resume_done p w ok e s h hsaved he hr := by
    have hk := (kept_guarded out).resume_done p w ok e s h.1 hsaved.1 he hr
    obtain ⟨rfl, howed, log, rfl⟩ := resume_done hr
    have ha := h.2.answered hT (h.1.frame p rfl) he
    refine ⟨hk, ?_⟩
    rw [solvent_none, World.finish_state, liabilities_congr (StreamVault.closed_streams w.state log)]
    exact (Nat.le_add_right _ _).trans ha
  resume_call p w ok e s c k h hsaved he hr := by
    have hk := (kept_guarded out).resume_call p w ok e s c k h.1 hsaved.1 he hr
    obtain ⟨rfl, rfl, i, refund, -, hcont, rfl, rfl⟩ := resume_call hr
    have ha := h.2.answered hT (h.1.frame p rfl) he
    have htoken : p.request.token = (w.state.streams i).token := by
      have hid := (h.1.frame p rfl).request_streamId
      rw [(h.1.frame p rfl).callOk.2.1, hid, hcont]
      rfl
    refine ⟨hk, ?_⟩
    unfold Solvent
    simp only [htoken, hcont, Cont.owed] at ha
    simpa [transfer, outgoing, incoming, Cont.owed] using ha
  drift p w e h he := by
    refine ⟨(kept_guarded out).drift p w e h.1 he, ?_⟩
    have hs := h.2
    have hkeeps := hT.keeps _ _ he
    unfold Solvent at hs ⊢
    simp only [World.move_state, World.move_outside]
    omega

/-- Between calls the vault can pay everything it owes in an honest token; a payment it is
about to make leaves enough for all that is owed besides. -/
theorem vault_solvent (hT : HonestToken ch out T ledger) {sender teeSigner : Address} {e : E}
    {c : VaultConfig ch E} {events : List (Event (Msg ch) E)}
    (hrun : run (step (contract ch) out) (deployed ch sender teeSigner e) events = some c) :
    (pendingOf c.stack = none →
      liabilities T c.world.state ≤ ledger c.world.outside ch.this ∧ c.world.state.entered = 1) ∧
    ∀ p, pendingOf c.stack = some p → p.request.token = T → p.request.payer = ch.this →
      p.request.amount.val + liabilities T c.world.state ≤ ledger c.world.outside ch.this := by
  have hstart : Solvent T ledger none (deployed ch sender teeSigner e).world := by
    have hzero : liabilities T (deployed ch sender teeSigner e).world.state = 0 := by
      unfold liabilities
      refine Finset.sum_eq_zero fun id _ => ?_
      simp [deployed, StreamVault.constructor, Stream.due, Stream.zero]
    rw [solvent_none, hzero]
    exact Nat.zero_le _
  have hc := covers_run (c := deployed ch sender teeSigner e) (solvent_guarded hT)
    ⟨kept_constructor sender teeSigner e, hstart⟩ hrun
  obtain ⟨hk, hs⟩ := hc.head
  constructor
  · intro hnone
    rw [hnone] at hk hs
    exact ⟨solvent_none.mp hs, by simpa using hk.lock⟩
  · intro p hp ht hpayer
    rw [hp] at hk hs
    obtain ⟨-, -, hcall⟩ := (hk.frame p rfl).callOk
    have hpurpose : p.request.purpose ≠ .funding := by
      intro hf
      rw [hf] at hcall
      exact hcall.2 hpayer
    unfold Solvent at hs
    simp only [outgoing, incoming, ht, hpurpose, if_true, if_false, and_false] at hs
    omega

end honest

/-- The token `T` as a ledger; all other tokens do nothing. -/
def ledgerToken (T : Address) : Outside TokenCall (Address → ℕ) where
  answer c ok ledger :=
    if c.token = T ∧ ok = true then
      if c.amount.val ≤ ledger c.payer then
        some (moved ledger c.payer c.payee c.amount.val)
      else none
    else some ledger
  drift _ _ := false

theorem ledgerToken_honest (ch : Chain) (T : Address) : HonestToken ch (ledgerToken T) T id where
  moves c e e' ht he := by
    simp only [ledgerToken, ht, and_self, if_true, Option.ite_none_right_eq_some] at he
    exact ⟨he.1, (Option.some.inj he.2).symm⟩
  refuses c e e' ht he := by
    simp only [ledgerToken, Bool.false_eq_true, and_false, if_false, Option.some.injEq] at he
    rw [← he]
  spares c ok e e' ht he := by
    simp only [ledgerToken, ht, false_and, if_false, Option.some.injEq] at he
    rw [← he]
  keeps e e' he := by simp [ledgerToken] at he

open Reference in
theorem vault_solvent_coston2 :
    ∃ c, run (step (contract coston2) (ledgerToken token))
        (deployed coston2 employer teeSigner fun _ => 600)
        [.call createCall, .call fundCall, .answer true, .call withdrawCall, .answer true] =
          some c ∧
      c.world.outside vault = 1000 ∧ liabilities token c.world.state ≤ 1000 := by
  have hfinal : (run (step (contract coston2) (ledgerToken token))
      (deployed coston2 employer teeSigner fun _ => 600)
      [.call createCall, .call fundCall, .answer true, .call withdrawCall, .answer true]).any
      (fun c => c.world.outside vault = 1000 ∧ (pendingOf c.stack).isNone) = true := by
    decide +kernel
  obtain ⟨c, hrun, hc⟩ := (Option.any_eq_true _ _).mp hfinal
  obtain ⟨hbalance, hidle⟩ := of_decide_eq_true hc
  obtain ⟨hcovered, -⟩ :=
    (vault_solvent (ledgerToken_honest coston2 token) hrun).1 (Option.isNone_iff_eq_none.mp hidle)
  exact ⟨c, hrun, hbalance, hbalance ▸ hcovered⟩

end StealthWage.Vault
