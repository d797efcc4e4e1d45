import StealthWage.Escrow
import StealthWage.VaultInvariant

/-! # Sequences of transactions on one stream

With token calls that succeed, the figures of a stream are those of an escrow account:
`attempt_account` is the simulation, one transaction at a time. -/
namespace StealthWage.Vault
open CallStack Escrow Runs Words

variable {ch : Chain} {E : Type*}

/-- A transaction whose token calls succeed; one that reverts changes nothing. -/
def attempt (w : VaultWorld ch E) (m : Msg ch) : VaultWorld ch E :=
  match transact (contract ch) 2 w m with
  | .ok (some w') => w'
  | _ => w

def attempts (w : VaultWorld ch E) (ms : List (Msg ch)) : VaultWorld ch E := ms.foldl attempt w

@[simp] theorem attempts_nil (w : VaultWorld ch E) : attempts w [] = w := rfl

@[simp] theorem attempts_cons (w : VaultWorld ch E) (m : Msg ch) (ms : List (Msg ch)) :
    attempts w (m :: ms) = attempts (attempt w m) ms := rfl

theorem attempts_append (w : VaultWorld ch E) (ms more : List (Msg ch)) :
    attempts w (ms ++ more) = attempts (attempts w ms) more := List.foldl_append

/-- The outside of a transaction whose token calls succeed. -/
def obliging (E : Type*) : Outside TokenCall E := ⟨fun _ _ e => some e, fun _ _ => false⟩

theorem attempt_kept {w : VaultWorld ch E} (h : Kept none w) (m : Msg ch) :
    Kept none (attempt w m) := by
  unfold attempt
  split
  next w' hw =>
    have hout : ∀ c e, (obliging E).answer c true e = some e := fun _ _ => rfl
    obtain ⟨events, hrun⟩ := transact_run hout hw
    exact covers_run (c := ⟨w, []⟩) (kept_guarded _) h hrun
  next => exact h

theorem attempt_of_error {w : VaultWorld ch E} {m : Msg ch} {e : Revert}
    (h : enter ch m w.state = .error e) : attempt w m = w := by
  simp [attempt, transact, contract, h]

theorem attempt_of_done {w : VaultWorld ch E} {m : Msg ch} {s : StreamVault}
    (h : enter ch m w.state = .ok (.done s)) : attempt w m = w.finish m s := by
  simp [attempt, transact, contract, h, settle]

/-- The code after a token call that succeeded changes no stream. -/
theorem attempt_of_call {w : VaultWorld ch E} {m : Msg ch} {s : StreamVault} {c : TokenCall}
    {k : Cont} (h : enter ch m w.state = .ok (.call s c k)) :
    (attempt w m).state.streams = s.streams ∧ (attempt w m).returned = w.returned ++ [m] := by
  obtain ⟨r, hr⟩ : ∃ r, resume ch k true s = .ok r := resume_true k s
  cases r with
  | done s' =>
    obtain ⟨-, -, log, rfl⟩ := resume_done hr
    simp [attempt, transact, contract, h, settle, hr]
  | call s' c' k' =>
    obtain ⟨-, rfl, id, refund, -, -, rfl, rfl⟩ := resume_call hr
    have hlast : resume ch (.refunded id refund) true s' =
      .ok (.done (s'.closed (.streamCancelled id refund))) := rfl
    simp [attempt, transact, contract, h, settle, hr, hlast]

/-! ## Simulation by an escrow account -/

/-- What is asked of the calls that name the stream: a withdrawal is correctly signed and not
expired, and nobody cancels. -/
def Ordinary (id : Uint256) (w : VaultWorld ch E) (m : Msg ch) : Prop :=
  match m.entry with
  | .withdraw i accrued deadline sig => i = id →
    Authorized ch w.state (withdrawTag ch.keccak256) m.timestamp i accrued deadline sig
  | .cancelStream i .. => i ≠ id
  | _ => True

def account (id : Uint256) (w : VaultWorld ch E) : Account ℕ :=
  ⟨(w.state.streams id).funded.val, (w.state.streams id).withdrawn.val⟩

/-- What a function of the calls and the worlds they meet yields over a sequence. -/
def gather {β : Type*} (f : VaultWorld ch E → Msg ch → Option β) :
    VaultWorld ch E → List (Msg ch) → List β
  | _, [] => []
  | w, m :: ms => (f w m).toList ++ gather f (attempt w m) ms

/-- The amount by which a call funds the stream; a `fund` that reverts adds nothing. -/
def fundingOf (id : Uint256) (w : VaultWorld ch E) (m : Msg ch) : Option ℕ :=
  match m.entry, enter ch m w.state with
  | .fund i amount, .ok _ => if i = id then some amount.val else none
  | _, _ => none

/-- The cumulative figure with which a call tries to withdraw from the stream. -/
def askedOf (id : Uint256) (m : Msg ch) : Option ℕ :=
  match m.entry with
  | .withdraw i accrued _ _ => if i = id then some accrued.val else none
  | _ => none

/-- That figure, capped by the funding at the time of the attempt. -/
def figureOf (id : Uint256) (w : VaultWorld ch E) (m : Msg ch) : Option ℕ :=
  (askedOf id m).map fun accrued => min accrued (w.state.streams id).funded.val

/-- The account operation that a call amounts to. -/
def opOf (id : Uint256) (w : VaultWorld ch E) (m : Msg ch) : Option (Op ℕ) :=
  match askedOf id m with
  | some accrued => some (.claim accrued)
  | none => (fundingOf id w m).map .deposit

theorem account_congr {id : Uint256} {w w' : VaultWorld ch E}
    (h : w'.state.streams id = w.state.streams id) : account id w' = account id w := by
  unfold account
  rw [h]

theorem live_congr {id : Uint256} {v v' : StreamVault} (h : v'.streams id = v.streams id)
    (hl : v.Live id) : v'.Live id := by
  unfold StreamVault.Live
  rwa [h]

/-- A withdrawal that is in order and still reverts asks for nothing new. -/
theorem enter_error_of_asked {w : VaultWorld ch E} {id : Uint256} {m : Msg ch} {e : Revert}
    {a : ℕ} (hk : Kept none w) (hl : w.state.Live id) (ho : Ordinary id w m)
    (ha : askedOf id m = some a) (hr : enter ch m w.state = .error e) :
    min a (w.state.streams id).funded.val ≤ (w.state.streams id).withdrawn.val := by
  unfold askedOf at ha
  cases he : m.entry with
  | withdraw i accrued deadline sig =>
    simp only [he, Option.ite_none_right_eq_some, Option.some.injEq] at ha
    obtain ⟨rfl, rfl⟩ := ha
    simp only [Ordinary, he, forall_true_left] at ho
    by_contra hlt
    have hunlocked : w.state.entered = 1 := hk.lock
    have hok := (withdraw_eq_ok ch).mpr ⟨hunlocked, hl, ho, not_le.mp hlt, rfl⟩
    simp only [enter, he] at hr
    rw [hr] at hok
    simp at hok
  | _ => simp [he] at ha

theorem Closes.streams_eq {w : VaultWorld ch E} {id : Uint256} {m : Msg ch} {s : StreamVault}
    (hc : Closes m w.state s) (hk : Kept none w) (hl : w.state.Live id) (ho : Ordinary id w m) :
    opOf id w m = none ∧ s.streams id = w.state.streams id := by
  cases hc with
  | signer entry => simp [opOf, askedOf, fundingOf, entry]
  | reveal entry => simp [opOf, askedOf, fundingOf, entry]
  | create entry =>
    have hne : id ≠ w.state.nextStreamId := (hk.born hl.1).2.ne
    simp [opOf, askedOf, fundingOf, entry, StreamVault.created, hne]
  | cancel unlocked checks =>
    have hne := ho
    simp only [Ordinary, checks.entry] at hne
    simp [opOf, askedOf, fundingOf, checks.entry, Ne.symm hne]

theorem Opens.account_eq {w w' : VaultWorld ch E} {id : Uint256} {m : Msg ch} {s : StreamVault}
    {c : TokenCall} {k : Cont} (hr : enter ch m w.state = .ok (.call s c k))
    (hl : w.state.Live id) (ho : Ordinary id w m) (hw : w'.state.streams = s.streams) :
    w'.state.Live id ∧ account id w' = (account id w).run (opOf id w m).toList := by
  have hopens := enter_call hr
  have hstate : s.streams = Function.update w.state.streams k.streamId (s.streams k.streamId) :=
    (congrArg StreamVault.streams hopens.state :)
  by_cases hid : id = k.streamId
  · subst hid
    have hs : w'.state.streams k.streamId = s.streams k.streamId := by rw [hw]
    cases hopens.suspended with
    | fund checks written =>
      simp only [Cont.streamId] at hs hl ⊢
      rw [written] at hs
      refine ⟨by simpa [StreamVault.Live, hs] using hl, ?_⟩
      simp [opOf, askedOf, fundingOf, checks.entry, hr, account, hs, Account.apply, checks.sum]
    | withdraw checks written =>
      simp only [Cont.streamId] at hs hl ⊢
      rw [written] at hs
      refine ⟨by simpa [StreamVault.Live, Stream.paid, hs] using hl, ?_⟩
      have hdue := checks.due.le
      simp only [Stream.capped] at hdue
      simp [opOf, askedOf, checks.entry, account, hs, Account.apply, Stream.paid, Stream.capped,
        max_eq_right hdue]
    | settle checks => simp [Ordinary, checks.entry, Cont.streamId] at ho
    | refund checks => simp [Ordinary, checks.entry, Cont.streamId] at ho
  · have hs : w'.state.streams id = w.state.streams id := by
      rw [hw, hstate, Function.update_of_ne hid]
    have hop : opOf id w m = none := by
      cases hopens.suspended with
      | fund checks =>
        simp only [Cont.streamId] at hid
        simp [opOf, askedOf, fundingOf, checks.entry, hr, Ne.symm hid]
      | withdraw checks =>
        simp only [Cont.streamId] at hid
        simp [opOf, askedOf, fundingOf, checks.entry, Ne.symm hid]
      | settle checks => simp [opOf, askedOf, fundingOf, checks.entry]
      | refund checks => simp [opOf, askedOf, fundingOf, checks.entry]
    rw [hop, account_congr hs]
    exact ⟨live_congr hs hl, rfl⟩

/-- One transaction does to the stream what the account operation does. -/
theorem attempt_account {w : VaultWorld ch E} {id : Uint256} {m : Msg ch} (hk : Kept none w)
    (hl : w.state.Live id) (ho : Ordinary id w m) :
    (attempt w m).state.Live id ∧
    account id (attempt w m) = (account id w).run (opOf id w m).toList := by
  cases hr : enter ch m w.state with
  | error e =>
    rw [attempt_of_error hr]
    refine ⟨hl, ?_⟩
    cases ha : askedOf id m with
    | none => simp [opOf, ha, fundingOf, hr]
    | some a =>
      have hle := enter_error_of_asked hk hl ho ha hr
      simp [opOf, ha, account, Account.apply, max_eq_left hle]
  | ok r =>
    cases r with
    | done s =>
      obtain ⟨hop, hs⟩ := (enter_done hr).streams_eq hk hl ho
      rw [attempt_of_done hr, hop]
      exact ⟨live_congr hs hl, account_congr hs⟩
    | call s c k => exact Opens.account_eq hr hl ho (attempt_of_call hr).1

/-- The condition of `Ordinary` on every call of a sequence, in the world it meets. -/
def AllOrdinary (id : Uint256) (w : VaultWorld ch E) (ms : List (Msg ch)) : Prop :=
  Along (fun w m => some (attempt w m)) (Ordinary id) w ms

theorem run_attempts (w : VaultWorld ch E) (ms : List (Msg ch)) :
    run (fun w m => some (attempt w m)) w ms = some (attempts w ms) := by
  induction ms generalizing w with
  | nil => rfl
  | cons m ms ih => exact ih (attempt w m)

theorem attempts_account {w : VaultWorld ch E} {id : Uint256} {ms : List (Msg ch)}
    (hk : Kept none w) (hl : w.state.Live id) (ho : AllOrdinary id w ms) :
    Kept none (attempts w ms) ∧ (attempts w ms).state.Live id ∧
    account id (attempts w ms) = (account id w).run (gather (opOf id) w ms) := by
  induction ms generalizing w with
  | nil => exact ⟨hk, hl, rfl⟩
  | cons m ms ih =>
    obtain ⟨hl', ha⟩ := attempt_account hk hl ho.1
    obtain ⟨hk'', hl'', ha'⟩ := ih (attempt_kept hk m) hl' ho.2
    refine ⟨hk'', hl'', ?_⟩
    rw [attempts_cons, ha', ha]
    exact (Account.run_append _ _ _).symm

/-! ## What the account says about the stream -/

theorem askedOf_fundingOf {id : Uint256} {w : VaultWorld ch E} {m : Msg ch} {a : ℕ}
    (ha : askedOf id m = some a) : fundingOf id w m = none := by
  unfold askedOf at ha
  cases he : m.entry with
  | withdraw => simp [fundingOf, he]
  | _ => simp [he] at ha

theorem deposits_gather (id : Uint256) (w : VaultWorld ch E) (ms : List (Msg ch)) :
    deposits (gather (opOf id) w ms) = gather (fundingOf id) w ms := by
  induction ms generalizing w with
  | nil => rfl
  | cons m ms ih =>
    have hop : deposits (opOf id w m).toList = (fundingOf id w m).toList := by
      cases ha : askedOf id m with
      | some a => simp [opOf, ha, askedOf_fundingOf ha, deposits]
      | none => cases hf : fundingOf id w m <;> simp [opOf, ha, hf, deposits]
    simp only [gather, deposits_append, ih, hop]

theorem mem_claims_gather {id : Uint256} {w : VaultWorld ch E} {ms : List (Msg ch)} {a : ℕ}
    (h : a ∈ claims (gather (opOf id) w ms)) : ∃ m ∈ ms, askedOf id m = some a := by
  induction ms generalizing w with
  | nil => simp [gather, claims] at h
  | cons m ms ih =>
    rw [gather, claims_append, List.mem_append] at h
    rcases h with h | h
    · refine ⟨m, List.mem_cons_self, ?_⟩
      cases ha : askedOf id m with
      | some b =>
        simp only [opOf, ha, Option.toList_some, claims, List.mem_singleton] at h
        rw [h]
      | none => cases hf : fundingOf id w m <;> simp [opOf, ha, hf, claims] at h
    · obtain ⟨m', hm', ha⟩ := ih h
      exact ⟨m', List.mem_cons_of_mem m hm', ha⟩

theorem covered_opOf (id : Uint256) (w : VaultWorld ch E) (m : Msg ch) :
    (account id w).covered (opOf id w m).toList = (figureOf id w m).toList := by
  cases ha : askedOf id m with
  | some a => simp [opOf, figureOf, ha, Account.covered, account]
  | none => cases hf : fundingOf id w m <;> simp [opOf, figureOf, ha, hf, Account.covered]

/-- The account's list of covered figures is the one the attempts define. -/
theorem covered_gather {w : VaultWorld ch E} {id : Uint256} {ms : List (Msg ch)}
    (hk : Kept none w) (hl : w.state.Live id) (ho : AllOrdinary id w ms) :
    (account id w).covered (gather (opOf id) w ms) = gather (figureOf id) w ms := by
  induction ms generalizing w with
  | nil => rfl
  | cons m ms ih =>
    obtain ⟨hl', ha⟩ := attempt_account hk hl ho.1
    have hrest := ih (attempt_kept hk m) hl' ho.2
    rw [gather, gather, Account.covered_append, ← ha, hrest, covered_opOf]

/-- The running maximum of the claimed figures, as far as they were funded. -/
theorem payouts_attempts {w : VaultWorld ch E} {id : Uint256} {ms : List (Msg ch)}
    (hk : Kept none w) (hl : w.state.Live id) (ho : AllOrdinary id w ms) :
    payouts (attempts w ms) id =
      max (payouts w id) (largest (gather (figureOf id) w ms)) := by
  obtain ⟨hk', -, ha⟩ := attempts_account hk hl ho
  have hpaid := congrArg Account.paid ha
  rw [Account.run_paid, covered_gather hk hl ho] at hpaid
  rw [hk'.paid id, hk.paid id]
  exact hpaid

theorem funded_attempts {w : VaultWorld ch E} {id : Uint256} {ms : List (Msg ch)}
    (hk : Kept none w) (hl : w.state.Live id) (ho : AllOrdinary id w ms) :
    ((attempts w ms).state.streams id).funded.val =
      (w.state.streams id).funded.val + (gather (fundingOf id) w ms).sum := by
  obtain ⟨-, -, ha⟩ := attempts_account hk hl ho
  have hfunded := congrArg Account.funded ha
  rw [Account.run_funded, deposits_gather] at hfunded
  exact hfunded

/-- What a settlement at the end of a sequence leaves. -/
theorem attempt_cancel {w : VaultWorld ch E} {id accrued deadline : Uint256} {sig : Bytes}
    {m : Msg ch} (hk : Kept none w) (hc : Cancels m w.state id accrued deadline sig) :
    (attempt w m).state.streams id = (w.state.streams id).settled accrued := by
  obtain ⟨r, hr⟩ := hc.enter_ok hk
  cases r with
  | done s =>
    obtain ⟨-, -, hs⟩ := (enter_done hr).cancels hc.entry
    rw [attempt_of_done hr]
    exact hs
  | call s c k =>
    rw [(attempt_of_call hr).1]
    exact ((enter_call hr).suspended.cancels hc.entry).2

end StealthWage.Vault
