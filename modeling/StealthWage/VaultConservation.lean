import StealthWage.Reference
import StealthWage.VaultHistory

/-! # Conservation within one stream

A settlement splits what the stream received, exactly and once: the figures of a cancelled
stream never change again, and no token call is ever made for it. -/
namespace StealthWage.Vault
open CallStack Runs Words

variable {ch : Chain} {E : Type*}

/-- The token calls made for one stream. -/
def callsFor (id : Uint256) (calls : List TokenCall) : List TokenCall :=
  calls.filter fun c => c.streamId = id

theorem callsFor_append_of_ne {id : Uint256} {calls : List TokenCall} {c : TokenCall}
    (h : c.streamId ≠ id) : callsFor id (calls ++ [c]) = callsFor id calls := by
  unfold callsFor
  rw [List.filter_append]
  simp [h]

/-- What holds between a world and any later one, whatever runs in between. -/
structure Later (w w' : VaultWorld ch E) : Prop where
  parties : ∀ id, (w.state.streams id).employer ≠ 0 →
    (w'.state.streams id).employer = (w.state.streams id).employer ∧
    (w'.state.streams id).recipient = (w.state.streams id).recipient ∧
    (w'.state.streams id).token = (w.state.streams id).token ∧
    (w'.state.streams id).commitment = (w.state.streams id).commitment
  frozen : ∀ id, (w.state.streams id).cancelled = true →
    w'.state.streams id = w.state.streams id

namespace Later

variable {w w' w'' : VaultWorld ch E}

theorem trans (h : Later w w') (h' : Later w' w'') : Later w w'' where
  parties := by
    intro id hx
    obtain ⟨he, hr, ht, hc⟩ := h.parties id hx
    obtain ⟨he', hr', ht', hc'⟩ := h'.parties id (he ▸ hx)
    exact ⟨he'.trans he, hr'.trans hr, ht'.trans ht, hc'.trans hc⟩
  frozen := by
    intro id hc
    have hs := h.frozen id hc
    exact (h'.frozen id (hs ▸ hc)).trans hs

end Later

theorem Grows.later {w w' : VaultWorld ch E} (h : Grows w w') : Later w w' where
  parties id hx := by
    obtain ⟨he, hr, ht, hc, -⟩ := h.parties id hx
    exact ⟨he, hr, ht, hc⟩
  frozen := h.frozen

theorem later_advances (out : Outside TokenCall E) :
    Advances (contract ch) out (@Kept ch E) Later where
  refl w := ((grows_advances out).refl w).later
  trans _ _ _ h h' := h.trans h'
  enter p w m r h hr := ((grows_advances out).enter p w m r h hr).later
  resume p w ok e r h hr := ((grows_advances out).resume p w ok e r h hr).later
  drift w e := ((grows_advances out).drift w e).later

/-! ## Settlement -/

/-- What is known when a `cancelStream` has returned: the world it was entered in, the
checks it passed, and the record it has left. -/
structure Settled (c : VaultConfig ch E) (w₀ : VaultWorld ch E) (m : Msg ch)
    (id accrued deadline : Uint256) (sig : Bytes) : Prop where
  checks : Cancels m w₀.state id accrued deadline sig
  before : Kept none w₀
  after : Kept none c.world
  alone : pendingOf c.stack = none
  nested : Nested Later w₀ c.stack
  written : c.world.state.streams id = (w₀.state.streams id).settled accrued

theorem settled_of_returns {out : Outside TokenCall E} {c c' : VaultConfig ch E}
    {ev : Event (Msg ch) E} {w₀ : VaultWorld ch E} {m : Msg ch} {id accrued deadline : Uint256}
    {sig : Bytes} (hc : Covers Kept c.world c.stack) (hn : Nested Later c.world c.stack)
    (hs : step (contract ch) out c ev = some c')
    (hret : returns (contract ch) c ev = some (w₀, m))
    (he : m.entry = .cancelStream id accrued deadline sig) :
    Settled c' w₀ m id accrued deadline sig := by
  have hc' := covers_step (kept_guarded out) hc (fun _ _ => trivial) hs
  obtain ⟨w, stack⟩ := c
  cases ev with
  | call m' =>
    simp only [returns] at hret
    split at hret
    next s hr =>
      obtain ⟨rfl, rfl⟩ := Prod.mk.inj (Option.some.inj hret)
      obtain ⟨unlocked, checks, written⟩ := (enter_done hr).cancels he
      simp only [step, hr, Option.some.injEq] at hs
      subst hs
      have hnone : pendingOf stack = none := hc.head.entered_eq_one unlocked
      have hbefore := hc.head
      have hafter := hc'.head
      simp only [proceed, hnone] at hbefore hafter
      exact ⟨checks, hbefore, hafter, hnone, hn, written⟩
    next => simp at hret
  | answer ok =>
    rcases stack with _ | ⟨f, rest⟩
    · simp [returns] at hret
    cases f with
    | foreign saved => simp [returns] at hret
    | pending p =>
      simp only [returns] at hret
      split at hret
      next s hr =>
        obtain ⟨rfl, rfl⟩ := Prod.mk.inj (Option.some.inj hret)
        simp only [step, hr, Option.map_eq_some_iff] at hs
        obtain ⟨e, -, rfl⟩ := hs
        obtain ⟨hw, hnone, hrest⟩ := hc
        obtain ⟨-, -, log, rfl⟩ := resume_done hr
        obtain ⟨checks, written⟩ := (hw.frame p rfl).cancels he
        have hbefore := hrest.head
        have hafter := hc'.head
        simp only [proceed, hnone] at hbefore hafter
        exact ⟨checks, hbefore, hafter, hnone, hn.2, written⟩
      next => simp at hret
  | fail => simp [returns] at hret
  | drift e => simp [returns] at hret
  | openFrame => simp [returns] at hret
  | closeFrame => simp [returns] at hret
  | undoFrame => simp [returns] at hret

/-! ## Nothing after a settlement -/

/-- Once cancelled, the stream's token calls are `calls`, and no suspended code is about to
make another one. -/
def Spent (id : Uint256) (calls : List TokenCall) (pending : Option (VaultPending ch E))
    (w : VaultWorld ch E) : Prop :=
  (w.state.streams id).cancelled = true →
    callsFor id w.issued = calls ∧ ∀ p, pending = some p → p.cont.streamId ≠ id

theorem spent_guarded (out : Outside TokenCall E) (id : Uint256) (calls : List TokenCall) :
    Guarded (contract ch) out (fun w _ => (w.state.streams id).cancelled = true)
      (fun pending w => @Kept ch E pending w ∧ Spent id calls pending w) where
  enter_done p w m s h hc hr :=
    ⟨(kept_guarded out).enter_done p w m s h.1 trivial hr, fun _ => h.2 hc⟩
  enter_call p w m s c k h hc hr := by
    obtain ⟨hp, hk⟩ := (kept_guarded out).enter_call p w m s c k h.1 trivial hr
    have ho := enter_call hr
    have hlive : (w.state.streams k.streamId).cancelled = false := ho.suspended.saved_live.2
    have hne : k.streamId ≠ id := by
      rintro rfl
      simp [hlive] at hc
    have hreq : c.streamId = k.streamId := ho.suspended.request_streamId
    refine ⟨hp, hk, fun _ => ⟨?_, ?_⟩⟩
    · rw [World.request_issued, callsFor_append_of_ne (hreq ▸ hne)]
      exact (h.2 hc).1
    · rintro q ⟨⟩
      exact hne
  resume_done p w ok e s h hsaved he hr := by
    have hk := (kept_guarded out).resume_done p w ok e s h.1 hsaved.1 he hr
    obtain ⟨-, -, log, rfl⟩ := resume_done hr
    exact ⟨hk, fun hc => ⟨(h.2 hc).1, by simp⟩⟩
  resume_call p w ok e s c k h hsaved he hr := by
    have hk := (kept_guarded out).resume_call p w ok e s c k h.1 hsaved.1 he hr
    obtain ⟨-, rfl, i, refund, -, hcont, rfl, rfl⟩ := resume_call hr
    refine ⟨hk, fun hc => ?_⟩
    obtain ⟨hi, hp⟩ := h.2 hc
    have hne : i ≠ id := by
      have hi' := hp p rfl
      rwa [hcont] at hi'
    constructor
    · rw [World.request_issued, callsFor_append_of_ne hne]
      exact hi
    · rintro q ⟨⟩
      exact hne
  drift p w e h he := ⟨(kept_guarded out).drift p w e h.1 he, h.2⟩

/-- When a `cancelStream` has returned, every world that could still be brought back is
older than the settlement. -/
theorem Settled.covers {c : VaultConfig ch E} {w₀ : VaultWorld ch E} {m : Msg ch}
    {id accrued deadline : Uint256} {sig : Bytes} (h : Settled c w₀ m id accrued deadline sig)
    (hc : Covers Kept c.world c.stack) :
    Covers (fun p w => Kept p w ∧ Spent id (callsFor id c.world.issued) p w) c.world c.stack := by
  have hold : ∀ u, Later u w₀ → (u.state.streams id).cancelled = false := by
    intro u hu
    by_contra hn
    have hfrozen := hu.frozen id (by simpa using hn)
    have hlive := h.checks.live.2
    rw [hfrozen] at hlive
    exact hn hlive
  have hspent : ∀ u, Later u w₀ → Spent id (callsFor id c.world.issued) none u := by
    intro u hu hcancelled
    rw [hold u hu] at hcancelled
    simp at hcancelled
  have horder : Advances (contract ch) (⟨fun _ _ _ => none, fun _ _ => false⟩ : Outside TokenCall E)
      (@Kept ch E) Later := later_advances _
  have hbefore : Covers (Spent id (callsFor id c.world.issued)) w₀ c.stack :=
    h.nested.covers horder.trans h.alone (hspent w₀ (horder.refl w₀)) hspent
  refine hc.and (hbefore.replace ?_)
  rw [h.alone]
  exact fun _ => ⟨rfl, by simp⟩

/-- As long as the settlement is not undone by a revert around it, no token call is made for
the stream again. -/
theorem Settled.calls_eq {out : Outside TokenCall E} {c c' : VaultConfig ch E}
    {w₀ : VaultWorld ch E} {m : Msg ch} {id accrued deadline : Uint256} {sig : Bytes}
    {events : List (Event (Msg ch) E)} (h : Settled c w₀ m id accrued deadline sig)
    (hc : Covers Kept c.world c.stack)
    (hal : Along (step (contract ch) out)
      (fun c _ => (c.world.state.streams id).cancelled = true) c events)
    (hrun : run (step (contract ch) out) c events = some c')
    (hlast : (c'.world.state.streams id).cancelled = true) :
    callsFor id c'.world.issued = callsFor id c.world.issued := by
  have hcov := covers_along (spent_guarded out id _) (h.covers hc)
    (hal.imp fun _ _ hx _ _ => hx) hrun
  exact (hcov.head.2 hlast).1

/-- What was settled before the call stack was empty stays settled. -/
theorem cancelled_guarded (out : Outside TokenCall E) (id : Uint256) :
    Guarded (contract ch) out (fun _ _ => True) (fun pending w =>
      @Kept ch E pending w ∧ (w.state.streams id).cancelled = true) where
  enter_done p w m s h _ hr := by
    have hl := (h.1.closes_grows (enter_done hr)).later
    refine ⟨(kept_guarded out).enter_done p w m s h.1 trivial hr, ?_⟩
    rw [hl.frozen id h.2]
    exact h.2
  enter_call p w m s c k h _ hr := by
    obtain ⟨hp, hk⟩ := (kept_guarded out).enter_call p w m s c k h.1 trivial hr
    refine ⟨hp, hk, ?_⟩
    rw [(enter_call hr).grows.frozen id h.2]
    exact h.2
  resume_done p w ok e s h hsaved he hr := by
    have hk := (kept_guarded out).resume_done p w ok e s h.1 hsaved.1 he hr
    obtain ⟨-, -, log, rfl⟩ := resume_done hr
    exact ⟨hk, h.2⟩
  resume_call p w ok e s c k h hsaved he hr := by
    have hk := (kept_guarded out).resume_call p w ok e s c k h.1 hsaved.1 he hr
    obtain ⟨-, rfl, -⟩ := resume_call hr
    exact ⟨hk, h.2⟩
  drift p w e h he := ⟨(kept_guarded out).drift p w e h.1 he, h.2⟩

theorem Settled.calls_eq_of_top {out : Outside TokenCall E} {c c' : VaultConfig ch E}
    {w₀ : VaultWorld ch E} {m : Msg ch} {id accrued deadline : Uint256} {sig : Bytes}
    {events : List (Event (Msg ch) E)} (h : Settled c w₀ m id accrued deadline sig)
    (htop : c.stack = []) (hrun : run (step (contract ch) out) c events = some c') :
    callsFor id c'.world.issued = callsFor id c.world.issued := by
  have hcancelled : (c.world.state.streams id).cancelled = true := by rw [h.written]; rfl
  have hstart : Covers (fun p w => @Kept ch E p w ∧ (w.state.streams id).cancelled = true)
      c.world c.stack := by
    rw [htop]
    exact ⟨h.after, hcancelled⟩
  have hend := covers_run (cancelled_guarded out id) hstart hrun
  have hal : Along (step (contract ch) out)
      (fun c _ => (c.world.state.streams id).cancelled = true) c events :=
    along_of_invariant (P := fun c => Covers (fun p w => @Kept ch E p w ∧
        (w.state.streams id).cancelled = true) c.world c.stack)
      (fun _ _ hP => hP.head.2)
      (fun _ _ _ hP hs => covers_step (cancelled_guarded out id) hP (fun _ _ => trivial) hs)
      events hstart
  exact h.calls_eq (hstart.imp fun _ _ hx => hx.1) hal hrun hend.head.2

/-! ## Arithmetic that cannot fail -/

theorem recoverEthSigned_bind_overflow {β : Type} {digest : Bytes32} {sig : Bytes}
    {f : Address → Except Revert β} : (recoverEthSigned ch digest sig >>= f) = .error overflow →
      f (signerOf ch digest sig) = .error overflow := by
  unfold recoverEthSigned signerOf
  simp only [bind_assoc, require_bind_overflow, pure_bind]
  exact fun h => h.2.2

theorem nonReentrant_eq_overflow {v : StreamVault} {body : StreamVault → Except Revert Step} :
    nonReentrant v body = .error overflow ↔ v.entered = 1 ∧ body v.lock = .error overflow := by
  simp only [nonReentrant, require_bind_overflow]
  rfl

theorem withdraw_ne_overflow {timestamp id accrued deadline : Uint256} {sig : Bytes}
    {v : StreamVault} : withdraw ch timestamp id accrued deadline sig v ≠ .error overflow := by
  intro h
  simp only [withdraw, nonReentrant_eq_overflow, require_bind_overflow] at h
  obtain ⟨-, -, -, -, h⟩ := h
  have hsig := recoverEthSigned_bind_overflow h
  simp only [require_bind_overflow] at hsig
  obtain ⟨-, hdue, hsub⟩ := hsig
  rw [checkedSub_bind_overflow (Fin.le_def.mp hdue.le)] at hsub
  exact pure_ne_error hsub

theorem cancelStream_ne_overflow {sender : Address} {timestamp id accrued deadline : Uint256}
    {sig : Bytes} {v : StreamVault} (hcov : (v.streams id).withdrawn ≤ (v.streams id).funded) :
    cancelStream ch sender timestamp id accrued deadline sig v ≠ .error overflow := by
  intro h
  simp only [cancelStream, nonReentrant_eq_overflow, require_bind_overflow] at h
  obtain ⟨-, -, -, -, h⟩ := h
  have hsig := recoverEthSigned_bind_overflow h
  simp only [require_bind_overflow, Stream.capped_eq, Stream.payoutDue_eq, ok_bind,
    Stream.settled_withdrawn_eq] at hsig
  obtain ⟨-, hlast⟩ := hsig
  rw [Stream.refundDue_of_le (v.lock.streams id) _ hcov] at hlast
  split_ifs at hlast
  · exact pure_ne_error hlast
  · exact pure_ne_error hlast

/-- The figure that `withdraw` and `cancelStream` cast is at most `funded`. -/
theorem truncate_figures (s : Stream) (accrued : Uint256) :
    let cap := if accrued < widen s.funded then accrued else widen s.funded
    (truncate cap).val = cap.val ∧
    (truncate (if widen s.withdrawn < cap then cap else widen s.withdrawn)).val =
      (if widen s.withdrawn < cap then cap else widen s.withdrawn).val := by
  intro cap
  have hcap : cap.val < 2 ^ 128 := by
    have hc := s.capped_lt accrued
    simp only [cap, Stream.capped_eq]
    exact hc
  refine ⟨by rw [truncate_of_lt hcap], ?_⟩
  split_ifs
  · rw [truncate_of_lt hcap]
  · rw [truncate_of_lt (x := widen s.withdrawn) s.withdrawn.isLt]

theorem enter_ne_overflow {pending : Option (VaultPending ch E)} {w : VaultWorld ch E} {m : Msg ch}
    {id accrued deadline : Uint256} {sig : Bytes} (h : Kept pending w)
    (he : m.entry = .withdraw id accrued deadline sig ∨
      m.entry = .cancelStream id accrued deadline sig) :
    enter ch m w.state ≠ .error overflow := by
  unfold enter
  rcases he with he | he
  · rw [he]
    exact withdraw_ne_overflow
  · rw [he]
    exact cancelStream_ne_overflow (h.covered id)

theorem Settled.figures {c : VaultConfig ch E} {w₀ : VaultWorld ch E} {m : Msg ch}
    {id accrued deadline : Uint256} {sig : Bytes} (h : Settled c w₀ m id accrued deadline sig) :
    payouts c.world id = max (w₀.state.streams id).withdrawn.val
      (min accrued.val (w₀.state.streams id).funded.val) ∧
    payouts c.world id = (c.world.state.streams id).withdrawn.val ∧
    payouts c.world id + refunds c.world id = (w₀.state.streams id).funded.val := by
  have hp := h.after.paid id
  have hr := h.after.refunded id
  have hcov := h.before.covered id
  have hcap := (w₀.state.streams id).capped_le_funded accrued
  rw [Fin.le_def] at hcov
  rw [h.written] at hp hr ⊢
  simp only [Stream.settled, if_true, owedRefund, Stream.capped] at hp hr hcap ⊢
  refine ⟨hp, hp, ?_⟩
  omega

/-- Conservation and exact settlement of one stream, in every reachable configuration. -/
theorem stream_conserved {out : Outside TokenCall E} {sender teeSigner : Address} {e : E}
    {c : VaultConfig ch E} {events : List (Event (Msg ch) E)}
    (hrun : run (step (contract ch) out) (deployed ch sender teeSigner e) events = some c)
    (id : Uint256) :
    ((c.world.state.streams id).withdrawn.val ≤ (c.world.state.streams id).funded.val ∧
      (c.world.state.streams id).funded.val < 2 ^ 128) ∧
    (∀ call ∈ c.world.issued, CallOk ch c.world.state call) ∧
    ((c.world.state.streams id).cancelled = false →
      payouts c.world id = (c.world.state.streams id).withdrawn.val ∧ refunds c.world id = 0) ∧
    (∀ ev c' w₀ m accrued deadline sig, step (contract ch) out c ev = some c' →
      returns (contract ch) c ev = some (w₀, m) →
      m.entry = .cancelStream id accrued deadline sig →
      (payouts c'.world id = max (w₀.state.streams id).withdrawn.val
          (min accrued.val (w₀.state.streams id).funded.val) ∧
        payouts c'.world id = (c'.world.state.streams id).withdrawn.val ∧
        payouts c'.world id + refunds c'.world id = (w₀.state.streams id).funded.val) ∧
      c'.world.state.streams id = (w₀.state.streams id).settled accrued ∧
      ∀ later c'', run (step (contract ch) out) c' later = some c'' →
        (c'.stack = [] ∨ Along (step (contract ch) out)
          (fun c _ => (c.world.state.streams id).cancelled = true) c' later ∧
          (c''.world.state.streams id).cancelled = true) →
        callsFor id c''.world.issued = callsFor id c'.world.issued) ∧
    (∀ m accrued deadline sig, (m.entry = .withdraw id accrued deadline sig ∨
      m.entry = .cancelStream id accrued deadline sig) →
      enter ch m c.world.state ≠ .error overflow) ∧
    (∀ accrued : Uint256,
      let s := c.world.state.streams id
      let cap := if accrued < widen s.funded then accrued else widen s.funded
      let lifetime := if widen s.withdrawn < cap then cap else widen s.withdrawn
      (truncate cap).val = cap.val ∧ (truncate lifetime).val = lifetime.val) ∧
    (∀ m accrued deadline sig, pendingOf c.stack = none →
      Cancels m c.world.state id accrued deadline sig → ∃ r, enter ch m c.world.state = .ok r) ∧
    ∀ k v, ∃ r, resume ch k true v = .ok r := by
  have hc := kept_run hrun
  have hn : Nested Later c.world c.stack :=
    nested_run (c := deployed ch sender teeSigner e) (kept_guarded out) (later_advances out)
      (kept_constructor sender teeSigner e) trivial hrun
  have hk := hc.head
  refine ⟨⟨hk.covered id, Fin.isLt _⟩, hk.issued, ?_, ?_, ?_, ?_, ?_, resume_true⟩
  · intro hlive
    have hr := hk.refunded id
    rw [hlive] at hr
    simp only [Bool.false_eq_true, if_false] at hr
    exact ⟨hk.paid id, by omega⟩
  · intro ev c' w₀ m accrued deadline sig hs hret he
    have hset := settled_of_returns hc hn hs hret he
    have hc' := covers_step (kept_guarded out) hc (fun _ _ => trivial) hs
    refine ⟨hset.figures, hset.written, ?_⟩
    rintro later c'' hlater (htop | ⟨hal, hlast⟩)
    · exact hset.calls_eq_of_top htop hlater
    · exact hset.calls_eq hc' hal hlater hlast
  · intro m accrued deadline sig he
    exact enter_ne_overflow hk he
  · intro accrued
    exact truncate_figures _ accrued
  · intro m accrued deadline sig hnone hcancels
    exact hcancels.enter_ok (hnone ▸ hk)

open Reference in
theorem stream_conserved_coston2 :
    ∃ c, run (step (contract coston2) compliant) (deployed coston2 employer teeSigner ())
        [.call createCall, .call fundCall, .answer true, .call withdrawCall, .answer true] =
          some c ∧
      (c.world.state.streams 1).withdrawn.val = 100 ∧
      payouts c.world 1 = (c.world.state.streams 1).withdrawn.val ∧ refunds c.world 1 = 0 := by
  have hfinal : (run (step (contract coston2) compliant) (deployed coston2 employer teeSigner ())
      [.call createCall, .call fundCall, .answer true, .call withdrawCall, .answer true]).any
      (fun c => (c.world.state.streams 1).withdrawn.val = 100 ∧
        (c.world.state.streams 1).cancelled = false) = true := by decide +kernel
  obtain ⟨c, hrun, hc⟩ := (Option.any_eq_true _ _).mp hfinal
  obtain ⟨hw, hlive⟩ := of_decide_eq_true hc
  obtain ⟨-, -, hbooks, -⟩ := stream_conserved hrun 1
  exact ⟨c, hrun, hw, hbooks hlive⟩

end StealthWage.Vault
