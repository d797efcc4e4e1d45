import StealthWage.VaultInvariant

/-! # Payments backed by vouchers

`G commitment accrued deadline m` says that something vouches for the figures that the call
`m` presents for a stream with that commitment. If every call that the vault lets through is
vouched for, then so is all that it has paid out, in every world of every run. -/
namespace StealthWage.Vault
open CallStack Words

variable {ch : Chain} {E : Type*}

/-- The cumulative figure and the deadline that a call presents for the stream. -/
def presents (id : Uint256) (m : Msg ch) : Option (Uint256 × Uint256) :=
  match m.entry with
  | .withdraw i accrued deadline _ => if i = id then some (accrued, deadline) else none
  | .cancelStream i accrued deadline _ => if i = id then some (accrued, deadline) else none
  | _ => none

def Settles (id : Uint256) (m : Msg ch) : Prop :=
  ∃ accrued deadline sig, m.entry = .cancelStream id accrued deadline sig

theorem Settles.presents {id : Uint256} {m : Msg ch} (h : Settles id m) :
    presents id m ≠ none := by
  obtain ⟨accrued, deadline, sig, he⟩ := h
  simp [Vault.presents, he]

/-- What vouches for the figures of a stream `s` after the calls `ms`. -/
structure Backed (G : Bytes32 → Uint256 → Uint256 → Msg ch → Prop) (id : Uint256) (s : Stream)
    (ms : List (Msg ch)) : Prop where
  figure : s.withdrawn = 0 ∨
    ∃ accrued deadline m, G s.commitment accrued deadline m ∧ s.withdrawn.val ≤ accrued.val
  used : ∀ m ∈ ms, ∀ accrued deadline, presents id m = some (accrued, deadline) →
    s.employer ≠ 0 ∧ G s.commitment accrued deadline m ∧ m.timestamp ≤ deadline
  final : ∀ m ∈ ms, Settles id m → s.cancelled = true ∧ (s.withdrawn = 0 ∨
    ∃ accrued deadline, G s.commitment accrued deadline m ∧ s.withdrawn.val ≤ accrued.val)

namespace Backed

variable {G G' : Bytes32 → Uint256 → Uint256 → Msg ch → Prop} {id : Uint256} {s s' : Stream}
  {ms ms' : List (Msg ch)}

theorem imp (hG : ∀ c a d m, G c a d m → G' c a d m) (h : Backed G id s ms) :
    Backed G' id s ms where
  figure := h.figure.imp_right fun ⟨a, d, m, hg, hle⟩ => ⟨a, d, m, hG _ _ _ _ hg, hle⟩
  used m hm a d hp := by
    obtain ⟨hx, hg, ht⟩ := h.used m hm a d hp
    exact ⟨hx, hG _ _ _ _ hg, ht⟩
  final m hm hs := by
    obtain ⟨hc, hf⟩ := h.final m hm hs
    exact ⟨hc, hf.imp_right fun ⟨a, d, hg, hle⟩ => ⟨a, d, hG _ _ _ _ hg, hle⟩⟩

/-- Calls that present nothing for the stream leave its backing as it is. -/
theorem keep (h : Backed G id s ms) (hx : s'.employer = s.employer)
    (hc : s'.commitment = s.commitment) (hw : s'.withdrawn = s.withdrawn)
    (hl : s'.cancelled = s.cancelled) (hms : ∀ m ∈ ms', m ∈ ms ∨ presents id m = none) :
    Backed G id s' ms' where
  figure := by
    rw [hc, hw]
    exact h.figure
  used m hm a d hp := by
    rw [hx, hc]
    rcases hms m hm with hm | hm
    · exact h.used m hm a d hp
    · rw [hm] at hp
      simp at hp
  final m hm hs := by
    rw [hc, hw, hl]
    rcases hms m hm with hm | hm
    · exact h.final m hm hs
    · exact absurd hm hs.presents

/-- A stream that was never created has nothing to back. -/
theorem fresh (h : Backed G id s ms) (hs : s.employer = 0) (hw : s'.withdrawn = 0)
    (hms : ∀ m ∈ ms', m ∈ ms ∨ presents id m = none) : Backed G id s' ms' := by
  have hnone : ∀ m ∈ ms', presents id m = none := by
    intro m hm
    rcases hms m hm with hm | hm
    · cases hp : presents id m with
      | none => rfl
      | some ad => exact absurd hs (h.used m hm ad.1 ad.2 hp).1
    · exact hm
  refine ⟨.inl hw, ?_, ?_⟩
  · intro m hm a d hp
    rw [hnone m hm] at hp
    simp at hp
  · intro m hm hset
    exact absurd (hnone m hm) hset.presents

/-- A vouched call moves the figure of a live stream. -/
theorem present (h : Backed G id s ms) {m : Msg ch} {accrued deadline : Uint256}
    (hG : G s.commitment accrued deadline m) (hlift : ∀ c a d m', G c a d m' → G c a d m)
    (hm : presents id m = some (accrued, deadline)) (ht : m.timestamp ≤ deadline)
    (hx : s.employer ≠ 0) (hlive : s.cancelled = false) (hx' : s'.employer = s.employer)
    (hc : s'.commitment = s.commitment)
    (hw : s'.withdrawn = s.withdrawn ∨ s'.withdrawn.val ≤ accrued.val)
    (hset : Settles id m → s'.cancelled = true)
    (hms : ∀ m' ∈ ms', m' ∈ ms ∨ m' = m) : Backed G id s' ms' := by
  have hbacked : s'.withdrawn = 0 ∨
      ∃ a d, G s'.commitment a d m ∧ s'.withdrawn.val ≤ a.val := by
    rw [hc]
    rcases hw with hw | hw
    · rw [hw]
      exact h.figure.imp_right fun ⟨a, d, m', hg, hle⟩ => ⟨a, d, hlift _ _ _ _ hg, hle⟩
    · exact .inr ⟨accrued, deadline, hG, hw⟩
  refine ⟨hbacked.imp_right fun ⟨a, d, hg, hle⟩ => ⟨a, d, m, hg, hle⟩, ?_, ?_⟩
  · intro m' hm' a d hp
    rw [hx', hc]
    rcases hms m' hm' with hm' | rfl
    · exact h.used m' hm' a d hp
    · obtain ⟨rfl, rfl⟩ := Prod.mk.inj (Option.some.inj (hm.symm.trans hp))
      exact ⟨hx, hG, ht⟩
  · intro m' hm' hs
    rcases hms m' hm' with hm' | rfl
    · -- a settlement would have cancelled the stream
      have hcancelled := (h.final m' hm' hs).1
      rw [hlive] at hcancelled
      simp at hcancelled
    · exact ⟨hset hs, hbacked⟩

end Backed

/-! ## The guard -/

/-- The calls that have taken effect in a world: returned ones, and the suspended one. -/
def effective (pending : Option (VaultPending ch E)) (w : VaultWorld ch E) : List (Msg ch) :=
  w.returned ++ (pending.map Pending.msg).toList

/-- Something vouches for what the call presents, if the vault accepts it. -/
structure Vouched (G : Bytes32 → Uint256 → Uint256 → Msg ch → Prop) (id : Uint256)
    (w : VaultWorld ch E) (m : Msg ch) : Prop where
  withdraw : ∀ accrued deadline sig, Withdraws m w.state id accrued deadline sig →
    G (w.state.streams id).commitment accrued deadline m
  cancel : ∀ accrued deadline sig, Cancels m w.state id accrued deadline sig →
    G (w.state.streams id).commitment accrued deadline m
  lift : ∀ c a d m', G c a d m' → G c a d m

theorem mem_effective_finish {pending : Option (VaultPending ch E)} {w : VaultWorld ch E}
    {m m' : Msg ch} {s : StreamVault} (h : m' ∈ effective pending (w.finish m s)) :
    m' ∈ effective pending w ∨ m' = m := by
  simp only [effective, World.finish_returned, List.mem_append, List.mem_singleton] at h ⊢
  tauto

theorem Closes.backed {G : Bytes32 → Uint256 → Uint256 → Msg ch → Prop} {id : Uint256}
    {pending : Option (VaultPending ch E)} {w : VaultWorld ch E} {m : Msg ch} {s : StreamVault}
    (hc : Closes m w.state s) (hk : Kept pending w)
    (h : Backed G id (w.state.streams id) (effective pending w)) (hv : Vouched G id w m) :
    Backed G id (s.streams id) (effective pending (w.finish m s)) := by
  have hsame : presents id m = none → ∀ m' ∈ effective pending (w.finish m s),
      m' ∈ effective pending w ∨ presents id m' = none := by
    rintro hm m' hm'
    rcases mem_effective_finish hm' with h' | rfl
    · exact .inl h'
    · exact .inr hm
  cases hc with
  | signer entry => exact h.keep rfl rfl rfl rfl (hsame (by simp [presents, entry]))
  | reveal entry => exact h.keep rfl rfl rfl rfl (hsame (by simp [presents, entry]))
  | create entry =>
    have hms := hsame (by simp [presents, entry])
    by_cases hid : id = w.state.nextStreamId
    · subst hid
      have hfresh : w.state.streams w.state.nextStreamId = Stream.zero :=
        hk.unborn _ (.inr le_rfl)
      exact h.fresh (by rw [hfresh]; rfl) (by simp [StreamVault.created]) hms
    · exact h.keep (by simp [StreamVault.created, hid]) (by simp [StreamVault.created, hid])
        (by simp [StreamVault.created, hid]) (by simp [StreamVault.created, hid]) hms
  | @cancel i accrued deadline sig unlocked checks covered unpaid spent =>
    by_cases hid : i = id
    · subst hid
      have hpresents : presents i m = some (accrued, deadline) := by
        simp [presents, checks.entry]
      have hw := (w.state.streams i).settled_of_payoutDue_eq_zero unpaid
      simp only [StreamVault.closed_streams, StreamVault.setStream_streams, Function.update_self]
      exact h.present (hv.cancel _ _ _ checks) hv.lift hpresents checks.authorized.unexpired
        checks.live.1 checks.live.2 rfl rfl (.inl hw) (fun _ => rfl)
        fun m' hm' => mem_effective_finish hm'
    · have hms := hsame (by simp [presents, checks.entry, hid])
      have hother : ((w.state.lock.setStream i ((w.state.streams i).settled accrued)).closed
          (.streamCancelled i 0)).streams id = w.state.streams id :=
        Function.update_of_ne (Ne.symm hid) _ _
      rw [hother]
      exact h.keep rfl rfl rfl rfl hms

theorem Opens.backed {G : Bytes32 → Uint256 → Uint256 → Msg ch → Prop} {id : Uint256}
    {w : VaultWorld ch E} {m : Msg ch} {s : StreamVault} {c : TokenCall} {k : Cont}
    (ho : Opens w m s c k) (h : Backed G id (w.state.streams id) (effective none w))
    (hv : Vouched G id w m) :
    Backed G id (s.streams id) (effective (some ⟨w, m, c, k⟩) (w.request c s)) := by
  have hms : ∀ m' ∈ effective (some ⟨w, m, c, k⟩) (w.request c s),
      m' ∈ effective none w ∨ m' = m := by
    intro m' hm'
    simpa [effective] using hm'
  have hstate : s.streams = Function.update w.state.streams k.streamId (s.streams k.streamId) :=
    (congrArg StreamVault.streams ho.state :)
  by_cases hid : k.streamId = id
  · subst hid
    cases ho.suspended with
    | @fund _ _ i amount funded checks written =>
      simp only [Cont.streamId] at written h hv ⊢
      rw [written]
      refine h.keep rfl rfl rfl rfl ?_
      intro m' hm'
      rcases hms m' hm' with h' | rfl
      · exact .inl h'
      · exact .inr (by simp [presents, checks.entry])
    | @withdraw _ _ i accrued deadline sig checks written =>
      simp only [Cont.streamId] at written h hv ⊢
      rw [written]
      refine h.present (hv.withdraw _ _ _ checks) hv.lift (by simp [presents, checks.entry])
        checks.authorized.unexpired checks.live.1 checks.live.2 rfl rfl
        (.inr (min_le_left _ _)) ?_ hms
      rintro ⟨a, d, g, he⟩
      simp [checks.entry] at he
    | @settle _ _ i accrued deadline sig checks written =>
      simp only [Cont.streamId] at written h hv ⊢
      rw [written]
      exact h.present (hv.cancel _ _ _ checks) hv.lift (by simp [presents, checks.entry])
        checks.authorized.unexpired checks.live.1 checks.live.2 rfl rfl
        ((w.state.streams i).settled_withdrawn_cases accrued) (fun _ => rfl) hms
    | @refund _ _ i accrued deadline sig checks written =>
      simp only [Cont.streamId] at written h hv ⊢
      rw [written]
      exact h.present (hv.cancel _ _ _ checks) hv.lift (by simp [presents, checks.entry])
        checks.authorized.unexpired checks.live.1 checks.live.2 rfl rfl
        ((w.state.streams i).settled_withdrawn_cases accrued) (fun _ => rfl) hms
  · have hother : s.streams id = w.state.streams id := by
      rw [hstate, Function.update_of_ne (Ne.symm hid)]
    rw [hother]
    refine h.keep rfl rfl rfl rfl ?_
    intro m' hm'
    rcases hms m' hm' with h' | rfl
    · exact .inl h'
    · refine .inr ?_
      cases ho.suspended with
      | fund checks => simp [presents, checks.entry]
      | withdraw checks => simpa [presents, checks.entry, Cont.streamId] using hid
      | settle checks => simpa [presents, checks.entry, Cont.streamId] using hid
      | refund checks => simpa [presents, checks.entry, Cont.streamId] using hid

/-- Backing is an invariant of the runs whose calls are vouched for. -/
theorem backed_guarded (out : Outside TokenCall E)
    (G : Bytes32 → Uint256 → Uint256 → Msg ch → Prop) (id : Uint256) :
    Guarded (contract ch) out (Vouched G id) (fun pending w => @Kept ch E pending w ∧
      Backed G id (w.state.streams id) (effective pending w)) where
  enter_done p w m s h hv hr :=
    ⟨(kept_guarded out).enter_done p w m s h.1 trivial hr, (enter_done hr).backed h.1 h.2 hv⟩
  enter_call p w m s c k h hv hr := by
    obtain ⟨rfl, hk⟩ := (kept_guarded out).enter_call p w m s c k h.1 trivial hr
    exact ⟨rfl, hk, (enter_call hr).backed h.2 hv⟩
  resume_done p w ok e s h hsaved he hr := by
    have hk := (kept_guarded out).resume_done p w ok e s h.1 hsaved.1 he hr
    obtain ⟨-, -, log, rfl⟩ := resume_done hr
    refine ⟨hk, h.2.keep rfl rfl rfl rfl ?_⟩
    intro m' hm'
    exact .inl (by simpa [effective] using hm')
  resume_call p w ok e s c k h hsaved he hr := by
    have hk := (kept_guarded out).resume_call p w ok e s c k h.1 hsaved.1 he hr
    obtain ⟨-, rfl, -⟩ := resume_call hr
    exact ⟨hk, h.2.keep rfl rfl rfl rfl fun m' hm' => .inl hm'⟩
  drift p w e h he :=
    ⟨(kept_guarded out).drift p w e h.1 he, h.2.keep rfl rfl rfl rfl fun m' hm' => .inl hm'⟩

theorem backed_constructor (G : Bytes32 → Uint256 → Uint256 → Msg ch → Prop) (id : Uint256)
    (sender teeSigner : Address) (e : E) :
    Covers (fun pending w => @Kept ch E pending w ∧
        Backed G id (w.state.streams id) (effective pending w))
      (deployed ch sender teeSigner e).world (deployed ch sender teeSigner e).stack :=
  ⟨kept_constructor sender teeSigner e, .inl rfl, by simp [deployed, effective],
    by simp [deployed, effective]⟩

end StealthWage.Vault
