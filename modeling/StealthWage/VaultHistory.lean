import StealthWage.VaultInvariant

/-! # The history of the vault

A record is only added to until it is cancelled and never changes after that. Every piece of
the contract's code moves forward in this order. -/
namespace StealthWage.Vault
open CallStack Words

variable {ch : Chain} {E : Type*}

/-- What holds between a world and any later one, of every stream. -/
structure Grows (w w' : VaultWorld ch E) : Prop where
  parties : ∀ id, (w.state.streams id).employer ≠ 0 →
    (w'.state.streams id).employer = (w.state.streams id).employer ∧
    (w'.state.streams id).recipient = (w.state.streams id).recipient ∧
    (w'.state.streams id).token = (w.state.streams id).token ∧
    (w'.state.streams id).commitment = (w.state.streams id).commitment ∧
    (w'.state.streams id).startTime = (w.state.streams id).startTime
  funded : ∀ id, (w.state.streams id).funded ≤ (w'.state.streams id).funded
  withdrawn : ∀ id, (w.state.streams id).withdrawn ≤ (w'.state.streams id).withdrawn
  frozen : ∀ id, (w.state.streams id).cancelled = true →
    w'.state.streams id = w.state.streams id
  logs : w.state.logs <+: w'.state.logs
  owner : w'.state.owner = w.state.owner

namespace Grows

variable {w w' w'' : VaultWorld ch E}

theorem of_eq (h : w'.state.streams = w.state.streams) (hl : w.state.logs <+: w'.state.logs)
    (ho : w'.state.owner = w.state.owner) : Grows w w' where
  parties id _ := by simp only [h, and_self]
  funded id := by rw [h]
  withdrawn id := by rw [h]
  frozen id _ := by rw [h]
  logs := hl
  owner := ho

theorem trans (h : Grows w w') (h' : Grows w' w'') : Grows w w'' where
  parties id hx := by
    obtain ⟨he, hr, ht, hc, hs⟩ := h.parties id hx
    obtain ⟨he', hr', ht', hc', hs'⟩ := h'.parties id (he ▸ hx)
    exact ⟨he'.trans he, hr'.trans hr, ht'.trans ht, hc'.trans hc, hs'.trans hs⟩
  funded id := (h.funded id).trans (h'.funded id)
  withdrawn id := (h.withdrawn id).trans (h'.withdrawn id)
  frozen id hc := by
    have hs := h.frozen id hc
    exact (h'.frozen id (hs ▸ hc)).trans hs
  logs := h.logs.trans h'.logs
  owner := h'.owner.trans h.owner

end Grows

/-- A record that has only been added to. -/
structure Stream.Extends (s s' : Stream) : Prop where
  parties : s'.employer = s.employer ∧ s'.recipient = s.recipient ∧ s'.token = s.token ∧
    s'.commitment = s.commitment ∧ s'.startTime = s.startTime
  funded : s.funded ≤ s'.funded
  withdrawn : s.withdrawn ≤ s'.withdrawn

theorem Stream.extends_settled (s : Stream) (accrued : Uint256) : s.Extends (s.settled accrued) :=
  ⟨⟨rfl, rfl, rfl, rfl, rfl⟩, le_rfl, Fin.le_def.mpr (le_max_left _ _)⟩

/-- One live stream is added to. -/
theorem Grows.of_update {w w' : VaultWorld ch E} {id : Uint256} {s : Stream}
    (hs : w'.state.streams = Function.update w.state.streams id s)
    (hlive : (w.state.streams id).cancelled = false) (he : (w.state.streams id).Extends s)
    (hl : w.state.logs <+: w'.state.logs) (ho : w'.state.owner = w.state.owner) : Grows w w' := by
  have hother : ∀ j, j ≠ id → w'.state.streams j = w.state.streams j := by
    intro j hj
    rw [hs, Function.update_of_ne hj]
  have hself : w'.state.streams id = s := by rw [hs, Function.update_self]
  refine ⟨fun j _ => ?_, fun j => ?_, fun j => ?_, fun j hc => ?_, hl, ho⟩
  · by_cases hj : j = id
    · subst hj
      rw [hself]
      exact he.parties
    · simp only [hother j hj, and_self]
  · by_cases hj : j = id
    · subst hj
      rw [hself]
      exact he.funded
    · rw [hother j hj]
  · by_cases hj : j = id
    · subst hj
      rw [hself]
      exact he.withdrawn
    · rw [hother j hj]
  · refine hother j ?_
    rintro rfl
    simp [hlive] at hc

theorem Suspended.extends {v : StreamVault} {p : VaultPending ch E} (h : Suspended v p) :
    (p.saved.state.streams p.cont.streamId).Extends (v.streams p.cont.streamId) := by
  cases h with
  | fund checks written =>
    have hsum := checks.sum
    simp only [Cont.streamId, written]
    exact ⟨⟨rfl, rfl, rfl, rfl, rfl⟩, Fin.le_def.mpr (by simp only; omega), le_rfl⟩
  | withdraw checks written =>
    have hdue := checks.due
    simp only [Cont.streamId, written]
    exact ⟨⟨rfl, rfl, rfl, rfl, rfl⟩, le_rfl, Fin.le_def.mpr hdue.le⟩
  | settle checks written =>
    simp only [Cont.streamId, written]
    exact Stream.extends_settled _ _
  | refund checks written =>
    simp only [Cont.streamId, written]
    exact Stream.extends_settled _ _

theorem Kept.ne_next_of_cancelled {pending : Option (VaultPending ch E)} {w : VaultWorld ch E}
    (h : Kept pending w) {id : Uint256} (hc : (w.state.streams id).cancelled = true) :
    id ≠ w.state.nextStreamId := by
  rintro rfl
  rw [h.unborn _ (.inr le_rfl)] at hc
  simp [Stream.zero] at hc

theorem Kept.closes_grows {pending : Option (VaultPending ch E)} {w : VaultWorld ch E}
    {m : Msg ch} {s : StreamVault} (h : Kept pending w) (hc : Closes m w.state s) :
    Grows w (w.finish m s) := by
  cases hc with
  | signer => exact .of_eq rfl (List.prefix_append _ _) rfl
  | reveal => exact .of_eq rfl (List.prefix_append _ _) rfl
  | create =>
    have hzero := h.unborn _ (.inr le_rfl)
    refine ⟨fun id hx => ?_, fun id => ?_, fun id => ?_, fun id hid => ?_,
      List.prefix_append _ _, rfl⟩
    · have hne : id ≠ w.state.nextStreamId := (h.born hx).2.ne
      simp [StreamVault.created, hne]
    · by_cases hid : id = w.state.nextStreamId
      · subst hid
        simp [hzero, Stream.zero]
      · simp [StreamVault.created, hid]
    · by_cases hid : id = w.state.nextStreamId
      · subst hid
        simp [hzero, Stream.zero]
      · simp [StreamVault.created, hid]
    · have hne := h.ne_next_of_cancelled hid
      simp [StreamVault.created, hne]
  | cancel unlocked checks =>
    exact .of_update rfl checks.live.2 (Stream.extends_settled _ _) (List.prefix_append _ _) rfl

theorem Opens.logs {w : VaultWorld ch E} {m : Msg ch} {s : StreamVault} {c : TokenCall} {k : Cont}
    (ho : Opens w m s c k) : s.logs = w.state.logs ∧ s.owner = w.state.owner ∧
      s.teeSigner = w.state.teeSigner ∧ s.nextStreamId = w.state.nextStreamId := by
  rw [ho.state]
  exact ⟨rfl, rfl, rfl, rfl⟩

theorem Opens.streams {w : VaultWorld ch E} {m : Msg ch} {s : StreamVault} {c : TokenCall}
    {k : Cont} (ho : Opens w m s c k) :
    s.streams = Function.update w.state.streams k.streamId (s.streams k.streamId) :=
  (congrArg StreamVault.streams ho.state :)

theorem Opens.grows {w : VaultWorld ch E} {m : Msg ch} {s : StreamVault} {c : TokenCall} {k : Cont}
    (ho : Opens w m s c k) : Grows w (w.request c s) := by
  obtain ⟨hlogs, howner, -⟩ := ho.logs
  exact .of_update ho.streams ho.suspended.saved_live.2 ho.suspended.extends
    (by rw [World.request_state, hlogs]) howner

theorem grows_advances (out : Outside TokenCall E) :
    Advances (contract ch) out (@Kept ch E) Grows where
  refl _ := .of_eq rfl (List.prefix_refl _) rfl
  trans _ _ _ h h' := h.trans h'
  enter _ w m r h hr := by
    cases r with
    | done s => exact h.closes_grows (enter_done hr)
    | call s c k => exact (enter_call hr).grows
  resume _ w ok e r _ hr := by
    cases r with
    | done s =>
      obtain ⟨-, -, log, rfl⟩ := resume_done hr
      exact .of_eq rfl (List.prefix_append _ _) rfl
    | call s c k =>
      obtain ⟨-, rfl, -⟩ := resume_call hr
      exact .of_eq rfl (List.prefix_refl _) rfl
  drift _ _ := .of_eq rfl (List.prefix_refl _) rfl

end StealthWage.Vault
