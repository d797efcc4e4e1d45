import StealthWage.Reference
import StealthWage.VaultHistory

/-! # The life of a stream

Ids are handed out in order, and a figure moves only under a signature of the key in force.
A revert brings back an earlier world, so the future of a world is followed as long as no
call that was under way in it has returned. -/
namespace StealthWage.Vault
open CallStack Runs Words

variable {ch : Chain} {E : Type*}

/-- The ids in the events of `createStream`, in order. -/
def createdIds (logs : List Log) : List ℕ :=
  logs.filterMap fun
    | .streamCreated streamId .. => some streamId.val
    | _ => none

theorem createdIds_append (logs more : List Log) :
    createdIds (logs ++ more) = createdIds logs ++ createdIds more := List.filterMap_append

/-- The stream that an operation names. -/
def Entry.names : Entry → Option Uint256
  | .setTeeSigner _ => none
  | .createStream .. => none
  | .fund streamId _ => some streamId
  | .withdraw streamId .. => some streamId
  | .cancelStream streamId .. => some streamId
  | .revealTerms streamId _ => some streamId

theorem Suspended.names {v : StreamVault} {p : VaultPending ch E} (h : Suspended v p) :
    p.msg.entry.names = some p.cont.streamId := by
  cases h with
  | fund checks => rw [checks.entry]; rfl
  | withdraw checks => rw [checks.entry]; rfl
  | settle checks => rw [checks.entry]; rfl
  | refund checks => rw [checks.entry]; rfl

/-- The account books of ids and signers, and of the streams that no suspended call works on. -/
structure Ordered (deployer : Address) (pending : Option (VaultPending ch E))
    (w : VaultWorld ch E) : Prop where
  kept : Kept pending w
  ids : createdIds w.state.logs = List.range' 1 (w.state.nextStreamId.val - 1)
  created : ∀ id, id ≠ 0 → id < w.state.nextStreamId → (w.state.streams id).employer ≠ 0
  owner : w.state.owner = deployer
  unsigned : w.state.teeSigner = 0 → ∀ id, (w.state.streams id).withdrawn = 0 ∧
    (w.state.streams id).cancelled = false
  isolated : ∀ p, pending = some p → ∀ id ≠ p.cont.streamId,
    (p.saved.state.streams id).employer ≠ 0 → w.state.streams id = p.saved.state.streams id

theorem closed_ids {k : Cont} {ok : Bool} {v s : StreamVault}
    (h : resume ch k ok v = .ok (.done s)) : createdIds s.logs = createdIds v.logs := by
  have hnone : ∀ log, createdIds [log] = [] → createdIds (v.closed log).logs = createdIds v.logs := by
    intro log hlog
    have happend := createdIds_append v.logs [log]
    rwa [hlog, List.append_nil] at happend
  cases k with
  | funded id amount =>
    simp only [resume, require_bind, pure_eq_ok] at h
    obtain rfl := Progress.done.inj h.2
    exact hnone _ rfl
  | withdrawn id payout =>
    simp only [resume, require_bind, pure_eq_ok] at h
    obtain rfl := Progress.done.inj h.2
    exact hnone _ rfl
  | settled id refund =>
    simp only [resume, require_bind, pure_eq_ok, refundEmployer_eq] at h
    obtain ⟨-, hr⟩ := h
    split_ifs at hr
    obtain rfl := Progress.done.inj hr
    exact hnone _ rfl
  | refunded id refund =>
    simp only [resume, require_bind, pure_eq_ok] at h
    obtain rfl := Progress.done.inj h.2
    exact hnone _ rfl

theorem range'_succ_of_next {n next : Uint256} (hn : n ≠ 0) (h : next.val = n.val + 1) :
    List.range' 1 (next.val - 1) = List.range' 1 (n.val - 1) ++ [n.val] := by
  have hpos : 0 < n.val := Nat.pos_of_ne_zero fun h0 => hn (Fin.ext h0)
  obtain ⟨k, hk⟩ : ∃ k, n.val = k + 1 := ⟨n.val - 1, by omega⟩
  rw [h, hk, Nat.add_sub_cancel, Nat.add_sub_cancel, List.range'_concat]
  simp [Nat.add_comm]

namespace Ordered

variable {deployer : Address} {pending : Option (VaultPending ch E)} {w : VaultWorld ch E}

/-- A stream exists when its id was handed out. -/
theorem exists_iff (h : Ordered deployer pending w) (id : Uint256) :
    (w.state.streams id).employer ≠ 0 ↔ id.val ∈ createdIds w.state.logs := by
  have hpos : 0 < w.state.nextStreamId.val :=
    Nat.pos_of_ne_zero fun h0 => h.kept.nonzero (Fin.ext h0)
  rw [h.ids, List.mem_range'_1]
  constructor
  · intro hx
    obtain ⟨h0, hlt⟩ := h.kept.born hx
    have hid : id.val ≠ 0 := fun hv => h0 (Fin.ext hv)
    rw [Fin.lt_def] at hlt
    omega
  · rintro ⟨hone, hlt⟩
    refine h.created id ?_ (Fin.lt_def.mpr (by omega))
    rintro rfl
    simp at hone

/-- Changes that no clause looks at. -/
theorem congr (h : Ordered deployer pending w) {w' : VaultWorld ch E} {pending' : Option (VaultPending ch E)}
    (hk : Kept pending' w') (hs : w'.state.streams = w.state.streams)
    (hn : w'.state.nextStreamId = w.state.nextStreamId)
    (hl : createdIds w'.state.logs = createdIds w.state.logs)
    (ho : w'.state.owner = w.state.owner)
    (ht : w'.state.teeSigner = 0 → w.state.teeSigner = 0)
    (hp : ∀ p, pending' = some p → ∃ q, pending = some q ∧ q.saved = p.saved ∧
      q.cont.streamId = p.cont.streamId) : Ordered deployer pending' w' where
  kept := hk
  ids := by rw [hl, hn]; exact h.ids
  created := by rw [hs, hn]; exact h.created
  owner := ho.trans h.owner
  unsigned h0 := by rw [hs]; exact h.unsigned (ht h0)
  isolated p hpend id hne hx := by
    obtain ⟨q, hq, hsaved, hid⟩ := hp p hpend
    rw [hs, ← hsaved]
    exact h.isolated q hq id (hid ▸ hne) (hsaved ▸ hx)

theorem closes {m : Msg ch} {s : StreamVault} (h : Ordered deployer pending w)
    (hc : Closes m w.state s) : Ordered deployer pending (w.finish m s) := by
  have hk : Kept pending (w.finish m s) := hc.kept h.kept
  cases hc with
  | signer entry sender nonzero =>
    refine h.congr hk rfl rfl ?_ rfl (fun h0 => absurd h0 nonzero) fun p hp => ⟨p, hp, rfl, rfl⟩
    exact (createdIds_append _ _).trans (List.append_nil _)
  | reveal =>
    refine h.congr hk rfl rfl ?_ rfl id fun p hp => ⟨p, hp, rfl, rfl⟩
    exact (createdIds_append _ _).trans (List.append_nil _)
  | create entry recipient_ne_zero token_ne_zero commitment_ne_zero next_eq =>
    have hother : ∀ id s next log, id ≠ w.state.nextStreamId →
        ((w.state.created s next).emit log).streams id = w.state.streams id :=
      fun id s next log hid => Function.update_of_ne hid _ _
    refine ⟨hk, ?_, fun id h0 hlt => ?_, h.owner, fun h0 id => ?_, fun p hp id hne hx => ?_⟩
    · exact (createdIds_append _ _).trans
        ((congrArg (· ++ _) h.ids).trans (range'_succ_of_next h.kept.nonzero next_eq).symm)
    · by_cases hid : id = w.state.nextStreamId
      · subst hid
        simp [StreamVault.created, m.sender_ne_zero]
      · rw [World.finish_state, hother id _ _ _ hid]
        refine h.created id h0 (Fin.lt_def.mpr ?_)
        have hlt' : id.val < w.state.nextStreamId.val + 1 := next_eq ▸ Fin.lt_def.mp hlt
        have hv : id.val ≠ w.state.nextStreamId.val := fun hv => hid (Fin.ext hv)
        omega
    · by_cases hid : id = w.state.nextStreamId
      · subst hid
        simp [StreamVault.created]
      · rw [World.finish_state, hother id _ _ _ hid]
        exact h.unsigned h0 id
    · have hsame := h.isolated p hp id hne hx
      rw [World.finish_state, hother id _ _ _ ?_, hsame]
      rintro rfl
      rw [← hsame, h.kept.unborn _ (.inr le_rfl)] at hx
      exact hx rfl
  | @cancel id accrued deadline sig unlocked checks covered unpaid spent =>
    obtain rfl := h.kept.entered_eq_one unlocked
    refine ⟨hk, ?_, fun j h0 hlt => ?_, h.owner, fun h0 => ?_, by simp⟩
    · exact (createdIds_append _ _).trans ((List.append_nil _).trans h.ids)
    · have hgrows := (h.kept.closes_grows
        (.cancel unlocked checks covered unpaid spent)).parties j (h.created j h0 hlt)
      rw [hgrows.1]
      exact h.created j h0 hlt
    · exact absurd h0 checks.authorized.signer_ne_zero

theorem opens {m : Msg ch} {s : StreamVault} {c : TokenCall} {k : Cont}
    (h : Ordered deployer pending w) (ho : Opens w m s c k) :
    Ordered deployer (some ⟨w, m, c, k⟩) (w.request c s) := by
  obtain ⟨rfl, hk⟩ := ho.kept h.kept
  obtain ⟨hlogs, howner, hsigner, hnext⟩ := ho.logs
  have hgrows := ho.grows
  refine ⟨hk, ?_, fun id h0 hlt => ?_, howner.trans h.owner, fun h0 id => ?_, ?_⟩
  · rw [World.request_state, hlogs, hnext]
    exact h.ids
  · have hx := h.created id h0 (hnext ▸ hlt)
    rw [(hgrows.parties id hx).1]
    exact hx
  · have hzero : w.state.teeSigner = 0 := hsigner.symm.trans h0
    obtain ⟨hw, hlive⟩ := h.unsigned hzero id
    rw [World.request_state, ho.streams]
    by_cases hid : id = k.streamId
    · subst hid
      rw [Function.update_self]
      cases ho.suspended with
      | fund checks written =>
        simp only [Cont.streamId] at hw hlive ⊢
        rw [written]
        exact ⟨hw, hlive⟩
      | withdraw checks => exact absurd hzero checks.authorized.signer_ne_zero
      | settle checks => exact absurd hzero checks.authorized.signer_ne_zero
      | refund checks => exact absurd hzero checks.authorized.signer_ne_zero
    · rw [Function.update_of_ne hid]
      exact ⟨hw, hlive⟩
  · rintro p ⟨⟩ id hne -
    rw [World.request_state, ho.streams, Function.update_of_ne hne]

end Ordered

theorem ordered_guarded (out : Outside TokenCall E) (deployer : Address) :
    Guarded (contract ch) out (fun _ _ => True) (@Ordered ch E deployer) where
  enter_done _ _ _ _ h _ hr := h.closes (enter_done hr)
  enter_call p w m s c k h _ hr := by
    have ho := enter_call hr
    exact ⟨(ho.kept h.kept).1, h.opens ho⟩
  resume_done p w ok e s h hsaved he hr := by
    have hk := (kept_guarded out).resume_done p w ok e s h.kept hsaved.kept he hr
    have hids := closed_ids hr
    obtain ⟨-, -, log, rfl⟩ := resume_done hr
    exact h.congr hk rfl rfl hids rfl id (by simp)
  resume_call p w ok e s c k h hsaved he hr := by
    have hk := (kept_guarded out).resume_call p w ok e s c k h.kept hsaved.kept he hr
    obtain ⟨-, rfl, id, refund, -, hcont, rfl, -⟩ := resume_call hr
    refine h.congr hk rfl rfl rfl rfl (fun h0 => h0) ?_
    rintro q ⟨⟩
    exact ⟨p, rfl, rfl, by rw [hcont]; rfl⟩
  drift p w e h he :=
    h.congr ((kept_guarded out).drift p w e h.kept he) rfl rfl rfl rfl id fun q hq =>
      ⟨q, hq, rfl, rfl⟩

/-! ## Single steps -/

/-- A call touches no stream but the one it names. -/
theorem enter_streams {w : VaultWorld ch E} {m : Msg ch} {id : Uint256} {r : Step}
    (hid : m.entry.names = some id) (hr : enter ch m w.state = .ok r) {j : Uint256} (hj : j ≠ id) :
    (w.after m r).state.streams j = w.state.streams j := by
  cases r with
  | done s =>
    cases enter_done hr with
    | signer entry => simp [entry, Entry.names] at hid
    | reveal => rfl
    | create entry => simp [entry, Entry.names] at hid
    | cancel unlocked checks =>
      rw [checks.entry] at hid
      obtain rfl := Option.some.inj hid
      exact Function.update_of_ne hj _ _
  | call s c k =>
    have ho := enter_call hr
    have hname : k.streamId = id := Option.some.inj (ho.suspended.names.symm.trans hid)
    change s.streams j = _
    rw [ho.streams, hname, Function.update_of_ne hj]

theorem resume_streams {w : VaultWorld ch E} {m : Msg ch} {k : Cont} {ok : Bool} {r : Step}
    (hr : resume ch k ok w.state = .ok r) :
    (w.after m r).state.streams = w.state.streams ∧
      (w.after m r).state.teeSigner = w.state.teeSigner := by
  cases r with
  | done s =>
    obtain ⟨-, -, log, rfl⟩ := resume_done hr
    exact ⟨rfl, rfl⟩
  | call s c k' =>
    obtain ⟨-, rfl, -⟩ := resume_call hr
    exact ⟨rfl, rfl⟩

/-- An operation on a stream that does not exist reverts. -/
theorem enter_error {w : VaultWorld ch E} {m : Msg ch} {id : Uint256}
    (hid : m.entry.names = some id) (hx : (w.state.streams id).employer = 0) :
    ∃ err, enter ch m w.state = .error err := by
  cases hr : enter ch m w.state with
  | error err => exact ⟨err, rfl⟩
  | ok r =>
    exfalso
    cases r with
    | done s =>
      cases enter_done hr with
      | signer entry => simp [entry, Entry.names] at hid
      | reveal entry created =>
        rw [entry] at hid
        obtain rfl := Option.some.inj hid
        exact created hx
      | create entry => simp [entry, Entry.names] at hid
      | cancel unlocked checks =>
        rw [checks.entry] at hid
        obtain rfl := Option.some.inj hid
        exact checks.live.1 hx
    | call s c k =>
      have ho := enter_call hr
      have hname : k.streamId = id := Option.some.inj (ho.suspended.names.symm.trans hid)
      exact ho.suspended.saved_live.1 (hname ▸ hx)

/-- The call carries an authorization for the stream, in the tag of its own kind. -/
def Carries (v : StreamVault) (m : Msg ch) (id : Uint256) : Prop :=
  ∃ accrued deadline sig,
    (m.entry = .withdraw id accrued deadline sig ∧
      Authorized ch v (withdrawTag ch.keccak256) m.timestamp id accrued deadline sig) ∨
    (m.entry = .cancelStream id accrued deadline sig ∧
      Authorized ch v (settleTag ch.keccak256) m.timestamp id accrued deadline sig)

/-- The stream has paid out more, or is over. -/
def Spends (w w' : VaultWorld ch E) (id : Uint256) : Prop :=
  (w.state.streams id).withdrawn < (w'.state.streams id).withdrawn ∨
    (w.state.streams id).cancelled = false ∧ (w'.state.streams id).cancelled = true

theorem Grows.not_spends {w w' : VaultWorld ch E} (h : Grows w' w) (id : Uint256) :
    ¬ Spends w w' id := by
  rintro (hlt | ⟨hlive, hdead⟩)
  · exact absurd hlt (not_lt.mpr (h.withdrawn id))
  · rw [← h.frozen id hdead, hlive] at hdead
    simp at hdead

theorem carries_of_spends {pending : Option (VaultPending ch E)} {w : VaultWorld ch E} {m : Msg ch}
    {r : Step} {id : Uint256} (hk : Kept pending w) (hr : enter ch m w.state = .ok r)
    (hs : Spends w (w.after m r) id) : Carries w.state m id := by
  have hsame : (w.after m r).state.streams id = w.state.streams id → Carries w.state m id := by
    intro heq
    rcases hs with hlt | ⟨hlive, hdead⟩
    · rw [heq] at hlt
      exact absurd hlt (lt_irrefl _)
    · rw [heq, hlive] at hdead
      simp at hdead
  cases r with
  | done s =>
    cases enter_done hr with
    | signer => exact hsame rfl
    | reveal => exact hsame rfl
    | create =>
      by_cases hid : id = w.state.nextStreamId
      · subst hid
        simp [Spends, World.after, StreamVault.created, hk.unborn _ (.inr le_rfl), Stream.zero] at hs
      · exact hsame (Function.update_of_ne hid _ _)
    | @cancel i accrued deadline sig unlocked checks =>
      by_cases hid : id = i
      · subst hid
        exact ⟨accrued, deadline, sig, .inr ⟨checks.entry, checks.authorized⟩⟩
      · exact hsame (Function.update_of_ne hid _ _)
  | call s c k =>
    have ho := enter_call hr
    by_cases hid : id = k.streamId
    · subst hid
      cases ho.suspended with
      | fund checks written =>
        simp only [Cont.streamId, Spends, World.after, World.request_state, written] at hs
        rcases hs with hlt | ⟨hlive, hdead⟩
        · exact absurd hlt (lt_irrefl _)
        · simp [hlive] at hdead
      | withdraw checks => exact ⟨_, _, _, .inl ⟨checks.entry, checks.authorized⟩⟩
      | settle checks => exact ⟨_, _, _, .inr ⟨checks.entry, checks.authorized⟩⟩
      | refund checks => exact ⟨_, _, _, .inr ⟨checks.entry, checks.authorized⟩⟩
    · refine hsame ?_
      change s.streams id = _
      rw [ho.streams, Function.update_of_ne hid]

/-- A call that returns has changed no older stream but the one it names, whatever ran inside
its token calls. -/
theorem isolated_of_returns {out : Outside TokenCall E} {deployer : Address}
    {c c' : VaultConfig ch E} {ev : Event (Msg ch) E} {w₀ : VaultWorld ch E} {m : Msg ch}
    {id : Uint256} (hc : Covers (Ordered deployer) c.world c.stack)
    (hs : step (contract ch) out c ev = some c')
    (hret : returns (contract ch) c ev = some (w₀, m)) (hid : m.entry.names = some id) {j : Uint256}
    (hj : j ≠ id) (hx : (w₀.state.streams j).employer ≠ 0) :
    c'.world.state.streams j = w₀.state.streams j := by
  obtain ⟨w, stack⟩ := c
  cases ev with
  | call m' =>
    simp only [returns] at hret
    split at hret
    next s hr =>
      obtain ⟨rfl, rfl⟩ := Prod.mk.inj (Option.some.inj hret)
      simp only [step, hr, Option.some.injEq] at hs
      subst hs
      exact enter_streams hid hr hj
    next => simp at hret
  | answer ok =>
    rcases stack with _ | ⟨f, rest⟩
    · simp [returns] at hret
    cases f with
    | foreign saved => simp [returns] at hret
    | pending p =>
      simp only [returns] at hret
      split at hret
      next s hr =>
        obtain ⟨rfl, rfl⟩ := Prod.mk.inj (Option.some.inj hret)
        simp only [step, hr, Option.map_eq_some_iff] at hs
        obtain ⟨e, -, rfl⟩ := hs
        have hname : p.cont.streamId = id :=
          Option.some.inj ((hc.1.kept.frame p rfl).names.symm.trans hid)
        have hsame : s.streams = w.state.streams := (resume_streams (m := p.msg) hr).1
        refine (congrFun hsame j).trans ?_
        exact hc.1.isolated p rfl j (hname ▸ hj) hx
      next => simp at hret
  | _ => simp [returns] at hret

/-- A step that spends is a call with an authorization in hand. -/
theorem carries_of_step {out : Outside TokenCall E} {c c' : VaultConfig ch E}
    {ev : Event (Msg ch) E} {id : Uint256} (hc : Covers (@Kept ch E) c.world c.stack)
    (hn : Nested Grows c.world c.stack) (hs : step (contract ch) out c ev = some c')
    (hspends : Spends c.world c'.world id) : ∃ m, ev = .call m ∧ Carries c.world.state m id := by
  have hworld := step_world hs
  generalize c'.world = w' at hworld hspends
  cases hworld with
  | @entered m r ran => exact ⟨m, rfl, carries_of_spends hc.head ran hspends⟩
  | @resumed p rest ok e r top ran =>
    have heq := (resume_streams (w := c.world.move e) (m := p.msg) ran).1
    simp [Spends, heq] at hspends
  | moved e => simp [Spends] at hspends
  | @restored _ f frame =>
    have hback : Grows f.saved c.world := hn.of_mem (fun _ _ _ h h' => h.trans h') frame
    exact absurd hspends (hback.not_spends id)

/-- Only the deployer changes the signer, unless a revert undoes a change. -/
theorem signer_of_step {out : Outside TokenCall E} {deployer : Address} {c c' : VaultConfig ch E}
    {ev : Event (Msg ch) E} (hc : Covers (Ordered deployer) c.world c.stack)
    (hs : step (contract ch) out c ev = some c')
    (hchanged : c'.world.state.teeSigner ≠ c.world.state.teeSigner) :
    (∃ m, ev = .call m ∧ m.entry = .setTeeSigner c'.world.state.teeSigner ∧
      m.sender = deployer ∧ c'.world.state.teeSigner ≠ 0) ∨
    ∃ f ∈ c.stack, c'.world = f.saved := by
  have hworld := step_world hs
  generalize c'.world = w' at hworld hchanged
  cases hworld with
  | @entered m r ran =>
    cases r with
    | done s =>
      cases enter_done ran with
      | signer entry sender nonzero =>
        exact .inl ⟨m, rfl, entry, sender.trans hc.head.owner, nonzero⟩
      | _ => exact absurd rfl hchanged
    | call s k => exact absurd (enter_call ran).logs.2.2.1 hchanged
  | @resumed p rest ok e r top ran =>
    exact absurd (resume_streams (w := c.world.move e) (m := p.msg) ran).2 hchanged
  | moved e => exact absurd rfl hchanged
  | restored frame => exact .inr ⟨_, frame, rfl⟩

theorem enter_refused {w : VaultWorld ch E} {m : Msg ch} {id accrued deadline : Uint256}
    {sig : Bytes} {tag : Bytes32}
    (he : m.entry = .withdraw id accrued deadline sig ∧ tag = withdrawTag ch.keccak256 ∨
      m.entry = .cancelStream id accrued deadline sig ∧ tag = settleTag ch.keccak256)
    (hno : sig.length ≠ 65 ∨ w.state.teeSigner = 0 ∨
      signerOf ch (authDigest ch tag id (w.state.streams id).commitment accrued deadline) sig ≠
        w.state.teeSigner) : ∃ err, enter ch m w.state = .error err := by
  cases hr : enter ch m w.state with
  | error err => exact ⟨err, rfl⟩
  | ok r =>
    exfalso
    have ha : Authorized ch w.state tag m.timestamp id accrued deadline sig := by
      unfold enter at hr
      rcases he with ⟨he, rfl⟩ | ⟨he, rfl⟩
      · simp only [he, withdraw_eq_ok] at hr
        exact hr.2.2.1
      · simp only [he, cancelStream_eq_ok] at hr
        exact hr.2.2.2.1
    rcases hno with hlen | hzero | hsigner
    · exact hlen ha.length
    · exact ha.signer_ne_zero hzero
    · exact hsigner ha.signer

/-! ## Every run -/

theorem ordered_constructor (deployer teeSigner : Address) (e : E) :
    Ordered deployer none (⟨.constructor deployer teeSigner, e, [], []⟩ : VaultWorld ch E) where
  kept := kept_constructor deployer teeSigner e
  ids := rfl
  created id h0 hlt := by
    refine absurd (Fin.ext ?_) h0
    have hlt' : id.val < 1 := Fin.lt_def.mp hlt
    simp only [Fin.val_zero]
    omega
  owner := rfl
  unsigned _ _ := ⟨rfl, rfl⟩
  isolated := by simp

/-- Life cycle and isolation of streams. -/
theorem life_cycle {out : Outside TokenCall E} {deployer teeSigner : Address} {e : E}
    {c : VaultConfig ch E} {events : List (Event (Msg ch) E)}
    (hrun : run (step (contract ch) out) (deployed ch deployer teeSigner e) events = some c) :
    (createdIds c.world.state.logs = List.range' 1 (c.world.state.nextStreamId.val - 1) ∧
      ∀ id, (c.world.state.streams id).employer ≠ 0 ↔ id.val ∈ createdIds c.world.state.logs) ∧
    (∀ later c', Stays (contract ch) out c later →
      run (step (contract ch) out) c later = some c' → Grows c.world c'.world) ∧
    (∀ m id r, m.entry.names = some id → enter ch m c.world.state = .ok r →
      ∀ j, j ≠ id → (c.world.after m r).state.streams j = c.world.state.streams j) ∧
    (∀ m k ok r, resume ch k ok c.world.state = .ok r →
      (c.world.after m r).state.streams = c.world.state.streams) ∧
    (∀ ev c' w₀ m id, step (contract ch) out c ev = some c' →
      returns (contract ch) c ev = some (w₀, m) → m.entry.names = some id →
      ∀ j, j ≠ id → (w₀.state.streams j).employer ≠ 0 →
        c'.world.state.streams j = w₀.state.streams j) ∧
    (∀ m id, m.entry.names = some id → id.val ∉ createdIds c.world.state.logs →
      ∃ err, enter ch m c.world.state = .error err) ∧
    (∀ ev c' id, step (contract ch) out c ev = some c' → Spends c.world c'.world id →
      ∃ m, ev = .call m ∧ Carries c.world.state m id) ∧
    (∀ m id accrued deadline sig tag,
      (m.entry = .withdraw id accrued deadline sig ∧ tag = withdrawTag ch.keccak256 ∨
        m.entry = .cancelStream id accrued deadline sig ∧ tag = settleTag ch.keccak256) →
      (sig.length ≠ 65 ∨ c.world.state.teeSigner = 0 ∨
        signerOf ch (authDigest ch tag id (c.world.state.streams id).commitment accrued deadline)
          sig ≠ c.world.state.teeSigner) →
      ∃ err, enter ch m c.world.state = .error err) ∧
    (∀ ev c', step (contract ch) out c ev = some c' →
      c'.world.state.teeSigner ≠ c.world.state.teeSigner →
      (∃ m, ev = .call m ∧ m.entry = .setTeeSigner c'.world.state.teeSigner ∧
        m.sender = deployer ∧ c'.world.state.teeSigner ≠ 0) ∨
      ∃ f ∈ c.stack, c'.world = f.saved) ∧
    (c.world.state.teeSigner = 0 → ∀ id, payouts c.world id = 0 ∧
      (c.world.state.streams id).withdrawn = 0 ∧
      (c.world.state.streams id).cancelled = false) := by
  have hordered : Covers (Ordered deployer) c.world c.stack :=
    covers_run (c := deployed ch deployer teeSigner e) (ordered_guarded out deployer)
      (ordered_constructor deployer teeSigner e) hrun
  have hkept : Covers Kept c.world c.stack := hordered.imp fun _ _ h => h.kept
  have hnested : Nested Grows c.world c.stack :=
    nested_run (c := deployed ch deployer teeSigner e) (kept_guarded out) (grows_advances out)
      (kept_constructor deployer teeSigner e) trivial hrun
  have hexists := hordered.head.exists_iff
  refine ⟨⟨hordered.head.ids, hexists⟩, ?_, fun m id r hid hr j hj => enter_streams hid hr hj,
    fun m k ok r hr => (resume_streams hr).1, ?_, ?_, ?_, ?_, ?_, ?_⟩
  · intro later c' hstays hlater
    exact (since_run (kept_guarded out) (grows_advances out) hkept hstays hlater).world
  · intro ev c' w₀ m id hs hret hid j hj hx
    exact isolated_of_returns hordered hs hret hid hj hx
  · intro m id hid hnew
    exact enter_error hid (not_not.mp fun hx => hnew ((hexists id).mp hx))
  · intro ev c' id hs hspends
    exact carries_of_step hkept hnested hs hspends
  · intro m id accrued deadline sig tag he hno
    exact enter_refused he hno
  · intro ev c' hs hchanged
    exact signer_of_step hordered hs hchanged
  · intro hzero id
    obtain ⟨hw, hlive⟩ := hordered.head.unsigned hzero id
    refine ⟨?_, hw, hlive⟩
    rw [hordered.head.kept.paid id, hw]
    rfl

open Reference in
theorem life_cycle_coston2 :
    ∃ c, run (step (contract coston2) compliant) (deployed coston2 employer teeSigner ())
        [.call createCall, .call createCall, .call fundCall, .answer true, .call withdrawCall] =
          some c ∧
      createdIds c.world.state.logs = [1, 2] ∧
      ∀ later c', Stays (contract coston2) compliant c later →
        run (step (contract coston2) compliant) c later = some c' →
        100 ≤ (c'.world.state.streams 1).withdrawn.val := by
  have hfinal : (run (step (contract coston2) compliant) (deployed coston2 employer teeSigner ())
      [.call createCall, .call createCall, .call fundCall, .answer true, .call withdrawCall]).any
      (fun c => createdIds c.world.state.logs = [1, 2] ∧
        (c.world.state.streams 1).withdrawn.val = 100) = true := by decide +kernel
  obtain ⟨c, hrun, hc⟩ := (Option.any_eq_true _ _).mp hfinal
  obtain ⟨hids, hw⟩ := of_decide_eq_true hc
  obtain ⟨-, hgrows, -⟩ := life_cycle hrun
  refine ⟨c, hrun, hids, fun later c' hstays hlater => ?_⟩
  have hle := Fin.le_def.mp ((hgrows later c' hstays hlater).withdrawn 1)
  omega

end StealthWage.Vault
