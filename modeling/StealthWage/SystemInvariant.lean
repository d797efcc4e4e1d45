import StealthWage.System

/-! # The invariant of the system

The log of the enclave backs every figure that the vault has stored, in whatever order
requests, transactions and replays arrive. -/
namespace StealthWage.System
open CallStack Enclave Js Protocol Runs Vault Words

variable {ch : Chain} {E : Type*} {R : Runtime}

/-- The log is sound, and it backs the stream in every world on the call stack. -/
structure Sound (R : Runtime) (H : Set Bytes) (ok : Signing → Msg ch → Prop) (id : Uint256)
    (s : State ch E) : Prop where
  issued : ∀ e ∈ s.enclave.signed, Issued R H e
  backed : Covers (fun pending w => Kept pending w ∧
    Backed (Grant R s.enclave.signed ok id) id (w.state.streams id) (effective pending w))
    s.vault.world s.vault.stack

/-- `ok` holds between a call and everything signed before it. -/
def Admitted (ok : Signing → Msg ch → Prop) (s : State ch E) (move : Move ch E) : Prop :=
  ∀ m, move = .chain (.call m) → ∀ e ∈ s.enclave.signed, ok e m

theorem admitted_iff {ok : Signing → Msg ch → Prop} {s : State ch E} {move : Move ch E} :
    Admitted ok s move ↔ ∀ m ∈ move.called, ∀ e ∈ s.enclave.signed, ok e m := by
  constructor
  · exact fun h m hm => h m (Move.called_eq_some.mp hm)
  · exact fun h m hm => h m (Move.called_eq_some.mpr hm)

instance {ok : Signing → Msg ch → Prop} [∀ e m, Decidable (ok e m)] {s : State ch E}
    {move : Move ch E} : Decidable (Admitted ok s move) :=
  decidable_of_iff' _ admitted_iff

theorem vouched (hV : R.viem.Lawful) (hk : R.viem.keccak256 = ch.keccak256) {signer : Address}
    {H : Set Bytes} (hH : Set.InjOn ch.keccak256 H) {ok : Signing → Msg ch → Prop}
    {s : State ch E} {m : Msg ch} (hlog : ∀ e ∈ s.enclave.signed, Issued R H e)
    (ht : Trusted R signer H s (.chain (.call m))) (hok : Admitted ok s (.chain (.call m)))
    (id : Uint256) : Vouched (Grant R s.enclave.signed ok id) id s.vault.world m where
  withdraw accrued deadline sig hc := by
    have hp : presented s.vault.world.state m = some (authPreimage ch
        (Vault.withdrawTag ch.keccak256) id (s.vault.world.state.streams id).commitment accrued
        deadline, sig) := by simp only [presented, hc.entry]
    obtain ⟨e, he, hconcerns, ha, hd⟩ := exists_grant hV hk hH hlog ht hp
      (hc.authorized.signer.trans ht.key)
    exact ⟨e, he, hconcerns, ha, hd, hok m rfl e he⟩
  cancel accrued deadline sig hc := by
    have hp : presented s.vault.world.state m = some (authPreimage ch
        (Vault.settleTag ch.keccak256) id (s.vault.world.state.streams id).commitment accrued
        deadline, sig) := by simp only [presented, hc.entry]
    obtain ⟨e, he, hconcerns, ha, hd⟩ := exists_grant hV hk hH hlog ht hp
      (hc.authorized.signer.trans ht.key)
    exact ⟨e, he, hconcerns, ha, hd, hok m rfl e he⟩
  lift := by
    rintro c a d m' ⟨e, he, hconcerns, ha, hd, -⟩
    exact ⟨e, he, hconcerns, ha, hd, hok m rfl e he⟩

theorem Grant.mono {signed signed' : List Signing} {ok : Signing → Msg ch → Prop} {id : Uint256}
    (h : ∀ e ∈ signed, e ∈ signed') {c : Bytes32} {a d : Uint256} {m : Msg ch}
    (hg : Grant R signed ok id c a d m) : Grant R signed' ok id c a d m := by
  obtain ⟨e, he, hrest⟩ := hg
  exact ⟨e, h e he, hrest⟩

/-- One move keeps the log sound and the stream backed. -/
theorem sound_step (hV : R.viem.Lawful) (hk : R.viem.keccak256 = ch.keccak256)
    {signer : Address} {H : Set Bytes} (hH : Set.InjOn ch.keccak256 H)
    {ok : Signing → Msg ch → Prop} {out : Outside TokenCall E} {id : Uint256} {s s' : State ch E}
    {move : Move ch E} (h : Sound R H ok id s) (ht : Trusted R signer H s move)
    (hok : Admitted ok s move) (hs : step R out s move = some s') : Sound R H ok id s' := by
  cases move with
  | chain ev =>
    obtain ⟨v, hv, rfl⟩ := Option.map_eq_some_iff.mp hs
    refine ⟨h.issued, covers_step (backed_guarded out _ id) h.backed ?_ hv⟩
    rintro m rfl
    exact vouched hV hk hH h.issued ht hok id
  | request q =>
    obtain rfl := Option.some.inj hs
    refine ⟨issued_respond h.issued ht.hashed, h.backed.imp ?_⟩
    rintro pending w ⟨hkept, hbacked⟩
    exact ⟨hkept, hbacked.imp fun _ _ _ _ => Grant.mono (signed_grows s.enclave q)⟩

theorem sound_run (hV : R.viem.Lawful) (hk : R.viem.keccak256 = ch.keccak256)
    {sender signer : Address} {H : Set Bytes} (hH : Set.InjOn ch.keccak256 H)
    {ok : Signing → Msg ch → Prop} {out : Outside TokenCall E} {e : E} {s : State ch E}
    {moves : List (Move ch E)}
    (ht : Along (step R out) (Trusted R signer H) (launched ch sender signer e) moves)
    (hok : Along (step R out) (Admitted ok) (launched ch sender signer e) moves)
    (hrun : run (step R out) (launched ch sender signer e) moves = some s) (id : Uint256) :
    Sound R H ok id s := by
  have hstart : Sound R H ok id (launched ch sender signer e) :=
    ⟨by simp [launched], backed_constructor _ id sender signer e⟩
  exact invariant_along (fun s move s' hP hQ hs => sound_step hV hk hH hP hQ.1 hQ.2 hs) hstart
    (ht.and hok) hrun

/-! ## The terms behind an authorization -/

/-- An authorization for a commitment was signed for the blob behind it. -/
theorem terms_of_concerns (hk : R.viem.keccak256 = ch.keccak256) {H : Set Bytes}
    (hH : Set.InjOn ch.keccak256 H) {e : Signing} (he : Issued R H e) {id : Uint256} {b : Bytes}
    (hb : b ∈ H) (hc : Concerns ch R.caseMap id (ch.keccak256 b) e) : e.terms = b := by
  have hblob : e.terms ∈ H := he.hashed _ List.mem_cons_self
  have htext := bytesToHex_injective (he.commitment.symm.trans hc.commitment)
  have hvalue := congrArg value htext
  rw [value_bigEndian_word, value_bigEndian_word, hk] at hvalue
  exact hH hblob hb (Fin.ext hvalue)

theorem accrued_of_concerns (hV : R.viem.Lawful) (hk : R.viem.keccak256 = ch.keccak256)
    {H : Set Bytes} (hH : Set.InjOn ch.keccak256 H) {e : Signing} (he : Issued R H e)
    {id : Uint256} {b : Bytes} (hb : b ∈ H) {t : StreamTerms}
    (ht : encodeTerms R.viem t = some b)
    (hc : Concerns ch R.caseMap id (ch.keccak256 b) e) :
    e.params.cumulativeAccrued = accruedAt t e.clock := by
  obtain ⟨t', ht', haccrued⟩ := he.terms
  rw [terms_of_concerns hk hH he hb hc] at ht'
  rw [haccrued, accruedAt_encoded hV ht ht']

end StealthWage.System
