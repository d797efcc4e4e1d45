import StealthWage.VaultJournal
import StealthWage.ProtocolTerms
import StealthWage.Client

/-! # What the pages read

The pages read the record of a stream from storage. The sealed terms are only in the event of
`createStream`, and the explorer is asked for these: it may lag, and it lists what it has in the
order of the chain. -/
namespace StealthWage.Frontend
open Js Protocol Vault Words

/-! ## The record -/

structure OnChainStream where
  employer : JsString
  recipient : JsString
  token : JsString
  commitment : JsString
  funded : ℤ
  withdrawn : ℤ
  startTime : ℤ
  cancelled : Bool
  deriving DecidableEq

/-- 32 bytes as viem and the explorer print them. -/
def hexWord (w : Word) : JsString := bytesToHex (bigEndian 32 w.val)

def hexAddress (a : Address) : JsString := bytesToHex (bigEndian 20 a.val)

def readStream (V : Viem) (v : StreamVault) (streamId : Uint256) : OnChainStream :=
  let r := v.streams streamId
  { employer := V.checksumAddress r.employer
    recipient := V.checksumAddress r.recipient
    token := V.checksumAddress r.token
    commitment := hexWord r.commitment
    funded := r.funded.val
    withdrawn := r.withdrawn.val
    startTime := r.startTime.val
    cancelled := r.cancelled }

structure ExplorerLog where
  topics : List JsString
  data : JsString
  blockNumber : JsString

structure CreatedLog where
  streamId : ℤ
  employer : JsString
  recipient : JsString
  encryptedTerms : JsString
  blockNumber : Option ℤ

/-- The fourth value of the data is viem's to find; `none` is an exception, which is caught. -/
def decodeCreatedLog (encryptedTermsOf : JsString → Option JsString) (log : ExplorerLog) :
    Option CreatedLog := do
  let encryptedTerms ← encryptedTermsOf log.data
  let id ← log.topics[1]?
  let streamId ← bigint id
  let employer ← log.topics[2]?
  let recipient ← log.topics[3]?
  return ⟨streamId, js "0x" ++ employer.drop 26, js "0x" ++ recipient.drop 26, encryptedTerms,
    Client.parseInt16 log.blockNumber⟩

/-- The explorer takes further parameters and answers with a list, or the query fails. -/
abbrev Explorer := JsString → Option (List ExplorerLog)

section queries

variable (encryptedTermsOf : JsString → Option JsString) (explorer : Explorer)

def queryCreatedLogs (extraParams : JsString) : Option (List CreatedLog) :=
  (explorer extraParams).map (List.filterMap (decodeCreatedLog encryptedTermsOf))

def fetchEncryptedTerms (streamId : ℤ) : Option (Option JsString) :=
  (queryCreatedLogs encryptedTermsOf explorer []).map fun logs =>
    (logs.find? fun l => l.streamId = streamId).map CreatedLog.encryptedTerms

/-- `padStart(64, "0")` -/
def padStart64 (s : JsString) : JsString := List.replicate (64 - s.length) 48 ++ s

def recipientParams (topic : JsString) : JsString :=
  js "&topic3=" ++ topic ++ js "&topic0_3_opr=and"

def fetchStreamsForRecipient (C : CaseMap) (who : JsString) : Option (List CreatedLog) :=
  queryCreatedLogs encryptedTermsOf explorer
    (recipientParams (js "0x" ++ padStart64 ((C.toLowerCase who).drop 2)))

end queries

/-! ## Texts of words -/

theorem digitsValue_hexOf (b : Bytes) (acc : ℕ) :
    digitsValue 16 acc (hexOf b) = some (acc * 256 ^ b.length + value b) := by
  induction b generalizing acc with
  | nil => simp [hexOf, digitsValue, value]
  | cons x b ih =>
    have hhigh : x.val / 16 < 16 := by omega
    have hlow : x.val % 16 < 16 := by omega
    have hacc : 16 * (16 * acc + x.val / 16) + x.val % 16 = acc * 256 + x.val := by omega
    simp only [hexOf, List.flatMap_cons, List.cons_append, List.nil_append, digitsValue,
      hexDigit?_hexDigit, hhigh, hlow, if_true] at ih ⊢
    rw [ih, hacc, value, List.length_cons]
    congr 1
    ring

theorem isSpace_hexDigit (d : Fin 16) : isSpace (hexDigit d) = false := by
  revert d
  decide

theorem trim_of_ends {s t : JsString} {a b : CodeUnit} (ha : isSpace a = false)
    (hb : isSpace b = false) (h : a :: s = t ++ [b]) : trim (a :: s) = a :: s := by
  rw [trim, List.dropWhile_cons_of_neg (by simp [ha]), h, List.reverse_append,
    List.reverse_singleton, List.singleton_append, List.dropWhile_cons_of_neg (by simp [hb]),
    List.reverse_cons, List.reverse_reverse]

/-- `BigInt` of the hex of some bytes. -/
theorem bigint_bytesToHex {b : Bytes} (h : b ≠ []) : bigint (bytesToHex b) = some (value b : ℤ) := by
  obtain ⟨front, x, hb⟩ := (List.eq_nil_or_concat b).resolve_left h
  rw [List.concat_eq_append] at hb
  subst hb
  have hlast : bytesToHex (front ++ [x]) =
      (js "0x" ++ hexOf front ++ [hexDigit ⟨x.val / 16, by omega⟩]) ++
        [hexDigit ⟨x.val % 16, by omega⟩] := by
    simp [bytesToHex, hexOf]
  have hne : hexOf (front ++ [x]) ≠ [] := by
    intro hnil
    have hlength := hexOf_length (front ++ [x])
    rw [hnil] at hlength
    simp at hlength
  have htrim : trim (bytesToHex (front ++ [x])) = bytesToHex (front ++ [x]) :=
    trim_of_ends (by decide) (isSpace_hexDigit _) hlast
  have hshape : bytesToHex (front ++ [x]) = 48 :: 120 :: hexOf (front ++ [x]) := rfl
  rw [bigint, htrim, hshape]
  simp only [true_or, and_self, if_true]
  rw [digits1, if_neg hne, digitsValue_hexOf]
  simp

theorem bigint_hexWord (w : Word) : bigint (hexWord w) = some (w.val : ℤ) := by
  rw [hexWord, bigint_bytesToHex (List.ne_nil_of_length_pos (by simp)), value_bigEndian_word]

theorem bigEndian_add {n x : ℕ} (h : x < 256 ^ n) (m : ℕ) :
    bigEndian (m + n) x = List.replicate m 0 ++ bigEndian n x := by
  induction m with
  | zero => simp
  | succ m ih =>
    have hlt : x < 256 ^ (m + n) := h.trans_le (Nat.pow_le_pow_right (by decide) (by omega))
    rw [show m + 1 + n = m + n + 1 by omega, bigEndian, Nat.div_eq_of_lt hlt, ih]
    rfl

theorem hexWord_addressWord (a : Address) :
    hexWord (addressWord a) = js "0x" ++ (List.replicate 24 48 ++ hexOf (bigEndian 20 a.val)) := by
  have hlt : a.val < 256 ^ 20 := a.isLt.trans_le (by norm_num)
  have hsplit : bigEndian 32 (addressWord a).val = List.replicate 12 0 ++ bigEndian 20 a.val :=
    bigEndian_add hlt 12
  have hzeros : hexOf (List.replicate 12 0) = List.replicate 24 48 := by decide
  rw [hexWord, hsplit, bytesToHex, hexOf, List.flatMap_append, ← hzeros]
  rfl

/-- Hex text of our own making is in lower case. -/
theorem toLowerCase_bytesToHex (C : CaseMap) (b : Bytes) :
    C.toLowerCase (bytesToHex b) = bytesToHex b := by
  have hdigit : ∀ d : Fin 16, (hexDigit d).val < 128 := by decide
  have hascii : isAscii (bytesToHex b) := by
    intro u hu
    rcases List.mem_append.mp hu with hu | hu
    · have hprefix : (js "0x").all (·.val < 128) = true := by decide
      exact of_decide_eq_true (List.all_eq_true.mp hprefix u hu)
    · obtain ⟨x, -, hx⟩ := List.mem_flatMap.mp hu
      simp only [List.mem_cons, List.not_mem_nil, or_false] at hx
      obtain rfl | rfl := hx <;> exact hdigit _
  have hlower := lower_of_spelled (spelled_bytesToHex b)
  rw [C.ascii _ hascii, hlower, bigEndian_value]

theorem hexWord_injective : Function.Injective hexWord := by
  intro a b h
  exact bigEndian_injective (bytesToHex_injective h)

theorem addressWord_injective : Function.Injective addressWord := by
  intro a b h
  have hvalue := congrArg Fin.val h
  exact Fin.ext hvalue

/-- The last 40 digits of a topic. -/
theorem drop_hexWord (a : Address) :
    js "0x" ++ (hexWord (addressWord a)).drop 26 = hexAddress a := by
  rw [hexWord_addressWord]
  have hlength : (js "0x" ++ List.replicate 24 48).length = 26 := by decide
  rw [← List.append_assoc, List.drop_left' hlength]
  rfl

/-- What the query for an account is filtered by. -/
theorem recipient_topic {C : CaseMap} {who : JsString} {a : Address}
    (h : C.toLowerCase who = hexAddress a) :
    js "0x" ++ padStart64 ((C.toLowerCase who).drop 2) = hexWord (addressWord a) := by
  have hdrop : (hexAddress a).drop 2 = hexOf (bigEndian 20 a.val) := rfl
  have hlength : (hexOf (bigEndian 20 a.val)).length = 40 := by simp [hexOf_length]
  rw [h, hdrop, padStart64, hlength, hexWord_addressWord]

/-- The data of the event: a word for each value, where the bytes lie, and the bytes, filled up
to whole words. -/
def createdData (token : Address) (commitment : Bytes32) (startTime : Uint64) (blob : Bytes) :
    Bytes :=
  abiEncode [addressWord token, commitment, Fin.ofNat _ startTime.val, 128,
    Fin.ofNat _ blob.length] ++ blob ++ List.replicate ((32 - blob.length % 32) % 32) 0

def streamCreatedTopic : JsString :=
  js "0x53c8067c6ec448936f0de64df8f0359d0a324be1a35dcf3150a229bf13312a28"

/-- The entry is the explorer's for this event; how the block is numbered is left open. -/
def Shows (entry : ExplorerLog) : Log → Prop
  | .streamCreated streamId employer recipient token commitment startTime blob =>
    entry.topics = [streamCreatedTopic, hexWord streamId, hexWord (addressWord employer),
      hexWord (addressWord recipient)] ∧
    entry.data = bytesToHex (createdData token commitment startTime blob)
  | _ => False

def isCreated : Log → Bool
  | .streamCreated .. => true
  | _ => false

/-- The event is one of `createStream`, and its fourth topic is the one asked for. -/
def isCreatedFor (topic : JsString) : Log → Bool
  | .streamCreated _ _ recipient .. => hexWord (addressWord recipient) = topic
  | _ => false

/-- The answer has events of the kind asked for, in the order of the chain. -/
def Lists (answer : List ExplorerLog) (asked : Log → Bool) (logs : List Log) : Prop :=
  ∃ shown, shown.Sublist (logs.filter asked) ∧ List.Forall₂ Shows answer shown

/-- The answer has them all. -/
def ListsAll (answer : List ExplorerLog) (asked : Log → Bool) (logs : List Log) : Prop :=
  List.Forall₂ Shows answer (logs.filter asked)

theorem ListsAll.lists {answer : List ExplorerLog} {asked : Log → Bool} {logs : List Log}
    (h : ListsAll answer asked logs) : Lists answer asked logs :=
  ⟨_, List.Sublist.refl _, h⟩

/-- viem finds the bytes in the data of the event. -/
def DecodesCreated (encryptedTermsOf : JsString → Option JsString) : Prop :=
  ∀ token commitment startTime blob,
    encryptedTermsOf (bytesToHex (createdData token commitment startTime blob)) =
      some (bytesToHex blob)

/-- What has been decoded is in the event. -/
def Reads (l : CreatedLog) : Log → Prop
  | .streamCreated streamId employer recipient _ _ _ blob =>
    l.streamId = streamId.val ∧ l.employer = hexAddress employer ∧
      l.recipient = hexAddress recipient ∧ l.encryptedTerms = bytesToHex blob
  | _ => False

section reading

variable {encryptedTermsOf : JsString → Option JsString}

theorem decodeCreatedLog_shows (hf : DecodesCreated encryptedTermsOf) {entry : ExplorerLog}
    {log : Log} (h : Shows entry log) :
    ∃ l, decodeCreatedLog encryptedTermsOf entry = some l ∧ Reads l log := by
  cases log with
  | streamCreated id employer recipient token commitment startTime blob =>
    obtain ⟨htopics, hdata⟩ := h
    refine ⟨⟨id.val, hexAddress employer, hexAddress recipient, bytesToHex blob,
      Client.parseInt16 entry.blockNumber⟩, ?_, rfl, rfl, rfl, rfl⟩
    have hblob := hf token commitment startTime blob
    simp only [decodeCreatedLog, hdata, hblob, htopics, List.getElem?_cons_succ,
      List.getElem?_cons_zero, Option.bind_eq_bind, Option.bind_some, bigint_hexWord, drop_hexWord]
    rfl
  | _ => cases h

/-- An answer is decoded entry by entry. -/
theorem decoded (hf : DecodesCreated encryptedTermsOf) {answer : List ExplorerLog}
    {shown : List Log} (h : List.Forall₂ Shows answer shown) :
    List.Forall₂ Reads (answer.filterMap (decodeCreatedLog encryptedTermsOf)) shown := by
  induction h with
  | nil => exact .nil
  | cons hentry _ ih =>
    obtain ⟨l, hl, hreads⟩ := decodeCreatedLog_shows hf hentry
    rw [List.filterMap_cons_some hl]
    exact .cons hreads ih

theorem ids_read {ls : List CreatedLog} {shown : List Log} (h : List.Forall₂ Reads ls shown) :
    ls.map CreatedLog.streamId = (createdIds shown).map Nat.cast := by
  induction h with
  | nil => rfl
  | @cons l log ls shown hl _ ih =>
    cases log with
    | streamCreated =>
      rw [List.map_cons, ih, hl.1]
      rfl
    | _ => cases hl

end reading

/-- The first entry with the id, if one of the events has it. -/
theorem find_read {ls : List CreatedLog} {shown : List Log} (h : List.Forall₂ Reads ls shown)
    (id : Uint256) :
    (ls.find? (fun l => l.streamId = (id.val : ℤ)) = none ∧ id.val ∉ createdIds shown) ∨
    ∃ l employer recipient token commitment startTime blob,
      ls.find? (fun l => l.streamId = (id.val : ℤ)) = some l ∧
      .streamCreated id employer recipient token commitment startTime blob ∈ shown ∧
      l.encryptedTerms = bytesToHex blob := by
  induction h with
  | nil => exact .inl ⟨rfl, List.not_mem_nil⟩
  | @cons l log ls shown hl _ ih =>
    cases log with
    | streamCreated id' employer recipient token commitment startTime blob =>
      obtain ⟨hid, -, -, hblob⟩ := hl
      by_cases heq : id' = id
      · subst heq
        exact .inr ⟨l, employer, recipient, token, commitment, startTime, blob,
          List.find?_cons_of_pos (by simpa using hid), List.mem_cons_self, hblob⟩
      · have hne : l.streamId ≠ (id.val : ℤ) := by
          rw [hid]
          exact fun h => heq (Fin.ext (by exact_mod_cast h))
        have hvalue : id.val ≠ id'.val := fun h => heq (Fin.ext h.symm)
        rw [List.find?_cons_of_neg (by simpa using hne)]
        rcases ih with ⟨hnone, hout⟩ | ⟨l', e, r, k, c, s, b, hfind, hmem, hb⟩
        · refine .inl ⟨hnone, ?_⟩
          change id.val ∉ id'.val :: createdIds shown
          exact fun h => (List.mem_cons.mp h).elim hvalue hout
        · exact .inr ⟨l', e, r, k, c, s, b, hfind, List.mem_cons_of_mem _ hmem, hb⟩
    | _ => cases hl

/-! ## The events of a vault -/

variable {ch : Chain} {E : Type*} {w : VaultWorld ch E}

theorem mem_createdIds {logs : List Log} {id : Uint256} : id.val ∈ createdIds logs ↔
    ∃ employer recipient token commitment startTime blob,
      .streamCreated id employer recipient token commitment startTime blob ∈ logs := by
  rw [createdIds, List.mem_filterMap]
  constructor
  · rintro ⟨log, hlog, hid⟩
    cases log with
    | streamCreated id' =>
      obtain rfl := Fin.ext (Option.some.inj hid)
      exact ⟨_, _, _, _, _, _, hlog⟩
    | _ => cases hid
  · rintro ⟨_, _, _, _, _, _, hlog⟩
    exact ⟨_, hlog, rfl⟩

/-- A value that comes up once comes from one element. -/
theorem eq_of_nodup_filterMap {α β : Type*} {f : α → Option β} {l : List α}
    (h : (l.filterMap f).Nodup) {a b : α} (ha : a ∈ l) (hb : b ∈ l) {x : β} (hax : f a = some x)
    (hbx : f b = some x) : a = b := by
  induction l with
  | nil => cases ha
  | cons c l ih =>
    have hrest : ∀ {d}, d ∈ l → f d = some x → x ∈ l.filterMap f := fun hd hdx =>
      List.mem_filterMap.mpr ⟨_, hd, hdx⟩
    rcases List.mem_cons.mp ha with rfl | ha'
    · rcases List.mem_cons.mp hb with rfl | hb'
      · rfl
      · rw [List.filterMap_cons_some hax] at h
        exact absurd (hrest hb' hbx) (List.nodup_cons.mp h).1
    · rcases List.mem_cons.mp hb with rfl | hb'
      · rw [List.filterMap_cons_some hbx] at h
        exact absurd (hrest ha' hax) (List.nodup_cons.mp h).1
      · refine ih ?_ ha' hb'
        exact h.sublist ((List.sublist_cons_self c l).filterMap f)

/-- A stream is created once. -/
theorem created_unique (hw : Reached w) {id : Uint256} {employer employer' recipient recipient' token
    token' : Address} {commitment commitment' : Bytes32} {start start' : Uint64} {blob blob' : Bytes}
    (h : .streamCreated id employer recipient token commitment start blob ∈ w.state.logs)
    (h' : .streamCreated id employer' recipient' token' commitment' start' blob' ∈ w.state.logs) :
    Log.streamCreated id employer recipient token commitment start blob =
      .streamCreated id employer' recipient' token' commitment' start' blob' := by
  obtain ⟨deployer, hordered⟩ := hw.ordered
  have hnodup : (createdIds w.state.logs).Nodup := by
    rw [hordered.ids]
    exact List.nodup_range'
  unfold createdIds at hnodup
  exact eq_of_nodup_filterMap hnodup h h' rfl rfl

theorem createdIds_filter_isCreated (logs : List Log) :
    createdIds (logs.filter isCreated) = createdIds logs := by
  induction logs with
  | nil => rfl
  | cons log logs ih =>
    cases log with
    | streamCreated => exact congrArg (List.cons _) ih
    | _ => exact ih

section fetching

variable {encryptedTermsOf : JsString → Option JsString} {explorer : Explorer}
  {answer : List ExplorerLog}

/-- The query finds nothing, or the bytes in the event. -/
theorem fetch_cases (hf : DecodesCreated encryptedTermsOf) (hanswer : explorer [] = some answer)
    (hlists : Lists answer isCreated w.state.logs) (id : Uint256) :
    (fetchEncryptedTerms encryptedTermsOf explorer id.val = some none ∧
      (ListsAll answer isCreated w.state.logs → id.val ∉ createdIds w.state.logs)) ∨
    ∃ employer recipient token commitment startTime blob,
      .streamCreated id employer recipient token commitment startTime blob ∈ w.state.logs ∧
      fetchEncryptedTerms encryptedTermsOf explorer id.val = some (some (bytesToHex blob)) := by
  have hfetch : fetchEncryptedTerms encryptedTermsOf explorer id.val =
      some (((answer.filterMap (decodeCreatedLog encryptedTermsOf)).find?
        fun l => l.streamId = (id.val : ℤ)).map CreatedLog.encryptedTerms) := by
    rw [fetchEncryptedTerms, queryCreatedLogs, hanswer]
    rfl
  obtain ⟨shown, hsub, hshown⟩ := hlists
  rw [hfetch]
  rcases find_read (decoded hf hshown) id with ⟨hnone, -⟩ | ⟨l, e, r, k, c, s, b, hl, hmem, hb⟩
  · refine .inl ⟨by rw [hnone]; rfl, fun hall => ?_⟩
    rw [← createdIds_filter_isCreated]
    rcases find_read (decoded hf hall) id with ⟨-, h⟩ | ⟨l, _, _, _, _, _, _, hl, -⟩
    · exact h
    · rw [hnone] at hl
      cases hl
  · refine .inr ⟨e, r, k, c, s, b, List.mem_of_mem_filter (hsub.subset hmem), ?_⟩
    rw [hl, Option.map_some, hb]

theorem fetch_of_created (hw : Reached w) (hf : DecodesCreated encryptedTermsOf)
    (hanswer : explorer [] = some answer) (hlists : Lists answer isCreated w.state.logs)
    {id : Uint256} {employer recipient token : Address} {commitment : Bytes32} {startTime : Uint64}
    {blob : Bytes}
    (hlog : .streamCreated id employer recipient token commitment startTime blob ∈ w.state.logs) :
    (fetchEncryptedTerms encryptedTermsOf explorer id.val = some none ∧
      ¬ ListsAll answer isCreated w.state.logs) ∨
    fetchEncryptedTerms encryptedTermsOf explorer id.val = some (some (bytesToHex blob)) := by
  rcases fetch_cases hf hanswer hlists id with ⟨hnone, hout⟩ | ⟨e, r, k, c, s, b, hlog', hfound⟩
  · exact .inl ⟨hnone, fun hall => hout hall (mem_createdIds.mpr ⟨_, _, _, _, _, _, hlog⟩)⟩
  · have hsame := created_unique hw hlog hlog'
    simp only [Log.streamCreated.injEq] at hsame
    obtain ⟨-, -, -, -, -, -, rfl⟩ := hsame
    exact .inr hfound

/-- The sealed terms of a stream are the ones it was created with, or the explorer does not have
them yet. -/
theorem sealed_terms_found (hw : Reached w) (hf : DecodesCreated encryptedTermsOf)
    (hanswer : explorer [] = some answer) (hlists : Lists answer isCreated w.state.logs)
    (id : Uint256) :
    ∃ found, fetchEncryptedTerms encryptedTermsOf explorer id.val = some found ∧
      (∀ employer recipient token commitment startTime blob,
        .streamCreated id employer recipient token commitment startTime blob ∈ w.state.logs →
        found = none ∨ found = some (bytesToHex blob)) ∧
      ((w.state.streams id).employer = 0 → found = none) ∧
      (ListsAll answer isCreated w.state.logs →
        (found = none ↔ (w.state.streams id).employer = 0)) := by
  obtain ⟨deployer, hordered⟩ := hw.ordered
  rcases fetch_cases hf hanswer hlists id with ⟨hnone, hout⟩ | ⟨e, r, k, c, s, b, hlog, hfound⟩
  · refine ⟨none, hnone, fun _ _ _ _ _ _ _ => .inl rfl, fun _ => rfl, fun hall => ?_⟩
    have hnew : ¬ (w.state.streams id).employer ≠ 0 := fun hx =>
      hout hall ((hordered.exists_iff id).mp hx)
    exact ⟨fun _ => not_not.mp hnew, fun _ => rfl⟩
  · have hexists : (w.state.streams id).employer ≠ 0 :=
      (hordered.exists_iff id).mpr (mem_createdIds.mpr ⟨e, r, k, c, s, b, hlog⟩)
    refine ⟨some (bytesToHex b), hfound, fun e' r' k' c' s' b' hlog' => .inr ?_,
      fun h => absurd h hexists, fun _ => by simp [hexists]⟩
    rcases fetch_of_created hw hf hanswer hlists hlog' with ⟨hnone, -⟩ | hfound'
    · rw [hfound] at hnone
      cases hnone
    · exact Option.some.inj (hfound.symm.trans hfound')

end fetching

theorem createdIds_sublist {logs more : List Log} (h : logs.Sublist more) :
    (createdIds logs).Sublist (createdIds more) := h.filterMap _

/-- The recipient in an event is the one on the record. -/
theorem createdIds_filter_isCreatedFor {v : StreamVault} {logs : List Log}
    (h : ∀ log ∈ logs, Describes ch v log) (who : Address) :
    createdIds (logs.filter (isCreatedFor (hexWord (addressWord who)))) =
      (createdIds logs).filter fun i => (v.streams (Fin.ofNat _ i)).recipient = who := by
  induction logs with
  | nil => rfl
  | cons log logs ih =>
    have hrest := ih fun l hl => h l (List.mem_cons_of_mem _ hl)
    cases log with
    | streamCreated id employer recipient token commitment startTime blob =>
      obtain ⟨-, -, hrecipient, -⟩ := h _ List.mem_cons_self
      have hself : (Fin.ofNat (2 ^ 256) id.val : Uint256) = id :=
        Fin.ext (Nat.mod_eq_of_lt id.isLt)
      change _ = (id.val :: createdIds logs).filter _
      by_cases hwho : recipient = who
      · rw [List.filter_cons_of_pos (by simp [isCreatedFor, hwho]),
          List.filter_cons_of_pos (by simp [hrecipient, hwho]), ← hrest]
        rfl
      · have hword : hexWord (addressWord recipient) ≠ hexWord (addressWord who) := fun heq =>
          hwho (addressWord_injective (hexWord_injective heq))
        rw [List.filter_cons_of_neg (by simp [isCreatedFor, hword]),
          List.filter_cons_of_neg (by simp [hrecipient, hwho]), hrest]
    | _ => exact hrest

theorem exists_of_reads {ls : List CreatedLog} {shown : List Log}
    (h : List.Forall₂ Reads ls shown) {l : CreatedLog} (hl : l ∈ ls) :
    ∃ log ∈ shown, Reads l log := by
  induction h with
  | nil => cases hl
  | cons hread _ ih =>
    rcases List.mem_cons.mp hl with rfl | hl
    · exact ⟨_, List.mem_cons_self, hread⟩
    · obtain ⟨log, hlog, hreads⟩ := ih hl
      exact ⟨log, List.mem_cons_of_mem _ hlog, hreads⟩

/-- The streams of a recipient are listed in the order of their ids, each with what is on record
and the sealed terms it was created with; the ones that are missing the explorer does not have. -/
theorem streams_found (hw : Reached w) {encryptedTermsOf : JsString → Option JsString}
    (hf : DecodesCreated encryptedTermsOf) {explorer : Explorer} {C : CaseMap} {who : JsString}
    {a : Address} (hwho : C.toLowerCase who = hexAddress a) {answer : List ExplorerLog}
    (hanswer : explorer (recipientParams (hexWord (addressWord a))) = some answer)
    (hlists : Lists answer (isCreatedFor (hexWord (addressWord a))) w.state.logs) :
    ∃ ls, fetchStreamsForRecipient encryptedTermsOf explorer C who = some ls ∧
      (ls.map CreatedLog.streamId).Pairwise (· < ·) ∧
      (∀ l ∈ ls, ∃ (id : Uint256) (token : Address) (commitment : Bytes32) (startTime : Uint64)
        (blob : Bytes),
        .streamCreated id (w.state.streams id).employer a token commitment startTime blob ∈
          w.state.logs ∧ (w.state.streams id).recipient = a ∧ l.streamId = id.val ∧
        l.employer = hexAddress (w.state.streams id).employer ∧ l.recipient = hexAddress a ∧
        l.encryptedTerms = bytesToHex blob) ∧
      (ListsAll answer (isCreatedFor (hexWord (addressWord a))) w.state.logs →
        ls.map CreatedLog.streamId =
          ((List.range' 1 (w.state.nextStreamId.val - 1)).filter fun i =>
            (w.state.streams (Fin.ofNat _ i)).recipient = a).map Nat.cast) := by
  obtain ⟨deployer, hordered⟩ := hw.ordered
  obtain ⟨shown, hsub, hshown⟩ := hlists
  have hreads := decoded hf hshown
  have hfetch : fetchStreamsForRecipient encryptedTermsOf explorer C who =
      some (answer.filterMap (decodeCreatedLog encryptedTermsOf)) := by
    rw [fetchStreamsForRecipient, queryCreatedLogs, recipient_topic hwho, hanswer]
    rfl
  refine ⟨_, hfetch, ?_, ?_, ?_⟩
  · rw [ids_read hreads, List.pairwise_map]
    have hsorted : (createdIds w.state.logs).Pairwise (· < ·) := by
      rw [hordered.ids]
      exact List.pairwise_lt_range'
    have hless := hsorted.sublist (createdIds_sublist (hsub.trans List.filter_sublist))
    exact hless.imp fun h => by exact_mod_cast h
  · intro l hl
    obtain ⟨log, hlog, hl⟩ := exists_of_reads hreads hl
    obtain ⟨hmem, hasked⟩ := List.mem_filter.mp (hsub.subset hlog)
    cases log with
    | streamCreated id employer recipient token commitment startTime blob =>
      obtain ⟨hid, hemployer, hrecipient, hblob⟩ := hl
      obtain ⟨-, he, hr, -⟩ := hw.announced _ hmem
      obtain rfl : recipient = a :=
        addressWord_injective (hexWord_injective (of_decide_eq_true hasked))
      exact ⟨id, token, commitment, startTime, blob, he ▸ hmem, hr, hid, he ▸ hemployer, hrecipient,
        hblob⟩
    | _ => cases hl
  · intro hall
    rw [ids_read (decoded hf hall), createdIds_filter_isCreatedFor hw.announced, hordered.ids]

/-! ## One event -/

/-- The bytes of the event: their number modulo 32 says how much has been filled up. -/
def blobOf (data : JsString) : Option JsString :=
  match hexToBytes data with
  | .ok b => some (bytesToHex ((b.drop 160).take
      (b.length - 160 - (32 - (wordAt b 4).val % 32) % 32)))
  | .error _ => none

theorem decodesCreated_blobOf : DecodesCreated blobOf := by
  intro token commitment startTime blob
  let ws : List Word := [addressWord token, commitment, Fin.ofNat _ startTime.val, 128,
    Fin.ofNat _ blob.length]
  let pad : Bytes := List.replicate ((32 - blob.length % 32) % 32) 0
  have hdata : createdData token commitment startTime blob = abiEncode ws ++ (blob ++ pad) :=
    List.append_assoc ..
  have hlength : (abiEncode ws).length = 160 := by simp [ws]
  have hword : wordAt (createdData token commitment startTime blob) 4 =
      Fin.ofNat _ blob.length := by
    simp only [hdata, ws, abiEncode_cons, abiEncode_nil, List.append_assoc, wordAt_cons_succ,
      wordAt_cons_zero, List.nil_append]
  have hmod : (Fin.ofNat (2 ^ 256) blob.length).val % 32 = blob.length % 32 :=
    Nat.mod_mod_of_dvd _ (by decide)
  have htake : (createdData token commitment startTime blob).length - 160 -
      (32 - blob.length % 32) % 32 = blob.length := by
    rw [hdata, List.length_append, hlength, List.length_append, List.length_replicate]
    omega
  rw [blobOf, hexToBytes_bytesToHex]
  simp only [hword, hmod, htake]
  rw [hdata, List.drop_left' hlength, List.take_left]

section coston2

open Reference

def shownEntry : ExplorerLog :=
  ⟨[streamCreatedTopic, hexWord 1, hexWord (addressWord employer), hexWord (addressWord recipient)],
    bytesToHex (createdData token commitment 1000 ciphertext), js "0x384"⟩

def explorer : Explorer := fun extraParams =>
  if extraParams = [] ∨ extraParams = recipientParams (hexWord (addressWord recipient)) then
    some [shownEntry]
  else some []

theorem created_coston2 : ∃ w : VaultWorld coston2 Unit, Reached w ∧
    w.state.logs = [.streamCreated 1 employer recipient token commitment 1000 ciphertext] ∧
    (w.state.streams 1).employer = employer ∧ (w.state.streams 1).commitment = commitment := by
  have hfinal : (Runs.run (CallStack.step (contract coston2) compliant)
      (deployed coston2 employer teeSigner ()) [.call createCall]).any
      (fun c => c.stack.isEmpty ∧
        c.world.state.logs = [.streamCreated 1 employer recipient token commitment 1000 ciphertext] ∧
        (c.world.state.streams 1).employer = employer ∧
        (c.world.state.streams 1).commitment = commitment) = true := by decide +kernel
  obtain ⟨⟨w, stack⟩, hrun, hc⟩ := (Option.any_eq_true _ _).mp hfinal
  obtain ⟨hstack, hlogs, hemployer, hcommitment⟩ := of_decide_eq_true hc
  obtain rfl := List.isEmpty_iff.mp hstack
  exact ⟨w, ⟨compliant, employer, teeSigner, (), _, hrun⟩, hlogs, hemployer, hcommitment⟩

theorem sealed_terms_found_coston2 :
    fetchEncryptedTerms blobOf explorer 1 = some (some (bytesToHex ciphertext)) := by
  obtain ⟨w, hw, hlogs, hemployer, -⟩ := created_coston2
  have hall : ListsAll [shownEntry] isCreated w.state.logs := by
    rw [hlogs]
    exact .cons ⟨rfl, rfl⟩ .nil
  obtain ⟨found, hfound, hsealed, -, hnone⟩ :=
    sealed_terms_found hw decodesCreated_blobOf (show explorer _ = _ from rfl) hall.lists 1
  rcases hsealed employer recipient token commitment 1000 ciphertext (by simp [hlogs]) with h | h
  · have hzero := (hnone hall).mp h
    rw [hemployer] at hzero
    exact absurd hzero (by decide)
  · exact hfound.trans (congrArg some h)

theorem streams_found_coston2 :
    ∃ ls, fetchStreamsForRecipient blobOf explorer caseMap (hexAddress recipient) = some ls ∧
      ∀ l ∈ ls, l.employer = hexAddress employer ∧ l.encryptedTerms = bytesToHex ciphertext := by
  obtain ⟨w, hw, hlogs, hemployer, -⟩ := created_coston2
  have hall : ListsAll [shownEntry] (isCreatedFor (hexWord (addressWord recipient)))
      w.state.logs := by
    rw [hlogs]
    exact .cons ⟨rfl, rfl⟩ .nil
  obtain ⟨ls, hls, -, hread, -⟩ := streams_found hw decodesCreated_blobOf
    (toLowerCase_bytesToHex caseMap _) (show explorer _ = _ from rfl) hall.lists
  refine ⟨ls, hls, fun l hl => ?_⟩
  obtain ⟨id, token, commitment, startTime, blob, hlog, -, -, he, -, hb⟩ := hread l hl
  rw [hlogs, List.mem_singleton] at hlog
  obtain ⟨rfl, hemp, -, -, -, -, rfl⟩ := Log.streamCreated.inj hlog
  exact ⟨he.trans (congrArg hexAddress hemp), hb⟩

end coston2

end StealthWage.Frontend
