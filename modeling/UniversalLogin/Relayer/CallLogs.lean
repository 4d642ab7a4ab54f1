import UniversalLogin.Lib.Interleaving
import UniversalLogin.Relayer.PendingMessages

/-!
# What a call is answered

The functions of `PendingMessages` once more, now as calls that are interleaved with others: for
each function a rule says what its log looks like when it has returned. The rules leave open which
answers are possible, what is said of the operations awaited and what of a failure, as long as
reading is always allowed and a call may fail when a read is rejected.
-/

namespace UniversalLogin

open Async

abbrev Log := List (Answered Query Query.Answer JsError)

/-- A call of a service of the relayer. -/
abbrev ServiceCall (α : Type) := Async.Call Query Query.Answer JsError α

/-- The query is answered with a value. -/
abbrev told (q : Query) (a : q.Answer) : Answered Query Query.Answer JsError := ⟨q, .ok a⟩

abbrev rejected (q : Query) (e : JsError) : Answered Query Query.Answer JsError := ⟨q, .error e⟩

/-- The query changes a table. -/
def Query.writes : Query → Bool
  | insertMessage _ | updateMessage _ _ | deleteMessage _ | insertSignatureKeyPair _
  | deleteSignatureKeyPairs _ | insertFinalMessage _ _ | updateFinalMessage _ _
  | deleteAuthorisation _ _ => true
  | _ => false

theorem Query.Effect.eq_of_not_writes {q : Query} {a : q.Answer} (h : q.Effect wallets db a db')
    (hq : q.writes = false) : db' = db := by
  cases q with
  | insertMessage _ | updateMessage _ _ | deleteMessage _ | insertSignatureKeyPair _
  | deleteSignatureKeyPairs _ | insertFinalMessage _ _ | updateFinalMessage _ _
  | deleteAuthorisation _ _ => cases hq
  | selectMessage _ | selectSignatureKeyPairs _ | selectSignature _ _ | selectFinalMessage _
  | requiredSignatures _ | getKeyPurpose _ _ => exact h.2
  | selectNextFinalMessage | sendTransaction _ => exact h.2.2
  | getCode _ | getBalance _ | balanceOf _ _ | estimateGas _ _ | waitForTransaction _ => exact h

/-! ## What the tables keep -/

/-- The query takes rows away. -/
def Query.deletes : Query → Bool
  | deleteMessage _ | deleteSignatureKeyPairs _ => true
  | _ => false

/-- Rows are only added, and those that are there keep what is not updated. -/
structure Database.Grows (db db' : Database) : Prop where
  messages : ∀ row ∈ db.messages, ∃ row' ∈ db'.messages,
    row'.messageHash = row.messageHash ∧ row'.walletAddress = row.walletAddress
  signatureKeyPairs : db.signatureKeyPairs <+: db'.signatureKeyPairs
  finalMessages : db.finalMessages.map (fun r => (r.messageHash, r.message)) <+:
    db'.finalMessages.map fun r => (r.messageHash, r.message)

namespace Database.Grows

theorem refl (db : Database) : db.Grows db :=
  ⟨fun row hrow => ⟨row, hrow, rfl, rfl⟩, List.prefix_rfl, List.prefix_rfl⟩

theorem trans (h : Grows db db') (h' : Grows db' db'') : Grows db db'' := by
  refine ⟨fun row hrow => ?_, h.signatureKeyPairs.trans h'.signatureKeyPairs,
    h.finalMessages.trans h'.finalMessages⟩
  obtain ⟨row', hrow', hhash, hwallet⟩ := h.messages row hrow
  obtain ⟨row'', hrow'', hhash', hwallet'⟩ := h'.messages row' hrow'
  exact ⟨row'', hrow'', hhash'.trans hhash, hwallet'.trans hwallet⟩

theorem collected (h : Grows db db') (messageHash : Bytes32) :
    db.collected messageHash <+: db'.collected messageHash :=
  (h.signatureKeyPairs.filter _).map _

end Database.Grows

theorem Query.Effect.grows {q : Query} {a : q.Answer} (h : q.Effect wallets db a db')
    (hq : q.deletes = false) : db.Grows db' := by
  have hrefl := Database.Grows.refl db
  cases q with
  | deleteMessage _ | deleteSignatureKeyPairs _ => cases hq
  | insertMessage row =>
    obtain ⟨_, rfl⟩ := h
    refine ⟨fun row hrow => ⟨row, List.mem_append_left _ hrow, rfl, rfl⟩, ?_, ?_⟩
    · exact hrefl.signatureKeyPairs
    · exact hrefl.finalMessages
  | updateMessage messageHash transactionHash =>
    cases h
    refine ⟨fun row hrow => ⟨_, List.mem_map_of_mem hrow, ?_⟩, ?_, ?_⟩
    · split <;> exact ⟨rfl, rfl⟩
    · exact hrefl.signatureKeyPairs
    · exact hrefl.finalMessages
  | insertSignatureKeyPair row =>
    obtain ⟨_, rfl⟩ := h
    exact ⟨hrefl.messages, List.prefix_append _ _, hrefl.finalMessages⟩
  | insertFinalMessage messageHash message =>
    obtain ⟨_, _, rfl⟩ := h
    refine ⟨hrefl.messages, hrefl.signatureKeyPairs, ?_⟩
    rw [List.map_append]
    exact List.prefix_append _ _
  | updateFinalMessage messageHash data =>
    cases h
    refine ⟨hrefl.messages, hrefl.signatureKeyPairs, ?_⟩
    rw [List.map_map]
    have hsame : ∀ r : FinalMessageRow,
        ((if r.messageHash = messageHash then r.update data else r).messageHash,
          (if r.messageHash = messageHash then r.update data else r).message) =
        (r.messageHash, r.message) := fun r => by split <;> rfl
    simp only [Function.comp_def, hsame, List.prefix_rfl]
  | deleteAuthorisation _ _ =>
    cases h
    exact ⟨hrefl.messages, hrefl.signatureKeyPairs, hrefl.finalMessages⟩
  | _ =>
    cases h.eq_of_not_writes rfl
    exact hrefl

theorem Query.Answers.grows {q : Query} {r : Except JsError q.Answer}
    (h : q.Answers wallets db r db') (hq : q.deletes = false) : db.Grows db' := by
  cases r with
  | ok a => exact Query.Effect.grows h hq
  | error e =>
    cases h
    exact .refl db

/-- What an answer still tells of the tables when they have grown. -/
def Holds (db : Database) : Answered Query Query.Answer JsError → Prop
  | ⟨.selectMessage messageHash, .ok (some row)⟩ => row.messageHash = messageHash ∧
    ∃ row' ∈ db.messages, row'.messageHash = messageHash ∧ row'.walletAddress = row.walletAddress
  | ⟨.insertMessage row, .ok _⟩ => ∃ row' ∈ db.messages,
    row'.messageHash = row.messageHash ∧ row'.walletAddress = row.walletAddress
  | ⟨.selectSignatureKeyPairs messageHash, .ok pairs⟩ =>
    pairs.length ≤ (db.collected messageHash).length ∧ pairs ⊆ db.collected messageHash
  | ⟨.insertSignatureKeyPair row, .ok _⟩ => row ∈ db.signatureKeyPairs
  | ⟨.insertFinalMessage messageHash _, .ok _⟩ =>
    ∃ row ∈ db.finalMessages, row.messageHash = messageHash
  | _ => True

theorem Holds.grows (h : Holds db e) (hgrows : db.Grows db') : Holds db' e := by
  obtain ⟨q, r⟩ := e
  cases r with
  | error e => cases q <;> trivial
  | ok a =>
    cases q with
    | selectMessage messageHash =>
      cases a with
      | none => trivial
      | some row =>
        obtain ⟨hhash, row', hrow', hhash', hwallet⟩ := h
        obtain ⟨row'', hrow'', hhash'', hwallet'⟩ := hgrows.messages row' hrow'
        exact ⟨hhash, row'', hrow'', hhash''.trans hhash', hwallet'.trans hwallet⟩
    | insertMessage row =>
      obtain ⟨row', hrow', hhash', hwallet⟩ := h
      obtain ⟨row'', hrow'', hhash'', hwallet'⟩ := hgrows.messages row' hrow'
      exact ⟨row'', hrow'', hhash''.trans hhash', hwallet'.trans hwallet⟩
    | selectSignatureKeyPairs messageHash =>
      have hcollected := hgrows.collected messageHash
      exact ⟨h.1.trans hcollected.length_le, fun pair hpair => hcollected.subset (h.2 hpair)⟩
    | insertSignatureKeyPair row => exact hgrows.signatureKeyPairs.subset h
    | insertFinalMessage messageHash message =>
      obtain ⟨row, hrow, hhash⟩ := h
      have hmem := hgrows.finalMessages.subset (List.mem_map_of_mem hrow)
      obtain ⟨row', hrow', heq⟩ := List.mem_map.mp hmem
      exact ⟨row', hrow', (congrArg Prod.fst heq).trans hhash⟩
    | _ => trivial

theorem holds_of_answers {q : Query} {r : Except JsError q.Answer}
    (h : q.Answers wallets db r db') : Holds db' ⟨q, r⟩ := by
  cases r with
  | error e => cases q <;> trivial
  | ok a =>
    cases q with
    | selectMessage messageHash =>
      obtain ⟨ha, rfl⟩ := h
      cases a with
      | none => trivial
      | some row =>
        have hhash : row.messageHash = messageHash := by simpa using List.find?_some ha.symm
        exact ⟨hhash, row, List.mem_of_find?_eq_some ha.symm, hhash, rfl⟩
    | insertMessage row =>
      obtain ⟨_, rfl⟩ := h
      exact ⟨row, List.mem_append_right _ List.mem_cons_self, rfl, rfl⟩
    | selectSignatureKeyPairs messageHash =>
      obtain ⟨hperm, rfl⟩ := h
      exact ⟨hperm.length_eq.le, hperm.subset⟩
    | insertSignatureKeyPair row =>
      obtain ⟨_, rfl⟩ := h
      exact List.mem_append_right _ List.mem_cons_self
    | insertFinalMessage messageHash message =>
      obtain ⟨_, _, rfl⟩ := h
      exact ⟨_, List.mem_append_right _ List.mem_cons_self, rfl⟩
    | _ => trivial

/-- The answers of a call hold of the tables. -/
def Knows (db : Database) (c : ServiceCall α) : Prop := ∀ e ∈ c.log, Holds db e

theorem Knows.grows {c : ServiceCall α} (h : Knows db c)
    (hgrows : db.Grows db') : Knows db' c :=
  fun e he => (h e he).grows hgrows

theorem Knows.step {c c' : ServiceCall α} (h : Knows db c)
    (hstep : Async.Call.Step (Query.Answers wallets) db c e db' c') (hgrows : db.Grows db') :
    Knows db' c' := by
  intro e' he'
  rw [hstep.log_eq] at he'
  rcases List.mem_append.mp he' with he' | he'
  · exact (h e' he').grows hgrows
  · cases List.mem_singleton.mp he'
    exact holds_of_answers hstep.answers_eq

/-! ## Logs -/

namespace Log

/-- The queries of a log that have changed a table, in order. -/
def written (log : Log) : List Query :=
  log.filterMap fun
    | ⟨q, .ok _⟩ => if q.writes then some q else none
    | ⟨_, .error _⟩ => none

theorem written_append {log log' : Log} : (log ++ log').written = log.written ++ log'.written :=
  List.filterMap_append

theorem mem_written {log : Log} : q ∈ log.written ↔ q.writes ∧ ∃ a, told q a ∈ log := by
  rw [written, List.mem_filterMap]
  constructor
  · rintro ⟨⟨q', r⟩, hmem, hq⟩
    cases r with
    | error e => cases hq
    | ok a =>
      simp only [Option.ite_none_right_eq_some, Option.some.injEq] at hq
      obtain ⟨hwrites, rfl⟩ := hq
      exact ⟨hwrites, a, hmem⟩
  · intro ⟨hwrites, a, hmem⟩
    exact ⟨_, hmem, if_pos hwrites⟩

/-- What `PendingMessagesSQLStore.get` adds to a log. -/
abbrev get (log : Log) (messageHash : Bytes32) (row : MessageRow)
    (pairs : List CollectedSignatureKeyPair) : Log :=
  log ++ [told (.selectMessage messageHash) (some row)] ++
    [told (.selectSignatureKeyPairs messageHash) pairs]

/-- What `PendingMessagesSQLStore.getStatus` adds to a log. -/
abbrev status (log : Log) (messageHash : Bytes32) (row : MessageRow)
    (pairs : List CollectedSignatureKeyPair) (required : Uint256) : Log :=
  log.get messageHash row pairs ++ [told (.requiredSignatures row.walletAddress) required]

end Log

section
variable {possible : Log → (q : Query) → Except JsError q.Answer → Prop}
  {awaited : Log → Query → Prop} {failed : Log → JsError → Prop} {log : Log}
  {messageHash : Bytes32}

theorem follows_query (q : Query) {post : Log → q.Answer → Prop} :
    Follows possible awaited failed post log (query q) ↔
      awaited log q ∧ (∀ a, possible log q (.ok a) → post (log ++ [told q a]) a) ∧
        ∀ e, possible log q (.error e) → failed (log ++ [rejected q e]) e :=
  follows_perform

theorem follows_lift {post : Log → α → Prop} {x : Except String α}
    (hfailed : ∀ e, x = .error e → failed log (.thrown e)) (hpost : ∀ a, x = .ok a → post log a) :
    Follows possible awaited failed post log (Promise.lift x) := by
  cases x with
  | ok a => exact hpost a rfl
  | error e => exact hfailed e rfl

theorem follows_ensure {post : Log → Unit → Prop} {condition : Prop} [Decidable condition]
    (hfailed : ¬ condition → failed log (.relayer e)) (hpost : condition → post log ()) :
    Follows possible awaited failed post log (ensure condition e) := by
  by_cases h : condition
  · rw [ensure, if_pos h]
    exact hpost h
  · rw [ensure, if_neg h]
    exact hfailed h

/-- A log only grows. -/
theorem follows_grown {front : Log} {x : Promise α} (hfront : front <+: log) :
    Follows possible (fun _ _ => True) (fun log _ => front <+: log) (fun log _ => front <+: log)
      log x := by
  induction x generalizing log with
  | done r => cases r <;> exact hfront
  | await q next ih => exact ⟨trivial, fun r _ => ih r (hfront.trans (List.prefix_append _ _))⟩

variable (hawaited : ∀ log q, q.writes = false → awaited log q)
  (hrejected : ∀ log q e, q.writes = false → possible log q (.error e) →
    failed (log ++ [rejected q e]) e)
include hawaited hrejected

theorem follows_read {post : Log → q.Answer → Prop} (hq : q.writes = false)
    (hpost : ∀ a, possible log q (.ok a) → post (log ++ [told q a]) a) :
    Follows possible awaited failed post log (query q) :=
  (follows_query q).mpr ⟨hawaited _ _ hq, hpost, fun e => hrejected _ _ e hq⟩

theorem follows_get {post : Log → PendingMessage → Prop}
    (hmissing : possible log (.selectMessage messageHash) (.ok none) →
      failed (log ++ [told (.selectMessage messageHash) none])
        (.relayer (.invalidMessage messageHash)))
    (hpost : ∀ row pairs, possible log (.selectMessage messageHash) (.ok (some row)) →
      possible (log ++ [told (.selectMessage messageHash) (some row)])
        (.selectSignatureKeyPairs messageHash) (.ok pairs) →
      post (log.get messageHash row pairs) ⟨pairs, row.transactionHash, row.walletAddress⟩) :
    Follows possible awaited failed post log (PendingMessagesSQLStore.get messageHash) := by
  refine follows_bind.mpr (follows_read hawaited hrejected rfl fun found hfound => ?_)
  cases found with
  | none => exact hmissing hfound
  | some row =>
    refine follows_bind.mpr (follows_read hawaited hrejected rfl fun pairs hpairs => ?_)
    exact hpost row pairs hfound hpairs

theorem follows_isPresent {post : Log → Bool → Prop}
    (hpost : ∀ row pairs, possible log (.selectMessage messageHash) (.ok row) →
      possible (log ++ [told (.selectMessage messageHash) row])
        (.selectSignatureKeyPairs messageHash) (.ok pairs) →
      post (log ++ [told (.selectMessage messageHash) row] ++
        [told (.selectSignatureKeyPairs messageHash) pairs])
        (row.isSome || pairs.length ≠ 0)) :
    Follows possible awaited failed post log (PendingMessages.isPresent messageHash) := by
  refine follows_bind.mpr (follows_read hawaited hrejected rfl fun row hrow => ?_)
  refine follows_bind.mpr (follows_read hawaited hrejected rfl fun pairs hpairs => ?_)
  exact hpost row pairs hrow hpairs

theorem follows_containSignature {post : Log → Bool → Prop}
    (hpost : ∀ row, possible log (.selectSignature messageHash signature) (.ok row) →
      post (log ++ [told (.selectSignature messageHash signature) row]) row.isSome) :
    Follows possible awaited failed post log
      (PendingMessagesSQLStore.containSignature messageHash signature) :=
  follows_bind.mpr (follows_read hawaited hrejected rfl hpost)

theorem follows_getStatus {post : Log → MessageStatus → Prop}
    (hmissing : possible log (.selectMessage messageHash) (.ok none) →
      failed (log ++ [told (.selectMessage messageHash) none])
        (.relayer (.invalidMessage messageHash)))
    (hpost : ∀ row pairs required, possible log (.selectMessage messageHash) (.ok (some row)) →
      possible (log ++ [told (.selectMessage messageHash) (some row)])
        (.selectSignatureKeyPairs messageHash) (.ok pairs) →
      possible (log.get messageHash row pairs) (.requiredSignatures row.walletAddress)
        (.ok required) →
      post (log.status messageHash row pairs required)
        ⟨none, pairs.map (·.signature), pairs.length, required, row.transactionHash⟩) :
    Follows possible awaited failed post log (PendingMessagesSQLStore.getStatus messageHash) := by
  refine follows_bind.mpr (follows_get hawaited hrejected hmissing fun row pairs hrow hpairs => ?_)
  refine follows_bind.mpr (follows_read hawaited hrejected rfl fun required hrequired => ?_)
  exact hpost row pairs required hrow hpairs hrequired

theorem follows_isEnoughSignatures {post : Log → Bool → Prop}
    (hmissing : possible log (.selectMessage messageHash) (.ok none) →
      failed (log ++ [told (.selectMessage messageHash) none])
        (.relayer (.invalidMessage messageHash)))
    (hpost : ∀ row pairs required, possible log (.selectMessage messageHash) (.ok (some row)) →
      possible (log ++ [told (.selectMessage messageHash) (some row)])
        (.selectSignatureKeyPairs messageHash) (.ok pairs) →
      possible (log.get messageHash row pairs) (.requiredSignatures row.walletAddress)
        (.ok required) →
      post (log.status messageHash row pairs required) (decide (required.toNat ≤ pairs.length))) :
    Follows possible awaited failed post log (PendingMessages.isEnoughSignatures messageHash) :=
  follows_bind.mpr (follows_getStatus hawaited hrejected hmissing hpost)

theorem follows_getMessageWithSignatures {message : SignedMessage}
    {post : Log → SignedMessage → Prop}
    (hthrown : ∀ log e, failed log (.thrown e))
    (hpost : ∀ pairs sorted signature,
      possible log (.selectSignatureKeyPairs messageHash) (.ok pairs) →
      sortSignatureKeyPairsByKey pairs = .ok sorted →
      concatenateSignatures (sorted.map (·.signature)) = .ok signature →
      post (log ++ [told (.selectSignatureKeyPairs messageHash) pairs])
        { message with signature }) :
    Follows possible awaited failed post log
      (PendingMessages.getMessageWithSignatures message messageHash) := by
  refine follows_bind.mpr (follows_read hawaited hrejected rfl fun pairs hpairs => ?_)
  refine follows_bind.mpr (follows_lift (fun e _ => hthrown _ e) fun sorted hsorted => ?_)
  refine follows_bind.mpr (follows_lift (fun e _ => hthrown _ e) fun signature hsignature => ?_)
  exact hpost pairs sorted signature hpairs hsorted hsignature

end

/-! ## A call of `add` -/

/-- The answers count as many pairs as the wallet was found to require, and are the last ones. -/
def Log.Counted (log : Log) (messageHash : Bytes32) : Prop :=
  ∃ (front : Log) (row : MessageRow) (pairs : List CollectedSignatureKeyPair) (required : Uint256),
    log = front.status messageHash row pairs required ∧ required.toNat ≤ pairs.length

/-- A message was handed over to the queue. -/
def Log.HandsOver (log : Log) (messageHash : Bytes32) : Prop :=
  ∃ message r, ⟨.insertFinalMessage messageHash message, r⟩ ∈ log

/-- A wallet has answered what it requires. -/
def Query.isRequirement : Answered Query Query.Answer JsError → Bool
  | ⟨.requiredSignatures _, .ok _⟩ => true
  | _ => false

namespace Log

/-- The pairs that were read first after a wallet has answered what it requires. -/
def counted (log : Log) : Option (List CollectedSignatureKeyPair) :=
  (log.dropWhile fun e => !Query.isRequirement e).findSome? fun
    | ⟨.selectSignatureKeyPairs _, .ok pairs⟩ => some pairs
    | _ => none

theorem counted_append {log : Log} (h : log.counted = some pairs) (log' : Log) :
    (log ++ log').counted = some pairs := by
  rw [counted, List.dropWhile_append]
  split
  · next hnil =>
    rw [counted, List.isEmpty_iff.mp hnil] at h
    cases h
  · rw [List.findSome?_append]
    exact Option.or_eq_some_iff.mpr (.inl h)

/-- A signature of the message was stored. -/
def Stores (log : Log) (messageHash : Bytes32) : Prop :=
  ∃ row, row.messageHash = messageHash ∧ told (.insertSignatureKeyPair row) () ∈ log

/-- Neither was a message handed over, nor has a wallet answered what it requires. -/
def Early (log : Log) : Prop :=
  (∀ hash, ¬ log.HandsOver hash) ∧ ∀ e ∈ log, Query.isRequirement e = false

/-- The pairs that were counted first are as many as the wallet has answered that it requires. -/
def FoundEnough (log : Log) (messageHash : Bytes32) : Prop :=
  ∃ (row : MessageRow) (pairs : List CollectedSignatureKeyPair) (required : Uint256),
    told (.selectMessage messageHash) (some row) ∈ log ∧
      told (.requiredSignatures row.walletAddress) required ∈ log ∧
        told (.selectSignatureKeyPairs messageHash) pairs ∈ log ∧
          log.counted = some pairs ∧ required.toNat ≤ pairs.length

theorem FoundEnough.append {log : Log} (h : log.FoundEnough messageHash) (log' : Log) :
    (log ++ log').FoundEnough messageHash := by
  obtain ⟨row, pairs, required, hrow, hrequired, hpairs, hcounted, hle⟩ := h
  exact ⟨row, pairs, required, List.mem_append_left _ hrow, List.mem_append_left _ hrequired,
    List.mem_append_left _ hpairs, counted_append hcounted log', hle⟩

theorem Early.foundEnough {log : Log} (h : log.Early) (hle : required.toNat ≤ pairs.length) :
    ((log.status messageHash row₁ pairs₁ required₁).status messageHash row pairs
      required).FoundEnough messageHash := by
  refine ⟨row, pairs, required, by simp, by simp, by simp, ?_, hle⟩
  simp only [counted, List.append_assoc]
  rw [List.dropWhile_append_of_pos (by simpa using h.2)]
  rfl

end Log

namespace PendingMessages

variable {ethers : Ethers} {message : SignedMessage} {messageHash : Bytes32}

/-- What a call of `add` has been answered when it awaits a query that writes. -/
def Awaits (ethers : Ethers) (message : SignedMessage) (messageHash : Bytes32) (log : Log) :
    Query → Prop
  | .insertMessage row => row = ⟨messageHash, none, message.from_⟩ ∧ log.written = [] ∧
    told (.selectMessage messageHash) none ∈ log ∧
    told (.selectSignatureKeyPairs messageHash) [] ∈ log
  | .insertSignatureKeyPair row => row.messageHash = messageHash ∧ row.signature = message.signature ∧
    getKeyFromHashAndSignature ethers messageHash row.signature = .ok row.key
  | .insertFinalMessage hash finalMessage => hash = messageHash ∧ log.Counted messageHash ∧
    log.Stores messageHash ∧ (∀ hash, ¬ log.HandsOver hash) ∧ log.FoundEnough messageHash ∧
    calculateMessageHash ethers.crypto finalMessage.toUnsignedMessage = .ok messageHash
  | q => q.writes = false

theorem awaits_of_not_writes (log : Log) (q : Query) (hq : q.writes = false) :
    Awaits ethers message messageHash log q := by
  cases q with
  | insertMessage _ | insertSignatureKeyPair _ | insertFinalMessage _ _ => cases hq
  | _ => exact hq

theorem Awaits.not_deletes (h : Awaits ethers message messageHash log q) : q.deletes = false := by
  cases q with
  | deleteMessage _ | deleteSignatureKeyPairs _ => cases h
  | _ => rfl

/-- A call of `add`, whatever it is answered. -/
abbrev Adds (ethers : Ethers) (message : SignedMessage) (messageHash : Bytes32)
    (post : Log → α → Prop) : Log → Promise α → Prop :=
  Follows (fun _ _ _ => True) (Awaits ethers message messageHash) (fun _ _ => True) post

theorem adds_addSignatureToPendingMessage {post : Log → Unit → Prop} {log : Log}
    (hhash : calculateMessageHash ethers.crypto message.toUnsignedMessage = .ok messageHash)
    (hearly : log.Early)
    (hpost : ∀ log row, row.messageHash = messageHash →
      told (.insertSignatureKeyPair row) () ∈ log → log.Early → post log ()) :
    Adds ethers message messageHash post log
      (addSignatureToPendingMessage ethers messageHash message) := by
  have hread : ∀ (log : Log) (q : Query), q.writes = false →
      Awaits ethers message messageHash log q := awaits_of_not_writes
  refine follows_bind.mpr (follows_get hread (fun _ _ _ _ _ => trivial) (fun _ => trivial) ?_)
  intro row pairs _ _
  refine follows_bind.mpr (follows_ensure (fun _ => trivial) fun _ => ?_)
  refine follows_bind.mpr (follows_containSignature hread (fun _ _ _ _ _ => trivial) fun _ _ => ?_)
  refine follows_bind.mpr (follows_ensure (fun _ => trivial) fun _ => ?_)
  refine follows_bind.mpr (follows_bind.mpr (follows_lift (fun _ _ => trivial) fun hash hhash' => ?_))
  cases hhash.symm.trans hhash'
  refine follows_bind.mpr (follows_lift (fun _ _ => trivial) fun key hkey => ?_)
  refine follows_bind.mpr (follows_read hread (fun _ _ _ _ _ => trivial) rfl fun purpose _ => ?_)
  refine follows_ensure (fun _ => trivial) fun _ => ?_
  refine follows_bind.mpr (follows_lift (fun _ _ => trivial) fun key' hkey' => ?_)
  cases hkey.symm.trans hkey'
  refine (follows_query (.insertSignatureKeyPair _)).mpr ?_
  refine ⟨⟨rfl, rfl, hkey⟩, fun _ _ => ?_, fun _ _ => trivial⟩
  refine hpost _ _ rfl (List.mem_append_right _ List.mem_cons_self) ?_
  simpa [Log.Early, Log.HandsOver, Query.isRequirement, or_imp, forall_and] using hearly

theorem adds_onReadyToExecute {log : Log}
    (hhash : calculateMessageHash ethers.crypto message.toUnsignedMessage = .ok messageHash)
    (hrow : row.messageHash = messageHash) (hstored : told (.insertSignatureKeyPair row) () ∈ log)
    (hnew : ∀ hash, ¬ log.HandsOver hash) (hfound : log.FoundEnough messageHash) :
    Adds ethers message messageHash (fun _ _ => True) log
      (onReadyToExecute ethers messageHash message) := by
  have hread : ∀ (log : Log) (q : Query), q.writes = false →
      Awaits ethers message messageHash log q := awaits_of_not_writes
  refine follows_bind.mpr (follows_getMessageWithSignatures hread (fun _ _ _ _ _ => trivial)
    (fun _ _ => trivial) fun pairs sorted signature _ _ _ => ?_)
  refine follows_bind.mpr (follows_bind.mpr (follows_getStatus hread (fun _ _ _ _ _ => trivial)
    (fun _ => trivial) fun row₁ pairs₁ required₁ _ _ _ => ?_))
  refine follows_bind.mpr (follows_ensure (fun _ => trivial) fun _ => ?_)
  refine follows_bind.mpr (follows_isEnoughSignatures hread (fun _ _ _ _ _ => trivial)
    (fun _ => trivial) fun row₂ pairs₂ required₂ _ _ _ => ?_)
  refine follows_ensure (fun _ => trivial) fun henough => ?_
  refine follows_bind.mpr (follows_lift (fun _ _ => trivial) fun hash hhash' => ?_)
  cases hhash.symm.trans hhash'
  refine follows_bind.mpr ((follows_query (.insertFinalMessage _ _)).mpr ?_)
  refine ⟨⟨rfl, ?_, ⟨row, hrow, ?_⟩, fun hash => ?_, ?_, hhash'⟩, fun _ _ => trivial,
    fun _ _ => trivial⟩
  · exact ⟨_, row₂, pairs₂, required₂, rfl, of_decide_eq_true henough⟩
  · simp [hstored]
  · simpa [Log.HandsOver] using hnew hash
  · simpa only [List.append_assoc] using hfound.append _

theorem follows_add (hhash : ∀ hash,
      calculateMessageHash ethers.crypto message.toUnsignedMessage = .ok hash →
        hash = messageHash) :
    Adds ethers message messageHash (fun _ _ => True) [] (add ethers message) := by
  have hread : ∀ (log : Log) (q : Query), q.writes = false →
      Awaits ethers message messageHash log q := awaits_of_not_writes
  refine follows_bind.mpr (follows_lift (fun _ _ => trivial) fun hash hhash' => ?_)
  cases hhash hash hhash'
  replace hhash := hhash'
  refine follows_bind.mpr (follows_isPresent hread (fun _ _ _ _ _ => trivial) ?_)
  intro row pairs _ _
  have hrest : ∀ log : Log, log.Early →
      Adds ethers message messageHash (fun _ _ => True) log (do
      addSignatureToPendingMessage ethers messageHash message
      let status ← getStatus messageHash
      let isEnough ← isEnoughSignatures messageHash
      if isEnough then do
        let queued ← onReadyToExecute ethers messageHash message
        return { status with messageHash := some queued }
      else return status) := by
    intro log hearly
    refine follows_bind.mpr (adds_addSignatureToPendingMessage hhash hearly ?_)
    intro log row hrow hstored hearly
    refine follows_bind.mpr (follows_getStatus hread (fun _ _ _ _ _ => trivial) (fun _ => trivial)
      fun row₁ pairs₁ required₁ _ _ _ => ?_)
    refine follows_bind.mpr (follows_isEnoughSignatures hread (fun _ _ _ _ _ => trivial)
      (fun _ => trivial) fun row₂ pairs₂ required₂ _ _ _ => ?_)
    split
    · next henough =>
      refine follows_bind.mpr (adds_onReadyToExecute hhash hrow (by simp [hstored])
        (fun hash => ?_) (hearly.foundEnough (of_decide_eq_true henough)))
      simpa [Log.HandsOver] using hearly.1 hash
    · trivial
  refine follows_bind.mpr ?_
  cases hpresent : (row.isSome || pairs.length ≠ 0) with
  | true => exact hrest _ (by simp [Log.Early, Log.HandsOver, Query.isRequirement])
  | false =>
    have hnone : row = none := by simpa using (Bool.or_eq_false_iff.mp hpresent).1
    have hnil : pairs = [] := by simpa using (Bool.or_eq_false_iff.mp hpresent).2
    subst hnone hnil
    refine (follows_query (.insertMessage _)).mpr ?_
    refine ⟨⟨rfl, rfl, by simp, by simp⟩, fun _ _ => hrest _ ?_, fun _ _ => trivial⟩
    simp [Log.Early, Log.HandsOver, Query.isRequirement]

end PendingMessages

/-- The hash of a message, if it has one. -/
def messageHashOf (ethers : Ethers) (message : SignedMessage) : Bytes32 :=
  match calculateMessageHash ethers.crypto message.toUnsignedMessage with
  | .ok messageHash => messageHash
  | .error _ => 0

theorem messageHashOf_eq {ethers : Ethers} {message : SignedMessage} (hash : Bytes32)
    (h : calculateMessageHash ethers.crypto message.toUnsignedMessage = .ok hash) :
    hash = messageHashOf ethers message := by
  rw [messageHashOf, h]

end UniversalLogin
