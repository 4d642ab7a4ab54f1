import UniversalLogin.Relayer.PendingMessages

/-!
# Messages with one signer

Calls of `PendingMessages.add` none of whose queries is rejected. Such a call for a new message,
signed by a key of a wallet that requires one signature, comes to an end however its queries are
answered, and then the message is in the queue with the signature it came with (`resolves_add`).
-/

namespace UniversalLogin

open Async

/-- No query is rejected. -/
def Query.Fulfilled (wallets : Address → Option Storage) (q : Query) (db : Database)
    (r : Except JsError q.Answer) (db' : Database) : Prop :=
  ∃ a, r = .ok a ∧ q.Effect wallets db a db'

def Query.Answerable (wallets : Address → Option Storage) (q : Query) (db : Database) : Prop :=
  ∃ a db', q.Effect wallets db a db'

/-- The promise is resolved in every run in which no query is rejected, as `post` says, and each
query that it awaits can be answered. -/
abbrev Resolves (wallets : Address → Option Storage) (post : α → Database → Prop) :
    Promise α → Database → Prop :=
  wp (Query.Fulfilled wallets) (Query.Answerable wallets) (fun _ _ => False) post

section
variable {wallets : Address → Option Storage} {db : Database}

/-- It is resolved in some run, and in every run that comes to an end. -/
theorem resolves_runs {post : α → Database → Prop} {x : Promise α}
    (h : Resolves wallets post x db) :
    (∃ r db', Runs (Query.Fulfilled wallets) (db, x) (db', .done r)) ∧
      ∀ r db', Runs (Query.Fulfilled wallets) (db, x) (db', .done r) →
        ∃ a, r = .ok a ∧ post a db' := by
  constructor
  · exact h.exists_runs fun q db ⟨a, db', ha⟩ => ⟨.ok a, db', a, rfl, ha⟩
  · intro r db' hrun
    have hend := wp.runs hrun h
    cases r with
    | ok a => exact ⟨a, rfl, hend⟩
    | error e => cases hend

theorem resolves_query {post : q.Answer → Database → Prop} : Resolves wallets post (query q) db ↔
    q.Answerable wallets db ∧ ∀ a db', q.Effect wallets db a db' → post a db' := by
  rw [Resolves, query, wp_perform]
  refine and_congr_right' ⟨fun h a db' ha => h.1 a db' ⟨a, rfl, ha⟩, fun h => ⟨?_, ?_⟩⟩
  · rintro a db' ⟨_, heq, ha⟩
    cases heq
    exact h _ db' ha
  · rintro e db' ⟨_, heq, _⟩
    cases heq

theorem resolves_lift {post : α → Database → Prop} {x : Except String α} (hx : x = .ok a)
    (h : post a db) : Resolves wallets post (Promise.lift x) db := by
  subst hx
  exact h

theorem resolves_ensure {post : Unit → Database → Prop} {condition : Prop} [Decidable condition]
    (hcondition : condition) (h : post () db) : Resolves wallets post (ensure condition e) db := by
  rw [ensure, if_pos hcondition]
  exact h

/-! ## A row with at most one signature -/

/-- The message is known with this row, and with these pairs in their order. -/
structure Database.Holds (db : Database) (messageHash : Bytes32) (row : MessageRow)
    (pairs : List CollectedSignatureKeyPair) : Prop where
  row : db.messages.find? (·.messageHash = messageHash) = some row
  collected : db.collected messageHash = pairs

/-- The message has not been seen before. -/
structure Database.Fresh (db : Database) (messageHash : Bytes32) : Prop where
  messages : ∀ row ∈ db.messages, row.messageHash ≠ messageHash
  signatureKeyPairs : ∀ pair ∈ db.signatureKeyPairs, pair.messageHash ≠ messageHash
  finalMessages : ∀ row ∈ db.finalMessages, row.messageHash ≠ messageHash

theorem Database.fresh_empty (messageHash : Bytes32) : Database.empty.Fresh messageHash where
  messages _ h := nomatch h
  signatureKeyPairs _ h := nomatch h
  finalMessages _ h := nomatch h

theorem Database.Fresh.collected_eq_nil (h : db.Fresh messageHash) :
    db.collected messageHash = [] := by
  rw [collected, List.map_eq_nil_iff, List.filter_eq_nil_iff]
  intro pair hpair
  simpa using h.signatureKeyPairs pair hpair

theorem Database.Fresh.find_eq_none (h : db.Fresh messageHash) :
    db.messages.find? (·.messageHash = messageHash) = none := by
  rw [List.find?_eq_none]
  intro row hrow
  simpa using h.messages row hrow

/-- The tables with the row and the signature of a new message. -/
def Database.withSignature (db : Database) (row : MessageRow) (pair : SignatureKeyPairRow) :
    Database :=
  { db with
    messages := db.messages ++ [row]
    signatureKeyPairs := db.signatureKeyPairs ++ [pair] }

/-- The tables with the row of a new message. -/
def Database.withMessage (db : Database) (row : MessageRow) : Database :=
  { db with messages := db.messages ++ [row] }

theorem Database.Fresh.holds (h : db.Fresh messageHash) (row : MessageRow)
    (hrow : row.messageHash = messageHash) :
    (db.withMessage row).Holds messageHash row [] where
  row := by
    rw [withMessage, List.find?_append, h.find_eq_none]
    simp [hrow]
  collected := h.collected_eq_nil

theorem Database.Fresh.holds_withSignature (h : db.Fresh messageHash) (row : MessageRow)
    (pair : SignatureKeyPairRow) (hrow : row.messageHash = messageHash)
    (hpair : pair.messageHash = messageHash) :
    (db.withSignature row pair).Holds messageHash row [pair.toCollectedSignatureKeyPair] where
  row := (h.holds row hrow).row
  collected := by
    have hnil : db.signatureKeyPairs.filter (·.messageHash = messageHash) = [] := by
      simpa [collected] using h.collected_eq_nil
    simp [withSignature, collected, hnil, hpair]

/-- With at most one pair there is just one order of them. -/
theorem eq_of_perm_of_length_le_one {l l' : List α} (h : l.Perm l') (hlen : l'.length ≤ 1) :
    l = l' := by
  match l', hlen with
  | [], _ => exact List.perm_nil.mp h
  | [_], _ => exact List.perm_singleton.mp h

section
variable {row : MessageRow} {pairs : List CollectedSignatureKeyPair} {wallet : Address}
  {s : Storage} (h : db.Holds messageHash row pairs) (hlen : pairs.length ≤ 1)
include h hlen

theorem resolves_getCollectedSignatureKeyPairs
    {post : List CollectedSignatureKeyPair → Database → Prop} (hpost : post pairs db) :
    Resolves wallets post
      (PendingMessagesSQLStore.getCollectedSignatureKeyPairs messageHash) db := by
  refine resolves_query.mpr ⟨⟨_, _, .refl _, rfl⟩, ?_⟩
  rintro found _ ⟨hfound, rfl⟩
  rw [h.collected] at hfound
  rwa [eq_of_perm_of_length_le_one hfound hlen]

theorem resolves_get {post : PendingMessage → Database → Prop}
    (hpost : post ⟨pairs, row.transactionHash, row.walletAddress⟩ db) :
    Resolves wallets post (PendingMessagesSQLStore.get messageHash) db := by
  refine wp_bind.mpr (resolves_query.mpr ⟨⟨_, _, rfl, rfl⟩, ?_⟩)
  rintro _ _ ⟨rfl, rfl⟩
  rw [h.row]
  exact wp_bind.mpr (resolves_getCollectedSignatureKeyPairs h hlen hpost)

variable (hwallet : toAddress row.walletAddress = some wallet) (hs : wallets wallet = some s)
include hwallet hs

/-- The wallet answers how many signatures it requires. -/
theorem resolves_getStatus {post : MessageStatus → Database → Prop}
    (hpost : post ⟨none, pairs.map (·.signature), pairs.length, s.requiredSignatures,
      row.transactionHash⟩ db) :
    Resolves wallets post (PendingMessagesSQLStore.getStatus messageHash) db := by
  refine wp_bind.mpr (resolves_get h hlen (wp_bind.mpr (resolves_query.mpr ⟨?_, ?_⟩)))
  · refine ⟨s.requiredSignatures, db, ⟨wallet, hwallet, fun s' hs' => ?_⟩, rfl⟩
    cases hs.symm.trans hs'
    rfl
  · rintro required _ ⟨⟨_, hwallet', hrequired⟩, rfl⟩
    cases hwallet.symm.trans hwallet'
    rwa [hrequired s hs]

theorem resolves_isEnoughSignatures {post : Bool → Database → Prop}
    (henough : s.requiredSignatures.toNat ≤ pairs.length) (hpost : post true db) :
    Resolves wallets post (PendingMessages.isEnoughSignatures messageHash) db := by
  refine wp_bind.mpr (resolves_getStatus h hlen hwallet hs ?_)
  have htrue : decide (s.requiredSignatures.toNat ≤ pairs.length) = true := decide_eq_true henough
  change post (decide (s.requiredSignatures.toNat ≤ pairs.length)) db
  rwa [htrue]

theorem resolves_ensureCorrectExecution {post : Unit → Database → Prop}
    (henough : s.requiredSignatures.toNat ≤ pairs.length)
    (hunsent : truthy row.transactionHash = false) (hpost : post () db) :
    Resolves wallets post (PendingMessages.ensureCorrectExecution messageHash) db := by
  refine wp_bind.mpr (resolves_getStatus h hlen hwallet hs ?_)
  refine wp_bind.mpr (resolves_ensure hunsent ?_)
  refine wp_bind.mpr (resolves_isEnoughSignatures h hlen hwallet hs henough ?_)
  exact resolves_ensure rfl hpost

end

/-! ## The call -/

/-- The signature of a message recovers to a key of its wallet, which requires no other one. -/
structure SingleSigner (ethers : Ethers) (wallets : Address → Option Storage)
    (message : SignedMessage) (messageHash : Bytes32) (s : Storage) (key : JsString) : Prop where
  hash : calculateMessageHash ethers.crypto message.toUnsignedMessage = .ok messageHash
  wallet : ∃ wallet, toAddress message.from_ = some wallet ∧ wallets wallet = some s
  recovered : getKeyFromHashAndSignature ethers messageHash message.signature = .ok key
  registered : ∃ k, toAddress key = some k ∧ s.getKeyPurpose k ≠ invalidKey
  required : s.requiredSignatures.toNat ≤ 1
  signature : concatenateSignatures [message.signature] = .ok message.signature

variable {ethers : Ethers} {message : SignedMessage} {messageHash : Bytes32} {s : Storage}
  {key : JsString}

theorem SingleSigner.resolves_ensureCorrectKeyPurpose
    (hm : SingleSigner ethers wallets message messageHash s key) {post : Unit → Database → Prop}
    (hpost : post () db) : Resolves wallets post
      (PendingMessages.ensureCorrectKeyPurpose ethers message message.from_) db := by
  obtain ⟨wallet, hwallet, hs⟩ := hm.wallet
  obtain ⟨k, hk, hpurpose⟩ := hm.registered
  refine wp_bind.mpr (resolves_lift hm.hash (wp_bind.mpr (resolves_lift hm.recovered ?_)))
  refine wp_bind.mpr (resolves_query.mpr ⟨?_, ?_⟩)
  · refine ⟨s.getKeyPurpose k, db, ⟨wallet, k, hwallet, hk, fun s' hs' => ?_⟩, rfl⟩
    cases hs.symm.trans hs'
    rfl
  · rintro purpose _ ⟨⟨_, _, hwallet', hk', hanswer⟩, rfl⟩
    cases hwallet.symm.trans hwallet'
    cases hk.symm.trans hk'
    exact resolves_ensure (by rwa [hanswer s hs]) hpost

/-- The row of a new message. -/
def firstRow (message : SignedMessage) (messageHash : Bytes32) : MessageRow :=
  ⟨messageHash, none, message.from_⟩

def firstPair (message : SignedMessage) (messageHash : Bytes32) (key : JsString) :
    SignatureKeyPairRow := ⟨⟨key, message.signature⟩, messageHash⟩

/-- The signature is stored with the key that it recovers to. -/
theorem SingleSigner.resolves_addSignatureToPendingMessage
    (hm : SingleSigner ethers wallets message messageHash s key) (hfresh : db.Fresh messageHash)
    {post : Unit → Database → Prop}
    (hpost : post () (db.withSignature (firstRow message messageHash)
      (firstPair message messageHash key))) :
    Resolves wallets post (PendingMessages.addSignatureToPendingMessage ethers messageHash message)
      (db.withMessage (firstRow message messageHash)) := by
  have hholds := hfresh.holds (firstRow message messageHash) rfl
  have hnone : db.signatureKeyPairs.find?
      (fun r => r.messageHash = messageHash ∧ r.signature = message.signature) = none := by
    rw [List.find?_eq_none]
    intro pair hpair
    simp [hfresh.signatureKeyPairs pair hpair]
  refine wp_bind.mpr (resolves_get hholds (Nat.zero_le 1) ?_)
  refine wp_bind.mpr (resolves_ensure rfl ?_)
  refine wp_bind.mpr (wp_bind.mpr (resolves_query.mpr ⟨⟨_, _, rfl, rfl⟩, ?_⟩))
  rintro found _ ⟨rfl, rfl⟩
  have hfound : ((db.withMessage (firstRow message messageHash)).signatureKeyPairs.find?
      (fun r => r.messageHash = messageHash ∧ r.signature = message.signature)).isSome = false :=
    congrArg Option.isSome hnone
  refine wp_bind.mpr (resolves_ensure hfound ?_)
  refine wp_bind.mpr (hm.resolves_ensureCorrectKeyPurpose ?_)
  refine wp_bind.mpr (resolves_lift hm.recovered (resolves_query.mpr ⟨⟨(), _, ?_, rfl⟩, ?_⟩))
  · exact ⟨firstRow message messageHash, by simp [Database.withMessage], rfl⟩
  · rintro _ _ ⟨_, rfl⟩
    exact hpost

/-- The queue is given the message with its one signature. -/
theorem SingleSigner.resolves_onReadyToExecute
    (hm : SingleSigner ethers wallets message messageHash s key) (hfresh : db.Fresh messageHash)
    {post : Bytes32 → Database → Prop} (hpost : ∀ now, post messageHash
      { db.withSignature (firstRow message messageHash) (firstPair message messageHash key) with
        finalMessages := db.finalMessages ++
          [⟨messageHash, stringifySignedMessageFields message, none, none, now⟩] }) :
    Resolves wallets post (PendingMessages.onReadyToExecute ethers messageHash message)
      (db.withSignature (firstRow message messageHash) (firstPair message messageHash key)) := by
  obtain ⟨wallet, hwallet, hs⟩ := hm.wallet
  have hholds := hfresh.holds_withSignature (firstRow message messageHash)
    (firstPair message messageHash key) rfl rfl
  have hsort : sortSignatureKeyPairsByKey [⟨key, message.signature⟩] =
      .ok [⟨key, message.signature⟩] := rfl
  refine wp_bind.mpr (wp_bind.mpr (resolves_getCollectedSignatureKeyPairs hholds le_rfl ?_))
  refine wp_bind.mpr (resolves_lift hsort (wp_bind.mpr (resolves_lift hm.signature ?_)))
  refine wp_bind.mpr (resolves_ensureCorrectExecution hholds le_rfl hwallet hs hm.required rfl ?_)
  refine wp_bind.mpr (resolves_lift hm.hash (wp_bind.mpr (resolves_query.mpr ⟨?_, ?_⟩)))
  · exact ⟨(), _, hfresh.finalMessages, 0, rfl⟩
  · rintro _ _ ⟨_, now, rfl⟩
    exact hpost now

/-- The status that the caller is given. -/
def queuedStatus (message : SignedMessage) (messageHash : Bytes32) (s : Storage) :
    MessageStatus where
  messageHash := some messageHash
  collectedSignatures := [message.signature]
  totalCollected := 1
  required := s.requiredSignatures
  transactionHash := none

/-- A new message whose wallet requires one signature is queued at once, with one row of each
table. -/
theorem SingleSigner.resolves_add (hm : SingleSigner ethers wallets message messageHash s key)
    (hfresh : db.Fresh messageHash) :
    Resolves wallets (fun status db' => status = queuedStatus message messageHash s ∧ ∃ now, db' =
      { db.withSignature (firstRow message messageHash) (firstPair message messageHash key) with
        finalMessages := db.finalMessages ++
          [⟨messageHash, stringifySignedMessageFields message, none, none, now⟩] })
      (PendingMessages.add ethers message) db := by
  obtain ⟨wallet, hwallet, hs⟩ := hm.wallet
  have hholds := hfresh.holds_withSignature (firstRow message messageHash)
    (firstPair message messageHash key) rfl rfl
  refine wp_bind.mpr (resolves_lift hm.hash ?_)
  -- the message is not present, so it is inserted
  refine wp_bind.mpr (wp_bind.mpr (resolves_query.mpr ⟨⟨_, _, rfl, rfl⟩, ?_⟩))
  rintro _ _ ⟨rfl, rfl⟩
  refine wp_bind.mpr (resolves_query.mpr ⟨⟨_, _, .refl _, rfl⟩, ?_⟩)
  rintro found _ ⟨hfound, rfl⟩
  rw [hfresh.collected_eq_nil, List.perm_nil] at hfound
  rw [hfresh.find_eq_none, hfound]
  refine wp_bind.mpr (resolves_query.mpr ⟨⟨(), _, hfresh.messages, rfl⟩, ?_⟩)
  rintro _ _ ⟨_, rfl⟩
  refine wp_bind.mpr (hm.resolves_addSignatureToPendingMessage hfresh ?_)
  refine wp_bind.mpr (resolves_getStatus hholds le_rfl hwallet hs ?_)
  refine wp_bind.mpr (resolves_isEnoughSignatures hholds le_rfl hwallet hs hm.required ?_)
  refine wp_bind.mpr (hm.resolves_onReadyToExecute hfresh fun now => ?_)
  exact ⟨rfl, now, rfl⟩

end

end UniversalLogin
