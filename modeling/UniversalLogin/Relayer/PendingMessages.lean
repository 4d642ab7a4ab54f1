import UniversalLogin.Relayer.Stores
import UniversalLogin.Lib.Comparator

/-!
# PendingMessages

The service that collects the signatures of a message until there are as many as its wallet
requires, and then hands the message over to the queue with the signatures in the order of their
keys (`PendingMessages.ts`). The last section has a precondition for each function that only reads
the tables and the chain: the tables are as before, and what was read is told of them.
-/

namespace UniversalLogin

open Async

/-! ## Signatures in order -/

/-- `executionComparator`: the keys are compared as numbers. -/
def executionComparator (execution1 execution2 : CollectedSignatureKeyPair) :
    Except String Int := do
  let key1 ← bigNumberify (.string execution1.key)
  let key2 ← bigNumberify (.string execution2.key)
  return if key1 > key2 then 1 else if key1 < key2 then -1 else 0

def sortSignatureKeyPairsByKey (signatureKeyPairs : List CollectedSignatureKeyPair) :
    Except String (List CollectedSignatureKeyPair) :=
  Comparator.sortBy executionComparator signatureKeyPairs

/-- The address of a key, where it is one. -/
def CollectedSignatureKeyPair.address (pair : CollectedSignatureKeyPair) : Address :=
  (toAddress pair.key).getD 0

theorem executionComparator_eq {p q : CollectedSignatureKeyPair} (hp : (toAddress p.key).isSome)
    (hq : (toAddress q.key).isSome) : ∃ c, executionComparator p q = .ok c ∧
      (c ≤ 0 ↔ p.address.toNat ≤ q.address.toNat) := by
  obtain ⟨a, ha⟩ := Option.isSome_iff_exists.mp hp
  obtain ⟨b, hb⟩ := Option.isSome_iff_exists.mp hq
  simp only [executionComparator, bigNumberify_address ha, bigNumberify_address hb,
    CollectedSignatureKeyPair.address, ha, hb, Option.getD_some]
  refine ⟨_, rfl, ?_⟩
  split
  · next hlt =>
    have : b.toNat < a.toNat := Int.ofNat_lt.mp hlt
    omega
  · next hle =>
    have : a.toNat ≤ b.toNat := Int.ofNat_le.mp (Int.not_lt.mp hle)
    split <;> omega

/-- Pairs with keys that are addresses are sorted by them. -/
theorem sortSignatureKeyPairsByKey_eq_ok {pairs : List CollectedSignatureKeyPair}
    (hkeys : ∀ p ∈ pairs, (toAddress p.key).isSome)
    (hok : sortSignatureKeyPairsByKey pairs = .ok sorted) :
    sorted.Perm pairs ∧ sorted.Pairwise fun p q => p.address.toNat ≤ q.address.toNat := by
  rw [sortSignatureKeyPairsByKey, Comparator.sortBy_eq (f := fun p => p.address.toNat)
    fun p hp q hq => executionComparator_eq (hkeys p hp) (hkeys q hq)] at hok
  cases hok
  exact ⟨List.perm_insertionSort _ _, List.pairwise_insertionSort _ _⟩

/-! ## The service -/

def createPendingMessage (walletAddress : JsString) : PendingMessage where
  walletAddress
  collectedSignatureKeyPairs := []
  transactionHash := none

def invalidKey : Uint256 := 0

namespace PendingMessages

variable (ethers : Ethers)

def isPresent (messageHash : Bytes32) : Promise Bool :=
  PendingMessagesSQLStore.isPresent messageHash

def getStatus (messageHash : Bytes32) : Promise MessageStatus :=
  PendingMessagesSQLStore.getStatus messageHash

def isEnoughSignatures (messageHash : Bytes32) : Promise Bool := do
  let status ← PendingMessagesSQLStore.getStatus messageHash
  return decide (status.required.toNat ≤ status.totalCollected)

def ensureCorrectExecution (messageHash : Bytes32) : Promise Unit := do
  let status ← PendingMessagesSQLStore.getStatus messageHash
  ensure (truthy status.transactionHash = false) .duplicatedExecution
  let isEnough ← isEnoughSignatures messageHash
  ensure (isEnough = true) (.notEnoughSignatures status.required status.totalCollected)

def getMessageWithSignatures (message : SignedMessage) (messageHash : Bytes32) :
    Promise SignedMessage := do
  let collectedSignatureKeyPairs ←
    PendingMessagesSQLStore.getCollectedSignatureKeyPairs messageHash
  let sortedSignatureKeyPairs ← .lift (sortSignatureKeyPairsByKey collectedSignatureKeyPairs)
  let sortedSignatures := sortedSignatureKeyPairs.map (·.signature)
  let signature ← .lift (concatenateSignatures sortedSignatures)
  return { message with signature }

def onReadyToExecute (messageHash : Bytes32) (message : SignedMessage) : Promise Bytes32 := do
  let finalMessage ← getMessageWithSignatures message messageHash
  ensureCorrectExecution messageHash
  -- `messageQueue.add`
  MessageQueueSQLStore.add ethers.crypto finalMessage

def ensureCorrectKeyPurpose (message : SignedMessage) (walletAddress : JsString) :
    Promise Unit := do
  let messageHash ← .lift (calculateMessageHash ethers.crypto message.toUnsignedMessage)
  let key ← .lift (getKeyFromHashAndSignature ethers messageHash message.signature)
  let keyPurpose ← query (.getKeyPurpose walletAddress key)
  ensure (keyPurpose ≠ invalidKey) (.invalidSignature "Invalid key purpose")

def addSignatureToPendingMessage (messageHash : Bytes32) (message : SignedMessage) :
    Promise Unit := do
  let pendingMessage ← PendingMessagesSQLStore.get messageHash
  ensure (truthy pendingMessage.transactionHash = false) .duplicatedExecution
  let isContainSignature ← PendingMessagesSQLStore.containSignature messageHash message.signature
  ensure (isContainSignature = false) .duplicatedSignature
  ensureCorrectKeyPurpose ethers message pendingMessage.walletAddress
  PendingMessagesSQLStore.addSignature ethers messageHash message.signature

def add (message : SignedMessage) : Promise MessageStatus := do
  let messageHash ← .lift (calculateMessageHash ethers.crypto message.toUnsignedMessage)
  let present ← isPresent messageHash
  (if present then pure ()
    else PendingMessagesSQLStore.add messageHash (createPendingMessage message.from_))
  addSignatureToPendingMessage ethers messageHash message
  let status ← getStatus messageHash
  let isEnough ← isEnoughSignatures messageHash
  if isEnough then do
    let queued ← onReadyToExecute ethers messageHash message
    return { status with messageHash := some queued }
  else return status

def confirmExecution (messageHash : Bytes32) (transactionHash : JsString) : Promise Unit := do
  ensure (transactionHash.length = 66) (.invalidTransaction transactionHash)
  PendingMessagesSQLStore.setTransactionHash messageHash transactionHash

def get (messageHash : Bytes32) : Promise PendingMessage := PendingMessagesSQLStore.get messageHash

def remove (messageHash : Bytes32) : Promise PendingMessage :=
  PendingMessagesSQLStore.remove messageHash

end PendingMessages

/-! ## Preconditions -/

section
variable {wallets : Address → Option Storage} {awaited : Query → Database → Prop}
  {failed : JsError → Database → Prop} {db : Database} {messageHash : Bytes32}

theorem wp_query {post : q.Answer → Database → Prop} :
    wp (Query.Answers wallets) awaited failed post (query q) db ↔
      awaited q db ∧ (∀ a db', q.Effect wallets db a db' → post a db') ∧ ∀ e, failed e db := by
  rw [query, wp_perform]
  refine and_congr_right' (and_congr_right' ⟨fun h e => h e db rfl, ?_⟩)
  rintro h e _ rfl
  exact h e

theorem wp_lift {post : α → Database → Prop} {x : Except String α} (hfailed : ∀ e, failed e db)
    (hpost : ∀ a, x = .ok a → post a db) :
    wp (Query.Answers wallets) awaited failed post (Promise.lift x) db := by
  cases x with
  | ok a => exact hpost a rfl
  | error e => exact hfailed (.thrown e)

theorem wp_ensure {post : Unit → Database → Prop} {condition : Prop} [Decidable condition]
    (hfailed : ∀ e, failed e db) (hpost : condition → post () db) :
    wp (Query.Answers wallets) awaited failed post (ensure condition e) db := by
  by_cases h : condition
  · rw [ensure, if_pos h]
    exact hpost h
  · rw [ensure, if_neg h]
    exact hfailed (.relayer e)

/-- The query hands a message over to the queue. -/
def Query.Enqueues : Query → Prop
  | insertFinalMessage _ _ => True
  | _ => False

variable (hawaited : ∀ q db, ¬ q.Enqueues → awaited q db) (hfailed : ∀ e, failed e db)
include hawaited hfailed

theorem wp_getMessage {post : Option MessageRow → Database → Prop}
    (hpost : post (db.messages.find? (·.messageHash = messageHash)) db) :
    wp (Query.Answers wallets) awaited failed post
      (PendingMessagesSQLStore.getMessage messageHash) db := by
  refine wp_query.mpr ⟨hawaited _ _ id, ?_, hfailed⟩
  rintro _ _ ⟨rfl, rfl⟩
  exact hpost

theorem wp_getCollectedSignatureKeyPairs {post : List CollectedSignatureKeyPair → Database → Prop}
    (hpost : ∀ pairs, pairs.Perm (db.collected messageHash) → post pairs db) :
    wp (Query.Answers wallets) awaited failed post
      (PendingMessagesSQLStore.getCollectedSignatureKeyPairs messageHash) db := by
  refine wp_query.mpr ⟨hawaited _ _ id, ?_, hfailed⟩
  rintro pairs _ ⟨hpairs, rfl⟩
  exact hpost pairs hpairs

theorem wp_get {post : PendingMessage → Database → Prop}
    (hpost : ∀ row ∈ db.messages, row.messageHash = messageHash →
      ∀ pairs : List CollectedSignatureKeyPair, pairs.Perm (db.collected messageHash) →
        post ⟨pairs, row.transactionHash, row.walletAddress⟩ db) :
    wp (Query.Answers wallets) awaited failed post
      (PendingMessagesSQLStore.get messageHash) db := by
  refine wp_bind.mpr (wp_getMessage hawaited hfailed ?_)
  cases hrow : db.messages.find? (·.messageHash = messageHash) with
  | none => exact hfailed _
  | some row =>
    refine wp_bind.mpr (wp_getCollectedSignatureKeyPairs hawaited hfailed fun pairs hpairs => ?_)
    have hhash : row.messageHash = messageHash := by simpa using List.find?_some hrow
    exact hpost row (List.mem_of_find?_eq_some hrow) hhash pairs hpairs

theorem wp_isPresent {post : Bool → Database → Prop} (hpost : ∀ present, post present db) :
    wp (Query.Answers wallets) awaited failed post (PendingMessages.isPresent messageHash) db := by
  refine wp_bind.mpr (wp_getMessage hawaited hfailed ?_)
  refine wp_bind.mpr (wp_getCollectedSignatureKeyPairs hawaited hfailed fun pairs _ => ?_)
  exact hpost _

theorem wp_containSignature {post : Bool → Database → Prop}
    (hpost : ∀ contained, post contained db) :
    wp (Query.Answers wallets) awaited failed post
      (PendingMessagesSQLStore.containSignature messageHash signature) db := by
  refine wp_bind.mpr (wp_query.mpr ⟨hawaited _ _ id, ?_, hfailed⟩)
  rintro row _ ⟨_, rfl⟩
  exact hpost _

theorem wp_getStatus {post : MessageStatus → Database → Prop}
    (hpost : ∀ row ∈ db.messages, row.messageHash = messageHash →
      ∀ pairs : List CollectedSignatureKeyPair, pairs.Perm (db.collected messageHash) →
        ∀ required, Query.Requires wallets row.walletAddress required →
          post ⟨none, pairs.map (·.signature), pairs.length, required, row.transactionHash⟩ db) :
    wp (Query.Answers wallets) awaited failed post
      (PendingMessagesSQLStore.getStatus messageHash) db := by
  refine wp_bind.mpr (wp_get hawaited hfailed fun row hrow hhash pairs hpairs => ?_)
  refine wp_bind.mpr (wp_query.mpr ⟨hawaited _ _ id, ?_, hfailed⟩)
  rintro required _ ⟨hrequired, rfl⟩
  exact hpost row hrow hhash pairs hpairs required hrequired

/-- As many pairs are collected for a message as its wallet requires. -/
def Enough (wallets : Address → Option Storage) (messageHash : Bytes32) (db : Database) : Prop :=
  ∃ row ∈ db.messages, row.messageHash = messageHash ∧ ∃ required,
    Query.Requires wallets row.walletAddress required ∧
      required.toNat ≤ (db.collected messageHash).length

theorem wp_isEnoughSignatures {post : Bool → Database → Prop}
    (hpost : ∀ enough, (enough = true → Enough wallets messageHash db) → post enough db) :
    wp (Query.Answers wallets) awaited failed post
      (PendingMessages.isEnoughSignatures messageHash) db := by
  refine wp_bind.mpr (wp_getStatus hawaited hfailed ?_)
  intro row hrow hhash pairs hpairs required hrequired
  refine hpost _ fun henough => ⟨row, hrow, hhash, required, hrequired, ?_⟩
  rw [← hpairs.length_eq]
  exact of_decide_eq_true henough

theorem wp_ensureCorrectExecution {post : Unit → Database → Prop}
    (hpost : Enough wallets messageHash db → post () db) :
    wp (Query.Answers wallets) awaited failed post
      (PendingMessages.ensureCorrectExecution messageHash) db := by
  refine wp_bind.mpr (wp_getStatus hawaited hfailed fun _ _ _ _ _ _ _ => ?_)
  refine wp_bind.mpr (wp_ensure hfailed fun _ => ?_)
  refine wp_bind.mpr (wp_isEnoughSignatures hawaited hfailed fun enough henough => ?_)
  exact wp_ensure hfailed fun h => hpost (henough h)

theorem wp_getMessageWithSignatures {message : SignedMessage}
    {post : SignedMessage → Database → Prop}
    (hpost : ∀ pairs sorted signature, pairs.Perm (db.collected messageHash) →
      sortSignatureKeyPairsByKey pairs = .ok sorted →
      concatenateSignatures (sorted.map (·.signature)) = .ok signature →
        post { message with signature } db) :
    wp (Query.Answers wallets) awaited failed post
      (PendingMessages.getMessageWithSignatures message messageHash) db := by
  refine wp_bind.mpr (wp_getCollectedSignatureKeyPairs hawaited hfailed fun pairs hpairs => ?_)
  refine wp_bind.mpr (wp_lift hfailed fun sorted hsorted => ?_)
  refine wp_bind.mpr (wp_lift hfailed fun signature hsignature => ?_)
  exact hpost pairs sorted signature hpairs hsorted hsignature

theorem wp_ensureCorrectKeyPurpose {ethers : Ethers} {message : SignedMessage}
    {post : Unit → Database → Prop}
    (hpost : ∀ hash key purpose,
      calculateMessageHash ethers.crypto message.toUnsignedMessage = .ok hash →
      getKeyFromHashAndSignature ethers hash message.signature = .ok key →
      Query.HasPurpose wallets walletAddress key purpose → purpose ≠ invalidKey → post () db) :
    wp (Query.Answers wallets) awaited failed post
      (PendingMessages.ensureCorrectKeyPurpose ethers message walletAddress) db := by
  refine wp_bind.mpr (wp_lift hfailed fun hash hhash => ?_)
  refine wp_bind.mpr (wp_lift hfailed fun key hkey => ?_)
  refine wp_bind.mpr (wp_query.mpr ⟨hawaited _ _ id, ?_, hfailed⟩)
  rintro purpose _ ⟨hpurpose, rfl⟩
  exact wp_ensure hfailed fun hne => hpost hash key purpose hhash hkey hpurpose hne

end

end UniversalLogin
