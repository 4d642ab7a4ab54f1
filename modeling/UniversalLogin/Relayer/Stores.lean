import UniversalLogin.Commons.MessageSignatures
import UniversalLogin.Lib.Async
import Mathlib.Data.List.MinMax

/-!
# Stores

The tables of the relayer, the queries that it makes of them and of the chain, and the stores that
make them (`PendingMessagesSQLStore.ts`, `MessageQueueSQLStore.ts`, `authorisationService.ts`). Each
query is answered on its own: a store function that awaits two of them may see two states of the
tables.

`messages` and `finalMessages` have the message hash for a primary key; `signature_key_pairs` refers
to `messages` and has no key but a counter. Any query may be rejected, and then has had no effect.
Rows come in any order. A contract that is called at the address of a wallet answers from the
storage of the wallet; other answers of the chain may be any.
-/

namespace UniversalLogin

/-! ## Errors -/

inductive ErrorType
  | InvalidSignature
  | DuplicatedSignature
  | DuplicatedExecution
  | NotEnoughSignatures
  | InvalidTransaction
  | InvalidExecution
  | NotEnoughGas
  | NotEnoughBalance
  deriving DecidableEq

inductive RelayerError
  | invalidSignature (additionalMessage : String)
  | notEnoughSignatures (requiredSignatures : Uint256) (actualSignatures : Nat)
  | invalidTransaction (transactionHash : JsString)
  | invalidMessage (hash : Bytes32)
  | duplicatedSignature
  | duplicatedExecution
  | invalidContract (contractAddress : JsString)
  | invalidProxy (address : JsString) (proxyHash : Bytes32) (supportedProxyHashes : List Bytes32)
  | notEnoughGas
  | notEnoughTokens
  deriving DecidableEq

/-- A hash as a string. -/
def hashString (hash : Bytes32) : JsString := hexlify (packUint256 hash)

namespace RelayerError

def message : RelayerError → String
  | invalidSignature additionalMessage => "Invalid signature " ++ additionalMessage
  | notEnoughSignatures requiredSignatures actualSignatures =>
    "Not enough signatures, required " ++ toString requiredSignatures.toNat ++ ", got only " ++
      toString actualSignatures
  | invalidTransaction transactionHash => "Invalid transaction: " ++ String.ofList transactionHash
  | invalidMessage hash =>
    "Could not find message with hash: " ++ String.ofList (hashString hash)
  | duplicatedSignature => "Signature already collected"
  | duplicatedExecution => "Execution request already processed"
  | invalidContract contractAddress =>
    "Invalid contract address: " ++ String.ofList contractAddress
  | invalidProxy address proxyHash supportedProxyHashes =>
    "Invalid proxy at address '" ++ String.ofList address ++
      "'. Deployed contract bytecode hash: '" ++ String.ofList (hashString proxyHash) ++
      "'. Supported bytecode hashes: [" ++
      ",".intercalate (supportedProxyHashes.map fun hash => String.ofList (hashString hash)) ++ "]"
  | notEnoughGas => "Not enough gas"
  | notEnoughTokens => "Not enough tokens"

def errorType : RelayerError → ErrorType
  | invalidSignature _ => .InvalidSignature
  | notEnoughSignatures _ _ => .NotEnoughSignatures
  | invalidTransaction _ => .InvalidTransaction
  | invalidMessage _ => .InvalidExecution
  | duplicatedSignature => .DuplicatedSignature
  | duplicatedExecution => .DuplicatedExecution
  | invalidContract _ => .InvalidSignature
  | invalidProxy _ _ _ => .InvalidSignature
  | notEnoughGas => .NotEnoughGas
  | notEnoughTokens => .NotEnoughBalance

end RelayerError

/-- What a promise is rejected with: an error of the relayer's own, or what ethers, the database or
the contract call throws. -/
inductive JsError
  | relayer (e : RelayerError)
  | thrown (text : String)
  deriving DecidableEq

/-- `${error.name}: ${error.message}`, where the classes of thrown errors are not told apart. -/
def JsError.text : JsError → JsString
  | relayer e => ("Error: " ++ e.message).toList
  | thrown text => ("Error: " ++ text).toList

/-! ## Tables -/

structure CollectedSignatureKeyPair where
  key : JsString
  signature : JsString
  deriving DecidableEq

structure PendingMessage where
  collectedSignatureKeyPairs : List CollectedSignatureKeyPair
  transactionHash : Option JsString
  walletAddress : JsString
  deriving DecidableEq

/-- A row of `messages`. -/
structure MessageRow where
  messageHash : Bytes32
  transactionHash : Option JsString
  walletAddress : JsString
  deriving DecidableEq

/-- A row of `signature_key_pairs`. -/
structure SignatureKeyPairRow extends CollectedSignatureKeyPair where
  messageHash : Bytes32
  deriving DecidableEq

/-- A row of `finalMessages`. -/
structure FinalMessageRow where
  messageHash : Bytes32
  message : SignedMessage
  transactionHash : Option JsString
  error : Option JsString
  createdAt : Nat
  deriving DecidableEq

/-- What an update of `finalMessages` sets. -/
structure QueueItem where
  transactionHash : Option JsString := none
  error : Option JsString := none
  deriving DecidableEq

namespace FinalMessageRow

/-- The row that `getNext` selects for. -/
def isOpen (row : FinalMessageRow) : Prop := row.transactionHash = none ∧ row.error = none

instance (row : FinalMessageRow) : Decidable row.isOpen := inferInstanceAs (Decidable (_ ∧ _))

/-- What is `undefined` in the item is left as it is. -/
def update (row : FinalMessageRow) (data : QueueItem) : FinalMessageRow :=
  { row with
    transactionHash := data.transactionHash.or row.transactionHash
    error := data.error.or row.error }

end FinalMessageRow

/-- A row of `authorisations`. -/
structure AuthorisationRow where
  walletContractAddress : JsString
  key : JsString
  deriving DecidableEq

structure Database where
  messages : List MessageRow
  signatureKeyPairs : List SignatureKeyPairRow
  finalMessages : List FinalMessageRow
  authorisations : List AuthorisationRow
  deriving DecidableEq

namespace Database

def empty : Database := ⟨[], [], [], []⟩

/-- The pairs collected for a message hash. -/
def collected (db : Database) (messageHash : Bytes32) : List CollectedSignatureKeyPair :=
  (db.signatureKeyPairs.filter (·.messageHash = messageHash)).map (·.toCollectedSignatureKeyPair)

theorem mem_collected {db : Database} : pair ∈ db.collected messageHash ↔
    ∃ row ∈ db.signatureKeyPairs, row.messageHash = messageHash ∧
      row.toCollectedSignatureKeyPair = pair := by
  simp [collected, and_assoc]

end Database

/-! ## Transactions -/

/-- A transaction that the wallet of the relayer is asked to send. Its value is always 0. -/
structure TransactionRequest where
  gasPrice : BigNumberish
  gasLimit : BigNumberish
  to_ : JsString
  data : Bytes
  deriving DecidableEq

/-- A transaction that was sent. The hash of it is never null. -/
structure TransactionResponse where
  hash : JsString
  to_ : Address
  data : Bytes
  deriving DecidableEq

/-! ## Queries -/

inductive Query
  | selectMessage (messageHash : Bytes32)
  | insertMessage (row : MessageRow)
  | updateMessage (messageHash : Bytes32) (transactionHash : JsString)
  | deleteMessage (messageHash : Bytes32)
  | selectSignatureKeyPairs (messageHash : Bytes32)
  | selectSignature (messageHash : Bytes32) (signature : JsString)
  | insertSignatureKeyPair (row : SignatureKeyPairRow)
  | deleteSignatureKeyPairs (messageHash : Bytes32)
  | insertFinalMessage (messageHash : Bytes32) (message : SignedMessage)
  | selectNextFinalMessage
  | selectFinalMessage (messageHash : Bytes32)
  | updateFinalMessage (messageHash : Bytes32) (data : QueueItem)
  | deleteAuthorisation (walletContractAddress key : JsString)
  | requiredSignatures (walletAddress : JsString)
  | getKeyPurpose (walletAddress key : JsString)
  | getCode (address : JsString)
  | getBalance (address : JsString)
  | balanceOf (token address : JsString)
  | estimateGas (transaction : TransactionRequest) (sender : JsString)
  | sendTransaction (transaction : TransactionRequest)
  | waitForTransaction (transactionHash : JsString)
  deriving DecidableEq

namespace Query

abbrev Answer : Query → Type
  | selectMessage _ => Option MessageRow
  | selectSignatureKeyPairs _ => List CollectedSignatureKeyPair
  | selectSignature _ _ => Option SignatureKeyPairRow
  | selectNextFinalMessage => Option FinalMessageRow
  | selectFinalMessage _ => Option FinalMessageRow
  | requiredSignatures _ => Uint256
  | getKeyPurpose _ _ => Uint256
  | getCode _ => Bytes
  | getBalance _ => Uint256
  | balanceOf _ _ => Uint256
  | estimateGas _ _ => Uint256
  | sendTransaction _ => TransactionResponse
  | _ => Unit

variable (wallets : Address → Option Storage)

/-- What the contract at an address may answer for its `requiredSignatures`. -/
def Requires (walletAddress : JsString) (n : Uint256) : Prop :=
  ∃ wallet, toAddress walletAddress = some wallet ∧
    ∀ s, wallets wallet = some s → n = s.requiredSignatures

/-- What the contract at an address may answer for the purpose of a key. -/
def HasPurpose (walletAddress key : JsString) (purpose : Uint256) : Prop :=
  ∃ wallet k, toAddress walletAddress = some wallet ∧ toAddress key = some k ∧
    ∀ s, wallets wallet = some s → purpose = s.getKeyPurpose k

/-- The answers that a query may be given, and the tables after it. -/
def Effect : (q : Query) → Database → q.Answer → Database → Prop
  | selectMessage messageHash, db, row, db' =>
    row = db.messages.find? (·.messageHash = messageHash) ∧ db' = db
  | insertMessage row, db, _, db' =>
    (∀ r ∈ db.messages, r.messageHash ≠ row.messageHash) ∧
      db' = { db with messages := db.messages ++ [row] }
  | updateMessage messageHash transactionHash, db, _, db' =>
    db' = { db with messages := db.messages.map fun r =>
      if r.messageHash = messageHash then { r with transactionHash := some transactionHash } else r }
  | deleteMessage messageHash, db, _, db' =>
    (∀ r ∈ db.signatureKeyPairs, r.messageHash ≠ messageHash) ∧
      db' = { db with messages := db.messages.filter (·.messageHash ≠ messageHash) }
  | selectSignatureKeyPairs messageHash, db, pairs, db' =>
    pairs.Perm (db.collected messageHash) ∧ db' = db
  | selectSignature messageHash signature, db, row, db' =>
    row = db.signatureKeyPairs.find?
      (fun r => r.messageHash = messageHash ∧ r.signature = signature) ∧ db' = db
  | insertSignatureKeyPair row, db, _, db' =>
    (∃ r ∈ db.messages, r.messageHash = row.messageHash) ∧
      db' = { db with signatureKeyPairs := db.signatureKeyPairs ++ [row] }
  | deleteSignatureKeyPairs messageHash, db, _, db' =>
    db' = { db with
      signatureKeyPairs := db.signatureKeyPairs.filter (·.messageHash ≠ messageHash) }
  | insertFinalMessage messageHash message, db, _, db' =>
    (∀ r ∈ db.finalMessages, r.messageHash ≠ messageHash) ∧ ∃ now,
      db' = { db with finalMessages := db.finalMessages ++
        [⟨messageHash, stringifySignedMessageFields message, none, none, now⟩] }
  | selectNextFinalMessage, db, row, db' =>
    (∀ r ∈ db.finalMessages, r.isOpen → ∃ next ∈ row, next.createdAt ≤ r.createdAt) ∧
      (∀ next ∈ row, next ∈ db.finalMessages ∧ next.isOpen) ∧ db' = db
  | selectFinalMessage messageHash, db, row, db' =>
    row = db.finalMessages.find? (·.messageHash = messageHash) ∧ db' = db
  | updateFinalMessage messageHash data, db, _, db' =>
    db' = { db with finalMessages := db.finalMessages.map fun r =>
      if r.messageHash = messageHash then r.update data else r }
  | deleteAuthorisation walletContractAddress key, db, _, db' =>
    db' = { db with authorisations := db.authorisations.filter fun r =>
      ¬ (r.walletContractAddress = walletContractAddress ∧ r.key = key) }
  | requiredSignatures walletAddress, db, n, db' =>
    Requires wallets walletAddress n ∧ db' = db
  | getKeyPurpose walletAddress key, db, purpose, db' =>
    HasPurpose wallets walletAddress key purpose ∧ db' = db
  | getCode _, db, _, db' | getBalance _, db, _, db' | balanceOf _ _, db, _, db'
  | estimateGas _ _, db, _, db' | waitForTransaction _, db, _, db' => db' = db
  | sendTransaction transaction, db, response, db' =>
    toAddress transaction.to_ = some response.to_ ∧ response.data = transaction.data ∧ db' = db

/-- A query is answered, or rejected. -/
def Answers (q : Query) (db : Database) : Except JsError q.Answer → Database → Prop
  | .ok a, db' => q.Effect wallets db a db'
  | .error _, db' => db' = db

/-- One way to answer: rows come in the order they were inserted in, which is that of their times.
What is not the address of a wallet is rejected, and so is what is asked of the chain but is not
known of it. -/
def answer : (q : Query) → Database → Except JsError q.Answer × Database
  | selectMessage messageHash, db => (.ok (db.messages.find? (·.messageHash = messageHash)), db)
  | insertMessage row, db =>
    if ∀ r ∈ db.messages, r.messageHash ≠ row.messageHash then
      (.ok (), { db with messages := db.messages ++ [row] })
    else (.error (.thrown "duplicate key value violates unique constraint"), db)
  | updateMessage messageHash transactionHash, db =>
    (.ok (), { db with messages := db.messages.map fun r =>
      if r.messageHash = messageHash then { r with transactionHash := some transactionHash } else r })
  | deleteMessage messageHash, db =>
    if ∀ r ∈ db.signatureKeyPairs, r.messageHash ≠ messageHash then
      (.ok (), { db with messages := db.messages.filter (·.messageHash ≠ messageHash) })
    else (.error (.thrown "update or delete violates foreign key constraint"), db)
  | selectSignatureKeyPairs messageHash, db => (.ok (db.collected messageHash), db)
  | selectSignature messageHash signature, db =>
    (.ok (db.signatureKeyPairs.find?
      fun r => r.messageHash = messageHash ∧ r.signature = signature), db)
  | insertSignatureKeyPair row, db =>
    if ∃ r ∈ db.messages, r.messageHash = row.messageHash then
      (.ok (), { db with signatureKeyPairs := db.signatureKeyPairs ++ [row] })
    else (.error (.thrown "insert or update violates foreign key constraint"), db)
  | deleteSignatureKeyPairs messageHash, db =>
    (.ok (), { db with
      signatureKeyPairs := db.signatureKeyPairs.filter (·.messageHash ≠ messageHash) })
  | insertFinalMessage messageHash message, db =>
    if ∀ r ∈ db.finalMessages, r.messageHash ≠ messageHash then
      (.ok (), { db with finalMessages := db.finalMessages ++
        [⟨messageHash, stringifySignedMessageFields message, none, none, db.finalMessages.length⟩] })
    else (.error (.thrown "duplicate key value violates unique constraint"), db)
  | selectNextFinalMessage, db =>
    (.ok ((db.finalMessages.filter (·.isOpen)).argmin (·.createdAt)), db)
  | selectFinalMessage messageHash, db =>
    (.ok (db.finalMessages.find? (·.messageHash = messageHash)), db)
  | updateFinalMessage messageHash data, db =>
    (.ok (), { db with finalMessages := db.finalMessages.map fun r =>
      if r.messageHash = messageHash then r.update data else r })
  | deleteAuthorisation walletContractAddress key, db =>
    (.ok (), { db with authorisations := db.authorisations.filter fun r =>
      ¬ (r.walletContractAddress = walletContractAddress ∧ r.key = key) })
  | requiredSignatures walletAddress, db =>
    match (toAddress walletAddress).bind wallets with
    | some s => (.ok s.requiredSignatures, db)
    | none => (.error (.thrown "contract not deployed"), db)
  | getKeyPurpose walletAddress key, db =>
    match (toAddress walletAddress).bind wallets, toAddress key with
    | some s, some k => (.ok (s.getKeyPurpose k), db)
    | _, _ => (.error (.thrown "contract not deployed"), db)
  | getCode _, db | getBalance _, db | balanceOf _ _, db | estimateGas _ _, db
  | sendTransaction _, db | waitForTransaction _, db => (.error (.thrown "invalid response"), db)

variable {wallets}

/-- Every query may be answered so. -/
theorem answers_answer (q : Query) (db : Database) :
    q.Answers wallets db (q.answer wallets db).1 (q.answer wallets db).2 := by
  cases q with
  | selectMessage _ | selectSignature _ _ | selectFinalMessage _ => exact ⟨rfl, rfl⟩
  | updateMessage _ _ | deleteSignatureKeyPairs _ | updateFinalMessage _ _
  | deleteAuthorisation _ _ => rfl
  | getCode _ | getBalance _ | balanceOf _ _ | estimateGas _ _ | sendTransaction _
  | waitForTransaction _ => rfl
  | selectSignatureKeyPairs _ => exact ⟨.refl _, rfl⟩
  | insertMessage _ | deleteMessage _ | insertSignatureKeyPair _ =>
    rw [answer]
    split
    · exact ⟨by assumption, rfl⟩
    · rfl
  | insertFinalMessage _ _ =>
    rw [answer]
    split
    · exact ⟨by assumption, _, rfl⟩
    · rfl
  | selectNextFinalMessage =>
    refine ⟨fun r hr hopen => ?_, fun next hnext => ?_, rfl⟩
    · have hmem : r ∈ db.finalMessages.filter (·.isOpen) := by simp [hr, hopen]
      cases hmin : (db.finalMessages.filter (·.isOpen)).argmin (·.createdAt) with
      | none => simp [List.argmin_eq_none.mp hmin] at hmem
      | some next => exact ⟨next, rfl, List.le_of_mem_argmin hmem hmin⟩
    · have hmem := List.argmin_mem hnext
      simpa using hmem
  | requiredSignatures walletAddress =>
    rw [answer]
    split
    · next s hs =>
      obtain ⟨wallet, hwallet, hs⟩ := Option.bind_eq_some_iff.mp hs
      exact ⟨⟨wallet, hwallet, fun s' hs' => by cases hs.symm.trans hs'; rfl⟩, rfl⟩
    · rfl
  | getKeyPurpose walletAddress key =>
    rw [answer]
    split
    · next s k hs hk =>
      obtain ⟨wallet, hwallet, hs⟩ := Option.bind_eq_some_iff.mp hs
      exact ⟨⟨wallet, k, hwallet, hk, fun s' hs' => by cases hs.symm.trans hs'; rfl⟩, rfl⟩
    · rfl

end Query

abbrev Promise := Async Query Query.Answer JsError

/-- To await a query. -/
def query (q : Query) : Promise q.Answer := .perform q

/-- A rejected promise, or a resolved one. -/
def Promise.lift (x : Except String α) : Promise α := .done (x.mapError .thrown)

def ensure (condition : Prop) [Decidable condition] (e : RelayerError) : Promise Unit :=
  if condition then pure () else .done (.error (.relayer e))

/-- `!!s` -/
def truthy : Option JsString → Bool
  | some (_ :: _) => true
  | _ => false

/-! ## What the relayer is given -/

/-- The hash function and `utils.verifyMessage`, which returns the address that has signed a hash.
-/
structure Ethers where
  crypto : Crypto
  verifyMessage : Bytes32 → JsString → Except String JsString

def getKeyFromHashAndSignature (ethers : Ethers) (messageHash : Bytes32) (signature : JsString) :
    Except String JsString :=
  ethers.verifyMessage messageHash signature

/-! ## Pending messages -/

structure MessageStatus where
  messageHash : Option Bytes32
  collectedSignatures : List JsString
  totalCollected : Nat
  required : Uint256
  transactionHash : Option JsString
  deriving DecidableEq

namespace PendingMessagesSQLStore

def add (messageHash : Bytes32) (pendingMessage : PendingMessage) : Promise Unit :=
  query (.insertMessage
    ⟨messageHash, pendingMessage.transactionHash, pendingMessage.walletAddress⟩)

def getMessage (messageHash : Bytes32) : Promise (Option MessageRow) :=
  query (.selectMessage messageHash)

def getCollectedSignatureKeyPairs (messageHash : Bytes32) :
    Promise (List CollectedSignatureKeyPair) :=
  query (.selectSignatureKeyPairs messageHash)

def get (messageHash : Bytes32) : Promise PendingMessage := do
  match ← getMessage messageHash with
  | none => .done (.error (.relayer (.invalidMessage messageHash)))
  | some message =>
    let signatureKeyPairs ← getCollectedSignatureKeyPairs messageHash
    return {
      transactionHash := message.transactionHash
      walletAddress := message.walletAddress
      collectedSignatureKeyPairs := signatureKeyPairs }

def isPresent (messageHash : Bytes32) : Promise Bool := do
  let message ← getMessage messageHash
  let signatureKeyPairs ← getCollectedSignatureKeyPairs messageHash
  return message.isSome || signatureKeyPairs.length ≠ 0

def remove (messageHash : Bytes32) : Promise PendingMessage := do
  let pendingMessage ← get messageHash
  query (.deleteSignatureKeyPairs messageHash)
  query (.deleteMessage messageHash)
  return pendingMessage

def getStatus (messageHash : Bytes32) : Promise MessageStatus := do
  let message ← get messageHash
  let required ← query (.requiredSignatures message.walletAddress)
  return {
    messageHash := none
    collectedSignatures := message.collectedSignatureKeyPairs.map (·.signature)
    totalCollected := message.collectedSignatureKeyPairs.length
    required
    transactionHash := message.transactionHash }

def addSignature (ethers : Ethers) (messageHash : Bytes32) (signature : JsString) :
    Promise Unit := do
  let key ← .lift (getKeyFromHashAndSignature ethers messageHash signature)
  query (.insertSignatureKeyPair { key, signature, messageHash })

def setTransactionHash (messageHash : Bytes32) (transactionHash : JsString) : Promise Unit :=
  query (.updateMessage messageHash transactionHash)

def containSignature (messageHash : Bytes32) (signature : JsString) : Promise Bool := do
  let foundSignature ← query (.selectSignature messageHash signature)
  return foundSignature.isSome

end PendingMessagesSQLStore

/-! ## The queue -/

/-- What `getNext` finds: the hash and the message of a row. -/
structure QueuedMessage where
  messageHash : Bytes32
  message : SignedMessage
  deriving DecidableEq

/-- What `getStatus` finds of a row. -/
structure QueueStatus where
  messageHash : Bytes32
  transactionHash : Option JsString
  error : Option JsString
  deriving DecidableEq

def FinalMessageRow.status (row : FinalMessageRow) : QueueStatus :=
  ⟨row.messageHash, row.transactionHash, row.error⟩

namespace MessageQueueSQLStore

def add (crypto : Crypto) (signedMessage : SignedMessage) : Promise Bytes32 := do
  let messageHash ← .lift (calculateMessageHash crypto signedMessage.toUnsignedMessage)
  query (.insertFinalMessage messageHash signedMessage)
  return messageHash

/-- `getNext` after its query has been answered. -/
def nextMessage (row : Option FinalMessageRow) : Except String (Option QueuedMessage) :=
  match row with
  | none => .ok none
  | some next => do
    let message ← bignumberifySignedMessageFields next.message
    return some ⟨next.messageHash, message⟩

def getNext : Promise (Option QueuedMessage) := do
  let next ← query .selectNextFinalMessage
  .lift (nextMessage next)

def update (messageHash : Bytes32) (data : QueueItem) : Promise Unit :=
  query (.updateFinalMessage messageHash data)

def markAsSuccess (messageHash : Bytes32) (transactionHash : JsString) : Promise Unit :=
  update messageHash { transactionHash }

def markAsError (messageHash : Bytes32) (error : JsString) : Promise Unit :=
  update messageHash { error }

def getStatus (messageHash : Bytes32) : Promise (Option QueueStatus) := do
  let row ← query (.selectFinalMessage messageHash)
  return row.map (·.status)

end MessageQueueSQLStore

/-! ## Authorisations -/

namespace AuthorisationService

def removeRequest (walletContractAddress key : JsString) : Promise Unit :=
  query (.deleteAuthorisation (toLowerCase walletContractAddress) (toLowerCase key))

end AuthorisationService

end UniversalLogin
