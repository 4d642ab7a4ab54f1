import UniversalLogin.Commons.MessageSigning
import UniversalLogin.Contracts.AdminCalldata
import UniversalLogin.Contracts.Provenance
import UniversalLogin.Relayer.Acceptance
import UniversalLogin.Relayer.SingleSigner
import UniversalLogin.Relayer.Transport

/-!
# UniversalLoginSDK

A message from the client that asks for it to the wallet that carries it out. The client completes
the message with its defaults and the nonce of the wallet and signs it (`sdk.ts`,
`createSignedMessage.ts`), the route reads it from JSON, the relayer stores the signature and queues
the message, the queue reads it again from JSON, and the executor encodes it as a transaction. If
the wallet requires one signature and the client has a key of it, the transaction makes the wallet
make the call that the client has asked for (`execute_carriedOut`), and so the four requests about
keys do what they ask for (`administration_carriedOut`).
-/

namespace UniversalLogin

open Async Reentrancy Transition

/-! ## Messages with missing fields -/

/-- Data as a program holds them, see `HeldMessage`. -/
structure HeldData where
  contents : Arrayish
  isArray : Bool

/-- `Message`, but for the signature, which is not read. -/
structure PartialMessage where
  gasToken : Option JsString := none
  operationType : Option Int := none
  to_ : Option JsString := none
  from_ : Option JsString := none
  nonce : Option BigNumberish := none
  gasLimit : Option BigNumberish := none
  gasPrice : Option BigNumberish := none
  data : Option HeldData := none
  value : Option BigNumberish := none

/-- `{...base, ...override}` -/
def PartialMessage.spread (base override : PartialMessage) : PartialMessage where
  gasToken := override.gasToken.or base.gasToken
  operationType := override.operationType.or base.operationType
  to_ := override.to_.or base.to_
  from_ := override.from_.or base.from_
  nonce := override.nonce.or base.nonce
  gasLimit := override.gasLimit.or base.gasLimit
  gasPrice := override.gasPrice.or base.gasPrice
  data := override.data.or base.data
  value := override.value.or base.value

/-- An unsigned message as a program holds it. -/
structure HeldUnsigned extends UnsignedMessage where
  isArray : Bool

/-- A message with all of its fields. -/
def PartialMessage.complete (m : PartialMessage) : Option HeldUnsigned := do
  let gasToken ← m.gasToken
  let operationType ← m.operationType
  let to_ ← m.to_
  let from_ ← m.from_
  let nonce ← m.nonce
  let gasLimit ← m.gasLimit
  let gasPrice ← m.gasPrice
  let data ← m.data
  let value ← m.value
  return { gasToken, operationType, to_, from_, nonce, gasLimit, gasPrice, value,
           data := data.contents, isArray := data.isArray }

/-- `MESSAGE_DEFAULTS` -/
def messageDefaults : PartialMessage where
  gasPrice := some (.number 1000000000)
  gasLimit := some (.number 1000000)
  operationType := some 0
  value := some (.number 0)
  data := some ⟨.string "0x0".toList, false⟩

/-- The data are `formatBytes32String('0')`. -/
def emptyMessage : PartialMessage where
  to_ := some []
  value := some (.bigNumber 0)
  data := some ⟨.string (hexlify (0x30 :: List.replicate 31 0)), false⟩
  nonce := some (.number 0)
  gasPrice := some (.bigNumber 1000000000)
  gasLimit := some (.bigNumber 1000000)
  gasToken := some etherNativeToken
  operationType := some 0

/-- A message without `from` cannot be packed. -/
def createSignedMessage (ethers : EthersWallets) (crypto : Crypto) (override : PartialMessage)
    (privateKey : JsString) : Except String HeldMessage :=
  match (emptyMessage.spread override).complete with
  | none => .error "cannot convert null value to array"
  | some message => do
    let signature ← calculateMessageSignature ethers crypto privateKey message.toUnsignedMessage
    return { message with signature }

/-! ## The client -/

/-- The client, with what it reads of the chain. -/
structure SDK where
  ethers : EthersWallets
  crypto : Crypto
  /-- `lastNonce` of the contract at an address. -/
  lastNonce : JsString → Except String Uint256
  paymentOptions : PartialMessage := {}

namespace SDK

variable (sdk : SDK)

def defaultPaymentOptions : PartialMessage := messageDefaults.spread sdk.paymentOptions

def getNonce (walletContractAddress privateKey : JsString) : Except String Uint256 := do
  let _ ← sdk.ethers.address privateKey
  sdk.lastNonce walletContractAddress

/-- `message.nonce || parseInt(await this.getNonce(message.from, privateKey), 10)` -/
def nonceOf (message : PartialMessage) (privateKey : JsString) : Except String BigNumberish :=
  match message.nonce.filter (·.truthy) with
  | some nonce => .ok nonce
  | none =>
    match message.from_ with
    | none => .error "cannot convert null value to array"
    | some from_ => do
      let nonce ← sdk.getNonce from_ privateKey
      return .number (nearestNumber nonce.toNat)

/-- `execute` up to its request. -/
def execute (message : PartialMessage) (privateKey : JsString) : Except String HeldMessage := do
  let nonce ← sdk.nonceOf message privateKey
  createSignedMessage sdk.ethers sdk.crypto
    { sdk.defaultPaymentOptions.spread message with nonce := some nonce } privateKey

/-- The message of a request about the keys of a wallet: a call of the wallet by itself. -/
def selfMessage (transactionDetails : PartialMessage) (to_ : JsString) (data : Bytes) :
    PartialMessage :=
  { transactionDetails with
    to_ := some to_
    from_ := some to_
    data := some ⟨.string (hexlify data), false⟩ }

def addKey (to_ publicKey privateKey : JsString) (transactionDetails : PartialMessage)
    (keyPurpose : Int) : Except String HeldMessage := do
  let key ← encodeAddress publicKey
  let purpose ← encodeUint 256 (.number keyPurpose)
  sdk.execute (selfMessage transactionDetails to_ (encodeCall 0xa2d39bdb [key, purpose])) privateKey

def addKeys (to_ : JsString) (publicKeys : List JsString) (privateKey : JsString)
    (transactionDetails : PartialMessage) (keyPurpose : Int) : Except String HeldMessage := do
  let keys ← publicKeys.mapM encodeAddress
  let keyRoles ← (List.replicate publicKeys.length keyPurpose).mapM fun keyRole =>
    encodeUint 256 (.number keyRole)
  let tail := encodeWords keys
  let data := encodeCall 0x775eed68 [64, BitVec.ofNat 256 (64 + tail.length)] ++ tail ++
    encodeWords keyRoles
  sdk.execute (selfMessage transactionDetails to_ data) privateKey

/-- Unlike the requests to add keys, this one and the next overwrite the value. -/
def removeKey (to_ address privateKey : JsString) (transactionDetails : PartialMessage) :
    Except String HeldMessage := do
  let key ← encodeAddress address
  let message := selfMessage transactionDetails to_
    (encodeCall 0x81dd7b8e [key, managementKey])
  sdk.execute { message with value := some (.number 0), operationType := some 0 } privateKey

def setRequiredSignatures (to_ : JsString) (requiredSignatures : Int) (privateKey : JsString)
    (transactionDetails : PartialMessage) : Except String HeldMessage := do
  let requiredSignatures ← encodeUint 256 (.number requiredSignatures)
  let message := selfMessage transactionDetails to_ (encodeCall 0x7d2b9cc0 [requiredSignatures])
  sdk.execute { message with value := some (.number 0), operationType := some 0 } privateKey

end SDK

/-! ## Calldata of `executeSigned` -/

/-- The wallet decodes the arguments that were encoded. -/
theorem dispatch_encodeExecuteSigned {args : ExecuteArgs} (hshort : args.Short) :
    dispatch code (encodeExecuteSigned args) = .executeSigned args := by
  obtain ⟨hdata, hsignatures⟩ : argBytes (encodeExecuteSigned args) 2 = some args.data ∧
      argBytes (encodeExecuteSigned args) 8 = some args.signatures :=
    argBytes_encoded _ _ 2 8 (by simp) rfl rfl hshort.data hshort.signatures
  obtain ⟨harity, hto, hvalue, hnonce, hprice, htoken, hlimit, htype⟩ :=
    words_encodeExecuteSigned args
  have htype : argOperationType (encodeExecuteSigned args) 7 = some args.operationType := by
    rw [argOperationType, htype]
    cases args.operationType <;> rfl
  refine dispatch_eq_of_decode 0x6d633064 decodeExecuteSigned ?_ ?_
    (fun code => by cases code <;> rfl) ?_
  · simp only [encodeExecuteSigned, List.length_append, length_encodeCall]
    omega
  · rw [encodeExecuteSigned, List.append_assoc]
    exact selector_encodeCall (by decide)
  · rw [decodeExecuteSigned, harity, hdata, hsignatures, hto, hvalue, hnonce, hprice, htoken,
      hlimit, htype]
    rfl

/-! ## What becomes of a request -/

/-- The client can sign a request, the route accepts it, and the call of the relayer for it comes to
an end if no query is rejected, in every run with one new row in the queue, of whose transaction `P`
holds. -/
def Delivers (restless : Restless) (ethers : Ethers) (wallets : Address → Option Storage)
    (db : Database) (request : Except String HeldMessage) (messageHash : Bytes32)
    (P : TransactionRequest → Prop) : Prop :=
  ∃ held received, request = .ok held ∧ held.received restless = some received ∧
    (∃ r db', Runs (Query.Fulfilled wallets) (db, PendingMessages.add ethers received)
      (db', .done r)) ∧
    ∀ r db', Runs (Query.Fulfilled wallets) (db, PendingMessages.add ethers received)
      (db', .done r) → ∃ status row queued tx,
        r = .ok status ∧ status.messageHash = some messageHash ∧
        db'.finalMessages = db.finalMessages ++ [row] ∧ row.isOpen ∧
        MessageQueueSQLStore.nextMessage (some row) = .ok (some ⟨messageHash, queued⟩) ∧
        messageToTransaction queued = .ok tx ∧ P tx

theorem Delivers.imp (h : Delivers restless ethers wallets db request messageHash P)
    (himp : ∀ tx, P tx → Q tx) : Delivers restless ethers wallets db request messageHash Q := by
  obtain ⟨held, received, hheld, hreceived, hend, hruns⟩ := h
  refine ⟨held, received, hheld, hreceived, hend, fun r db' hrun => ?_⟩
  obtain ⟨status, row, queued, tx, hr, hstatus, hrow, hopen, hnext, htx, hP⟩ := hruns r db' hrun
  exact ⟨status, row, queued, tx, hr, hstatus, hrow, hopen, hnext, htx, himp tx hP⟩

/-- The transaction calls the wallet with a message that it accepts in this state. -/
structure TransactionRequest.Executes (tx : TransactionRequest) (env : Env) (s : Storage)
    (m : Message) : Prop where
  to_ : toAddress tx.to_ = some env.this
  call : ∃ args : ExecuteArgs, args.toMessage = m ∧ args.Short ∧
    tx.data = encodeExecuteSigned args ∧
    ERC1077.executeSignedChecks env.crypto env.this args s = .ok ()

section
variable {sdk : SDK} {ethers : Ethers} {restless : Restless} {env : Env} {m : Message}
  {wallets : Address → Option Storage} {s : Storage} {privateKey : JsString} {db : Database}
  {message : PartialMessage} {unsigned : HeldUnsigned}

/-- The message that the client signs. -/
def SDK.Completes (sdk : SDK) (message : PartialMessage) (privateKey : JsString)
    (unsigned : HeldUnsigned) : Prop :=
  ∃ nonce, sdk.nonceOf message privateKey = .ok nonce ∧
    (emptyMessage.spread { sdk.defaultPaymentOptions.spread message with
      nonce := some nonce }).complete = some unsigned

/-- Client, relayer and wallet use the same hash functions, and the relayer and the wallet recover
the address of a key from what the client signs with it. -/
structure Wired (sdk : SDK) (ethers : Ethers) (restless : Restless) (env : Env)
    (messageHash : Bytes32) : Prop where
  client : sdk.crypto = env.crypto
  relayer : ethers.crypto = env.crypto
  restless : restless.Documented
  signs : sdk.ethers.SignsFor env.crypto messageHash
  verifies : ∀ k a, sdk.ethers.address k = .ok a → ∃ key,
    ethers.verifyMessage messageHash (sdk.ethers.signMessage k messageHash) = .ok key ∧
      toAddress key = some a

/-- The wallet accepts messages with one signature, and this key has a purpose. -/
structure Controls (sdk : SDK) (env : Env) (wallets : Address → Option Storage) (s : Storage)
    (privateKey : JsString) : Prop where
  wallet : wallets env.this = some s
  sound : s.Sound
  required : s.requiredSignatures.toNat ≤ 1
  key : ∃ a, sdk.ethers.address privateKey = .ok a ∧ s.keyExist a = true ∧
    s.getKeyPurpose a ≠ invalidKey

/-- What the client asks for is a message of the wallet with the nonce that the wallet expects. -/
structure Asked (sdk : SDK) (env : Env) (s : Storage) (privateKey : JsString)
    (message : PartialMessage) (unsigned : HeldUnsigned) (m : Message) : Prop where
  completes : sdk.Completes message privateKey unsigned
  args : unsigned.contractArgs = some (env.this, m)
  nonce : m.nonce = s.lastNonce
  plain : ∀ bs, unsigned.data = .bytes bs → unsigned.isArray = true
  short : m.data.length < 2 ^ 53

/-- The request is the signed message. -/
theorem SDK.execute_of_completes (hc : sdk.Completes message privateKey unsigned) :
    sdk.execute message privateKey = do
      let signature ← calculateMessageSignature sdk.ethers sdk.crypto privateKey
        unsigned.toUnsignedMessage
      return { unsigned with signature } := by
  obtain ⟨nonce, hnonce, hcomplete⟩ := hc
  have hcreate : createSignedMessage sdk.ethers sdk.crypto
      { sdk.defaultPaymentOptions.spread message with nonce := some nonce } privateKey = do
        let signature ← calculateMessageSignature sdk.ethers sdk.crypto privateKey
          unsigned.toUnsignedMessage
        return { unsigned with signature } := by
    rw [createSignedMessage, hcomplete]
  rw [← hcreate, SDK.execute, hnonce]
  rfl

/-- The client, which was made without payment options, reads the nonce of the wallet. -/
structure SDK.Reads (sdk : SDK) (env : Env) (s : Storage) (contractAddress : JsString) : Prop where
  this : toAddress contractAddress = some env.this
  lastNonce : sdk.lastNonce contractAddress = .ok s.lastNonce
  safe : s.lastNonce.toNat < 2 ^ 53
  paymentOptions : sdk.paymentOptions = {}

namespace SDK.Reads

variable {contractAddress : JsString}

/-- A message of the wallet is completed with the nonce of the wallet and the defaults. -/
theorem completes (h : sdk.Reads env s contractAddress)
    (haddress : sdk.ethers.address privateKey = .ok a)
    (hfrom : message.from_ = some contractAddress) (hnone : message.nonce = none)
    (hcomplete : (emptyMessage.spread { messageDefaults.spread message with
      nonce := some (.number (nearestNumber s.lastNonce.toNat)) }).complete = some unsigned) :
    sdk.Completes message privateKey unsigned := by
  refine ⟨.number (nearestNumber s.lastNonce.toNat), ?_, ?_⟩
  · have hnonce : sdk.getNonce contractAddress privateKey = .ok s.lastNonce := by
      rw [SDK.getNonce, haddress]
      exact h.lastNonce
    rw [SDK.nonceOf, hnone, hfrom]
    exact except_bind_eq_ok.mpr ⟨s.lastNonce, hnonce, rfl⟩
  · rw [SDK.defaultPaymentOptions, h.paymentOptions]
    exact hcomplete

theorem toUint256_nonce (h : sdk.Reads env s contractAddress) :
    toUint256 (.number (nearestNumber s.lastNonce.toNat)) = some s.lastNonce := by
  have hsafe : bigNumberify (.number s.lastNonce.toNat) = .ok (s.lastNonce.toNat : Int) :=
    if_pos (by simpa using h.safe)
  rw [nearestNumber_of_lt h.safe, toUint256, hsafe]
  simp only [Int.toNat_natCast, BitVec.ofNat_toNat, BitVec.setWidth_eq]
  exact if_pos ⟨by omega, by exact_mod_cast s.lastNonce.isLt⟩

end SDK.Reads

theorem toUint256_defaults : toUint256 (.number 1000000000) = some 1000000000 ∧
    toUint256 (.number 1000000) = some 1000000 ∧ toUint256 (.number 0) = some 0 := by decide

/-- A signed message of a key is accepted by the wallet. -/
theorem executeSignedChecks_of_signed {args : ExecuteArgs} (hsound : s.Sound)
    (hrequired : s.requiredSignatures.toNat ≤ 1) (hlength : args.signatures.length = 65)
    (hnonce : args.nonce = s.lastNonce)
    (hregistered : s.keyExist (ERC1077.chunkSigner env.crypto
      (ERC1077.signedHash env.crypto env.this args.toMessage) args.signatures) = true) :
    ERC1077.executeSignedChecks env.crypto env.this args s = .ok () := by
  refine ERC1077.executeSignedChecks_eq_ok.mpr ⟨by omega, ?_, hnonce, ?_⟩
  · have hsmall : (s.requiredSignatures * 65).toNat = s.requiredSignatures.toNat * 65 := by
      have hword : (65 : Uint256).toNat = 65 := rfl
      rw [BitVec.toNat_mul, hword, Nat.mod_eq_of_lt (by omega)]
    omega
  · exact areSignaturesValid_singleton hsound hlength hregistered

/-- A request is delivered with a transaction that the wallet executes. -/
theorem Asked.delivers (ha : Asked sdk env s privateKey message unsigned m)
    (hw : Wired sdk ethers restless env (ERC1077.calculateMessageHash env.crypto env.this m))
    (hc : Controls sdk env wallets s privateKey)
    (hfresh : db.Fresh (ERC1077.calculateMessageHash env.crypto env.this m)) :
    Delivers restless ethers wallets db (sdk.execute message privateKey)
      (ERC1077.calculateMessageHash env.crypto env.this m) (·.Executes env s m) := by
  obtain ⟨a, haddress, hexists, hpurpose⟩ := hc.key
  obtain ⟨bytes, hlength, hsign, hsigner⟩ := hw.signs.signs privateKey a haddress
  let held : HeldMessage := { unsigned with signature := hexlify bytes }
  have hheld : sdk.execute message privateKey = .ok held := by
    rw [SDK.execute_of_completes ha.completes, hw.client,
      calculateMessageSignature_eq ha.args haddress, hsign]
    rfl
  have hhash : calculateMessageHash env.crypto unsigned.toUnsignedMessage =
      .ok (ERC1077.calculateMessageHash env.crypto env.this m) :=
    calculateMessageHash_of_contractArgs ha.args
  obtain ⟨received, hreceived, hsame⟩ := held.exists_received hw.restless ha.plain
    (hasNumbers_of_calculateMessageHash hhash)
  -- the relayer has the message of the client, with its hash and its signature
  have hhash' : calculateMessageHash ethers.crypto received.toUnsignedMessage =
      .ok (ERC1077.calculateMessageHash env.crypto env.this m) := by
    rw [hsame.calculateMessageHash_eq, hw.relayer]
    exact hhash
  have hsignature : received.signature = hexlify bytes := hsame.signature
  obtain ⟨key, hverify, hkey⟩ := hw.verifies privateKey a haddress
  rw [hsign] at hverify
  have hsingle : SingleSigner ethers wallets received
      (ERC1077.calculateMessageHash env.crypto env.this m) s key := by
    constructor
    case hash => exact hhash'
    case wallet =>
      refine ⟨env.this, ?_, hc.wallet⟩
      rw [hsame.from_]
      exact (contractArgs_eq_some.mp ha.args).1
    case recovered => rwa [getKeyFromHashAndSignature, hsignature]
    case registered => exact ⟨a, hkey, hpurpose⟩
    case required => exact hc.required
    case signature => rw [hsignature, concatenateSignatures_singleton hlength]
  obtain ⟨hend, hruns⟩ := resolves_runs (hsingle.resolves_add hfresh)
  refine ⟨held, received, hheld, hreceived, hend, fun r db' hrun => ?_⟩
  obtain ⟨status, rfl, rfl, now, rfl⟩ := hruns r db' hrun
  -- what the queue reads is the same message again
  obtain ⟨queued, hqueued, hsame'⟩ := bignumberify_stringify hhash'
  have hargs : SignedMessage.executeArgs held.toSignedMessage =
      some (env.this, { m with signatures := bytes }) :=
    executeArgs_eq_some ha.args (by rw [toBytes, arrayify_hexlify])
  have hencode : encodeDataForExecuteSigned queued =
      .ok (encodeExecuteSigned { m with signatures := bytes }) := by
    rw [hsame'.encodeDataForExecuteSigned_eq, hsame.encodeDataForExecuteSigned_eq,
      encodeDataForExecuteSigned_eq hargs]
  let tx : TransactionRequest := ⟨queued.gasPrice, queued.gasLimit, queued.from_,
    encodeExecuteSigned { m with signatures := bytes }⟩
  refine ⟨_, ⟨_, stringifySignedMessageFields received, none, none, now⟩, queued, tx, rfl, rfl, rfl,
    ⟨rfl, rfl⟩, ?_, ?_, ?_, ?_⟩
  · rw [MessageQueueSQLStore.nextMessage, hqueued]
    rfl
  · rw [messageToTransaction, hencode]
    rfl
  · change toAddress queued.from_ = _
    rw [hsame'.from_, hsame.from_]
    exact (contractArgs_eq_some.mp ha.args).1
  · refine ⟨{ m with signatures := bytes }, rfl,
      ⟨ha.short, show bytes.length < 2 ^ 53 by omega⟩, rfl, ?_⟩
    refine executeSignedChecks_of_signed hc.sound hc.required hlength ha.nonce ?_
    rw [ERC1077.signedHash, hsigner]
    exact hexists

/-! ## The wallet -/

/-- The gas that is left covers the charge for the refund. -/
def Gas.Covers (gas : Gas) (args : ExecuteArgs) : Prop :=
  ∃ n, SafeMath.sub (gasAfter gas.starting gas.spent)
    (BitVec.ofNat 256 (ERC1077.refundGas args.gasToken)) = .ok n

/-- The transaction, whoever sends it, makes the wallet make the call of the message. -/
def TransactionRequest.CarriesOut (tx : TransactionRequest) (env : Env) (s : Storage)
    (m : Message) : Prop :=
  toAddress tx.to_ = some env.this ∧ ∃ args : ExecuteArgs, args.toMessage = m ∧
    ∀ sender gas w, HasCode env w.storage → w.storage = s → gas.Covers args →
      start env ⟨sender, 0, tx.data⟩ gas w = callOut env (w.setExecuted args)
        (executingFrame w ⟨sender, 0, tx.data⟩ args gas) m.to_ m.value m.data

theorem TransactionRequest.Executes.carriesOut {tx : TransactionRequest}
    (h : tx.Executes env s m) : tx.CarriesOut env s m := by
  obtain ⟨hto, args, rfl, hshort, hdata, hchecks⟩ := h
  have hcall : dispatch env.code tx.data = .executeSigned args :=
    hdata ▸ dispatch_encodeExecuteSigned hshort
  refine ⟨hto, args, rfl, fun sender gas w hcode hs hgas => ?_⟩
  obtain ⟨n, hn⟩ := hgas
  rw [start_eq hcode rfl, hcall]
  simp only [executeSigned, hs, hchecks, hn, executingFrame]

/-- A request for an administrative call: the message that is executed for it, and the function of
the client that executes it. -/
inductive SDK.Requests (sdk : SDK) (to_ privateKey : JsString) (details : PartialMessage) :
    AdminCall → PartialMessage → Except String HeldMessage → Prop
  | addKey : toAddress publicKey = some key → toUint256 (.number keyPurpose) = some purpose →
    SDK.Requests sdk to_ privateKey details (.addKey key purpose)
      (selfMessage details to_ (AdminCall.addKey key purpose).encode)
      (sdk.addKey to_ publicKey privateKey details keyPurpose)
  | addKeys : List.Forall₂ (fun publicKey key => toAddress publicKey = some key) publicKeys keys →
    toUint256 (.number keyPurpose) = some purpose → publicKeys.length < 2 ^ 53 →
    SDK.Requests sdk to_ privateKey details
      (.addKeys keys (List.replicate publicKeys.length purpose))
      (selfMessage details to_
        (AdminCall.addKeys keys (List.replicate publicKeys.length purpose)).encode)
      (sdk.addKeys to_ publicKeys privateKey details keyPurpose)
  | removeKey : toAddress address = some key →
    SDK.Requests sdk to_ privateKey details (.removeKey key managementKey)
      { selfMessage details to_ (AdminCall.removeKey key managementKey).encode with
        value := some (.number 0), operationType := some 0 }
      (sdk.removeKey to_ address privateKey details)
  | setRequiredSignatures : toUint256 (.number required) = some n →
    SDK.Requests sdk to_ privateKey details (.setRequiredSignatures n)
      { selfMessage details to_ (AdminCall.setRequiredSignatures n).encode with
        value := some (.number 0), operationType := some 0 }
      (sdk.setRequiredSignatures to_ required privateKey details)

theorem mapM_encodeAddress {publicKeys : List JsString} {keys : List Address}
    (h : List.Forall₂ (fun publicKey key => toAddress publicKey = some key) publicKeys keys) :
    publicKeys.mapM encodeAddress = .ok (keys.map (·.setWidth 256)) := by
  induction h with
  | nil => rfl
  | cons hkey _ ih =>
    rw [List.mapM_cons, encodeAddress_eq hkey, ih]
    rfl

theorem mapM_encodeUint_replicate (h : toUint256 (.number keyPurpose) = some purpose) (n : Nat) :
    (List.replicate n keyPurpose).mapM (fun keyRole => encodeUint 256 (.number keyRole)) =
      .ok (List.replicate n purpose) := by
  induction n with
  | zero => rfl
  | succ n ih =>
    rw [List.replicate_succ, List.mapM_cons, encodeUint_eq h, ih]
    rfl

namespace SDK.Requests

variable {to_ : JsString} {details : PartialMessage} {c : AdminCall}
  {request : Except String HeldMessage}

theorem execute_eq (h : sdk.Requests to_ privateKey details c message request) :
    request = sdk.execute message privateKey := by
  induction h with
  | addKey hkey hpurpose =>
    rw [SDK.addKey, encodeAddress_eq hkey, encodeUint_eq hpurpose]
    rfl
  | addKeys hkeys hpurpose _ =>
    rw [SDK.addKeys, mapM_encodeAddress hkeys, mapM_encodeUint_replicate hpurpose]
    rfl
  | removeKey hkey =>
    rw [SDK.removeKey, encodeAddress_eq hkey]
    rfl
  | setRequiredSignatures hrequired =>
    rw [SDK.setRequiredSignatures, encodeUint_eq hrequired]
    rfl

/-- The message is a call of the wallet by itself. -/
theorem self (h : sdk.Requests to_ privateKey details c message request) :
    message.to_ = some to_ ∧ message.from_ = some to_ ∧
      message.data = some ⟨.string (hexlify c.encode), false⟩ := by
  cases h <;> exact ⟨rfl, rfl, rfl⟩

theorem short (h : sdk.Requests to_ privateKey details c message request) : c.Short := by
  cases h with
  | addKeys hkeys _ hlength =>
    refine ⟨by rwa [← hkeys.length_eq], ?_⟩
    rwa [List.length_replicate]
  | addKey _ _ | removeKey _ | setRequiredSignatures _ => trivial

end SDK.Requests

theorem PartialMessage.complete_eq_some {message : PartialMessage} {unsigned : HeldUnsigned}
    (h : message.complete = some unsigned) :
    message.to_ = some unsigned.to_ ∧ message.from_ = some unsigned.from_ ∧
      message.data = some ⟨unsigned.data, unsigned.isArray⟩ := by
  simp only [complete, Option.bind_eq_bind, Option.bind_eq_some_iff, Option.pure_def,
    Option.some.injEq] at h
  obtain ⟨_, _, _, _, to_, hto, from_, hfrom, _, _, _, _, _, _, data, hdata, _, _, rfl⟩ := h
  exact ⟨hto, hfrom, hdata⟩

/-- What the message has itself is signed. -/
theorem SDK.Completes.fields (h : sdk.Completes message privateKey unsigned)
    (hto : message.to_ = some to_) (hfrom : message.from_ = some from_)
    (hdata : message.data = some data) :
    unsigned.to_ = to_ ∧ unsigned.from_ = from_ ∧ unsigned.data = data.contents := by
  obtain ⟨nonce, _, hcomplete⟩ := h
  obtain ⟨hto', hfrom', hdata'⟩ := PartialMessage.complete_eq_some hcomplete
  simp only [PartialMessage.spread, hto, hfrom, hdata, Option.some_or, Option.some.injEq]
    at hto' hfrom' hdata'
  exact ⟨hto'.symm, hfrom'.symm, congrArg HeldData.contents hdata'.symm⟩

/-- The transaction, whoever sends it, makes the wallet apply the call to itself, if the call can be
applied and the gas is paid for. -/
def TransactionRequest.Administers (tx : TransactionRequest) (env : Env) (s : Storage) (m : Message)
    (c : AdminCall) : Prop :=
  toAddress tx.to_ = some env.this ∧ ∃ args : ExecuteArgs, args.toMessage = m ∧
    ∀ sender w s' events g₁ g₂ g₃ g₄ g₅ amount, sender ≠ env.this → HasCode env w.storage →
      w.storage = s → Refunded w args g₁ g₃ amount →
      c.apply env.this env.this { s with lastNonce := s.lastNonce + 1 } = .ok (s', events) →
      ∃ w', run env (idle w) (selfTransaction ⟨sender, 0, tx.data⟩ g₁ g₂ g₃ g₄ g₅) =
          some (idle w') ∧
        w'.storage = s' ∧ w'.balance = w.balance - amount.toNat ∧
        w'.events = w.events ++ events ++ [.executedSigned
          (ERC1077.calculateMessageHash env.crypto env.this m) m.nonce true]

theorem TransactionRequest.Executes.administers {tx : TransactionRequest}
    (h : tx.Executes env s m) (hto : m.to_ = env.this) (hvalue : m.value = 0)
    (htoken : m.gasToken = 0) (hdata : dispatch env.code m.data = .admin c) :
    tx.Administers env s m c := by
  obtain ⟨htx, args, rfl, hshort, htxdata, hchecks⟩ := h
  have hcall : dispatch env.code tx.data = .executeSigned args :=
    htxdata ▸ dispatch_encodeExecuteSigned hshort
  refine ⟨htx, args, rfl, fun sender w s' events g₁ g₂ g₃ g₄ g₅ amount hsender hcode hs hr
    happly => ?_⟩
  subst hs
  have hc : Carries env w ⟨sender, 0, tx.data⟩ args c := by
    constructor
    case sender => exact hsender
    case code => exact hcode
    case unpaid => rfl
    case call => exact hcall
    case checks => exact hchecks
    case to_ => exact hto
    case value => exact hvalue
    case data => exact hdata
    case gasToken => exact htoken
  have hrun : run env (idle w) (selfTransaction ⟨sender, 0, tx.data⟩ g₁ g₂ g₃ g₄ g₅) =
      some (idle { administered env w args c s' events with
        balance := w.balance - amount.toNat }) :=
    (hc.run_selfTransaction (G := fun _ _ _ => True) hr happly trivial trivial).1
  exact ⟨_, hrun, rfl, rfl, rfl⟩

end

namespace Sample

/-- A client that signs one message. -/
def clientOf (crypto : Crypto) (signature : Signature) : SDK where
  ethers :=
    { address := fun s =>
        if s = actorKey then .ok actor else .error "exactly 32 bytes required"
      signMessage := fun _ _ => hexlify signature.bytes }
  crypto
  lastNonce _ := .ok 0

def relayerOf (crypto : Crypto) (messageHash : Bytes32) (signature : Signature) : Ethers where
  crypto
  verifyMessage hash bytes :=
    if hash = messageHash ∧ bytes = hexlify signature.bytes then .ok (keyString actor)
    else .error "invalid signature"

def envOf (crypto : Crypto) : Env := ⟨crypto, wallet, .erc1077⟩

theorem eq_actorKey_of_address (h : (clientOf crypto signature).ethers.address s = .ok a) :
    s = actorKey ∧ a = actor := by
  simp only [clientOf] at h
  split at h
  · next hs => exact ⟨hs, (Except.ok.inj h).symm⟩
  · cases h

theorem wiredOf {crypto : Crypto} {messageHash : Bytes32} {signature : Signature}
    (hsigner : ERC1077.chunkSigner crypto (crypto.toEthSignedMessageHash messageHash)
      signature.bytes = actor) :
    Wired (clientOf crypto signature) (relayerOf crypto messageHash signature) restless
      (envOf crypto) messageHash where
  client := rfl
  relayer := rfl
  restless := documented_restless
  signs := by
    constructor
    · intro s a h
      obtain ⟨rfl, rfl⟩ := eq_actorKey_of_address h
      exact ⟨_, arrayify_hexlify _, by decide⟩
    · intro s a h
      obtain ⟨rfl, rfl⟩ := eq_actorKey_of_address h
      exact ⟨signature.bytes, by simp [Signature.bytes], rfl, hsigner⟩
  verifies k a h := by
    obtain ⟨rfl, rfl⟩ := eq_actorKey_of_address h
    refine ⟨keyString actor, ?_, toAddress_hexlify actor⟩
    simp [relayerOf, clientOf]

def oneWallet (a : Address) : Option Storage := if a = wallet then some keyed.storage else none

theorem controlsOf (crypto : Crypto) (signature : Signature) :
    Controls (clientOf crypto signature) (envOf crypto) oneWallet keyed.storage actorKey where
  wallet := by simp [oneWallet, envOf]
  sound := (Bounded.reachable keyed_reachable).sound
  required := by decide
  key := ⟨actor, by simp [clientOf], by decide, by decide⟩

/-- The client pays one wei for gas. -/
def details : PartialMessage := { gasPrice := some (.number 1) }

def newcomerMessage : PartialMessage :=
  SDK.selfMessage details (keyString wallet) (AdminCall.addKey newcomer 1).encode

/-- The sample message with the numbers of the defaults. -/
def newcomerUnsigned : HeldUnsigned where
  gasToken := etherNativeToken
  operationType := 0
  to_ := keyString wallet
  from_ := keyString wallet
  nonce := .number 0
  gasLimit := .number 1000000
  gasPrice := .number 1
  data := .string (hexlify message.data)
  value := .number 0
  isArray := false

theorem readsOf (crypto : Crypto) (signature : Signature) :
    (clientOf crypto signature).Reads (envOf crypto) keyed.storage (keyString wallet) where
  this := toAddress_hexlify _
  lastNonce := rfl
  safe := by decide
  paymentOptions := rfl

theorem contractArgs_newcomerUnsigned :
    newcomerUnsigned.contractArgs = some (wallet, message) := by
  have hdata : toBytes newcomerUnsigned.data = some message.data := by
    rw [newcomerUnsigned, toBytes, arrayify_hexlify]
  refine contractArgs_eq_some.mpr ⟨toAddress_hexlify _, toAddress_hexlify _, ?_, hdata, ?_, ?_,
    toAddress_hexlify _, ?_, rfl⟩ <;> decide

theorem askedNewcomer :
    Asked (clientOf crypto byActor) env keyed.storage actorKey newcomerMessage newcomerUnsigned
      message where
  completes := by
    refine ⟨.number 0, ?_, rfl⟩
    have haddress : (clientOf crypto byActor).ethers.address actorKey = .ok actor := by
      simp [clientOf]
    have hnonce : (clientOf crypto byActor).getNonce (keyString wallet) actorKey = .ok 0 := by
      rw [SDK.getNonce]
      exact except_bind_eq_ok.mpr ⟨_, haddress, rfl⟩
    exact except_bind_eq_ok.mpr ⟨0, hnonce, rfl⟩
  args := contractArgs_newcomerUnsigned
  nonce := rfl
  plain bs h := nomatch h
  short := by decide

theorem wired : Wired (clientOf crypto byActor) (relayerOf crypto messageHash byActor) restless env
    messageHash :=
  wiredOf (by decide)

end Sample

end UniversalLogin
