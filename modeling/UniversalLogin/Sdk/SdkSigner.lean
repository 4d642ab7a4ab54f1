import UniversalLogin.Sdk.Execution
import UniversalLogin.Sdk.UniversalLoginSDK

/-!
# SdkSigner

The client as a signer of ethers (`SdkSigner.ts`). A transaction is asked for as a message of the
wallet, and `sendTransaction` resolves with the transaction of the hash that the status of the
message tells of. Whatever else the relayer does in between, and whoever else signs the message,
that is a transaction which the relayer has sent for a message with this hash
(`sendTransaction_broadcast`).
-/

namespace UniversalLogin

open Async Labelled

/-- A transaction with its promises resolved. Its nonce and its chain are not read. -/
structure SignerRequest where
  to_ : Option JsString := none
  data : Option HeldData := none
  gasLimit : Option BigNumberish := none
  gasPrice : Option BigNumberish := none
  value : Option BigNumberish := none

/-- The constructor throws if the key has no address. -/
structure SdkSigner (T : Type) where
  sdk : SDK
  contractAddress : JsString
  privateKey : JsString
  address : Address
  isAddress : sdk.ethers.address privateKey = .ok address
  /-- `provider.getTransaction` -/
  getTransaction : JsString → Except SDKError T

namespace SdkSigner

variable {T : Type} (signer : SdkSigner T)

def message (transaction : SignerRequest) : PartialMessage where
  from_ := some signer.contractAddress
  to_ := transaction.to_
  data := transaction.data
  gasLimit := transaction.gasLimit
  gasPrice := transaction.gasPrice
  value := transaction.value

/-- `sendTransaction` up to its request. -/
def request (transaction : SignerRequest) : Except String HeldMessage :=
  signer.sdk.execute (signer.message transaction) signer.privateKey

/-- `sendTransaction` after its request was answered with `status`, see `finishExecute`. -/
def finishSend (status : MessageStatus)
    (getStatus : Bytes32 → ℕ → Except SDKError SDKMessageStatus) (clock : Clock 1000) :
    Except SDKError T :=
  match UniversalLoginSDK.finishExecute status getStatus clock with
  | .error e => .error e
  | .ok status =>
    if truthy status.transactionHash then signer.getTransaction (status.transactionHash.getD [])
    else .error (.error "Transaction hash is not found in Message Status".toList)

theorem finishSend_eq_ok {getStatus : Bytes32 → ℕ → Except SDKError SDKMessageStatus}
    {clock : Clock 1000} (h : signer.finishSend status getStatus clock = .ok response) :
    ∃ status' transactionHash,
      UniversalLoginSDK.finishExecute status getStatus clock = .ok status' ∧
      status'.transactionHash = some transactionHash ∧
      signer.getTransaction transactionHash = .ok response := by
  rw [finishSend] at h
  split at h
  · cases h
  · next status' hfinish =>
    split at h
    · next htransaction =>
      cases hhash : status'.transactionHash with
      | none =>
        rw [hhash] at htransaction
        cases htransaction
      | some transactionHash =>
        rw [hhash] at h
        exact ⟨status', transactionHash, hfinish, hhash, h⟩
    · cases h

end SdkSigner

/-- What is missing in a transaction is taken from the defaults. -/
structure SignerRequest.Calls (transaction : SignerRequest) (m : Message) : Prop where
  to_ : ∃ to_, transaction.to_ = some to_ ∧ toAddress to_ = some m.to_
  value : toUint256 (transaction.value.getD (.number 0)) = some m.value
  data : toBytes (transaction.data.getD ⟨.string "0x0".toList, false⟩).contents = some m.data
  gasPrice : toUint256 (transaction.gasPrice.getD (.number 1000000000)) = some m.gasPrice
  gasLimit : toUint256 (transaction.gasLimit.getD (.number 1000000)) = some m.gasLimit
  gasToken : m.gasToken = 0
  operationType : m.operationType = .call

namespace SdkSigner

variable {T : Type} {signer : SdkSigner T} {transaction : SignerRequest} {env : Env} {s : Storage}
  {m : Message}

/-- The message that is signed for a transaction. -/
theorem completes_of_calls (hreads : signer.sdk.Reads env s signer.contractAddress)
    (hcalls : transaction.Calls m) (hnonce : m.nonce = s.lastNonce) :
    ∃ unsigned, signer.sdk.Completes (signer.message transaction) signer.privateKey unsigned ∧
      unsigned.contractArgs = some (env.this, m) := by
  obtain ⟨to_, hto, hreceiver⟩ := hcalls.to_
  let data := transaction.data.getD ⟨.string "0x0".toList, false⟩
  let unsigned : HeldUnsigned := {
    gasToken := etherNativeToken
    operationType := 0
    to_
    from_ := signer.contractAddress
    nonce := .number (nearestNumber s.lastNonce.toNat)
    gasLimit := transaction.gasLimit.getD (.number 1000000)
    gasPrice := transaction.gasPrice.getD (.number 1000000000)
    data := data.contents
    value := transaction.value.getD (.number 0)
    isArray := data.isArray }
  refine ⟨unsigned, hreads.completes signer.isAddress rfl rfl ?_, ?_⟩
  · simp only [PartialMessage.spread, message, messageDefaults, emptyMessage, hto, Option.or_some,
      Option.some_or, Option.none_or, Option.getD_some]
    rfl
  · obtain ⟨mto, value, mdata, nonce, gasPrice, gasToken, gasLimit, operationType⟩ := m
    obtain ⟨_, hvalue, hdata, hgasPrice, hgasLimit, rfl, rfl⟩ := hcalls
    cases hnonce
    exact contractArgs_eq_some.mpr ⟨hreads.this, hreceiver, hvalue, hdata, hreads.toUint256_nonce,
      hgasPrice, toAddress_hexlify _, hgasLimit, rfl⟩

end SdkSigner

/-! ## What the status tells of -/

section
variable {possible : Log → (q : Query) → Except JsError q.Answer → Prop} {log : Log}

/-- The status that `add` returns is that of a row of the message. -/
theorem follows_add_row {ethers : Ethers} {message : SignedMessage} :
    Follows possible (fun _ _ => True) (fun _ _ => True)
      (fun log status => ∃ messageHash row,
        calculateMessageHash ethers.crypto message.toUnsignedMessage = .ok messageHash ∧
        told (.selectMessage messageHash) (some row) ∈ log ∧
        status.transactionHash = row.transactionHash)
      log (PendingMessages.add ethers message) := by
  refine follows_bind.mpr (follows_lift (fun _ _ => trivial) fun hash hhash => ?_)
  refine follows_bind.mpr (follows_any fun log present => ?_)
  refine follows_bind.mpr (follows_any fun log _ => ?_)
  refine follows_bind.mpr (follows_any fun log _ => ?_)
  refine follows_bind.mpr (follows_getStatus (fun _ _ _ => trivial) (fun _ _ _ _ _ => trivial)
    (fun _ => trivial) fun row pairs required _ _ _ => ?_)
  have hrow : told (.selectMessage hash) (some row) ∈ log.status hash row pairs required := by
    simp [Log.status, Log.get]
  refine follows_bind.mpr ((follows_grown (List.prefix_refl _)).mono (fun _ _ _ h => h)
    (fun _ _ h => h) (fun _ _ _ => trivial) fun log isEnough hgrown => ?_)
  split
  · refine follows_bind.mpr ((follows_grown hgrown).mono (fun _ _ _ h => h)
      (fun _ _ h => h) (fun _ _ _ => trivial) fun log queued hgrown => ?_)
    exact ⟨hash, row, hhash, hgrown.subset hrow, rfl⟩
  · exact ⟨hash, row, hhash, hgrown.subset hrow, rfl⟩

end

namespace SdkSigner

section
variable {T C : Type} [DecidableEq C] {signer : SdkSigner T} {transaction : SignerRequest}
  {env : Env} {s : Storage} {m : Message} {restless : Restless} {ethers : Ethers}
  {wallets : Address → Option Storage} {executor : Executor} {requests : C → Request}
  {handler : Handler C} {held : HeldMessage} {posted : SignedMessage}

/-- The relayer receives a message with the hash of what is asked for. -/
theorem hash_of_request (hreads : signer.sdk.Reads env s signer.contractAddress)
    (hcalls : transaction.Calls m) (hnonce : m.nonce = s.lastNonce)
    (hrequest : signer.request transaction = .ok held) (hrestless : restless.Documented)
    (hreceived : held.received restless = some posted) :
    calculateMessageHash env.crypto posted.toUnsignedMessage =
      .ok (ERC1077.calculateMessageHash env.crypto env.this m) := by
  obtain ⟨unsigned, hcompletes, hargs⟩ := completes_of_calls hreads hcalls hnonce
  have hhash : calculateMessageHash env.crypto unsigned.toUnsignedMessage =
      .ok (ERC1077.calculateMessageHash env.crypto env.this m) :=
    calculateMessageHash_of_contractArgs hargs
  rw [request, SDK.execute_of_completes hcompletes] at hrequest
  obtain ⟨signature, _, hheld⟩ := except_bind_eq_ok.mp hrequest
  cases hheld
  obtain ⟨_, hreceived', hsame⟩ := HeldMessage.exists_received hrestless
    (HeldMessage.isPlain_of_received hrestless hreceived)
    (hasNumbers_of_calculateMessageHash hhash)
  cases hreceived.symm.trans hreceived'
  rw [hsame.calculateMessageHash_eq]
  exact hhash

/-- If `sendTransaction` resolves, then with the transaction of a hash that the relayer was answered
with when it sent a message for the call that was asked for. -/
theorem sendTransaction_broadcast
    {getStatus : Bytes32 → ℕ → Except SDKError SDKMessageStatus} {clock : Clock 1000}
    (hreads : signer.sdk.Reads env s signer.contractAddress)
    (hcalls : transaction.Calls m) (hnonce : m.nonce = s.lastNonce)
    (hrequest : signer.request transaction = .ok held) (hrestless : restless.Documented)
    (hreceived : held.received restless = some posted) (hcrypto : ethers.crypto = env.crypto)
    (hrun : Labelled.Run (Handler.Step wallets executor) (.initial ethers .empty requests) trace
      handler)
    (hserved : requests c = .handleMessage posted)
    (hstatus : (handler.calls c).rest = .done (.ok (.handled status)))
    (hpolls : Handler.Polls requests handler getStatus)
    (hresolves : signer.finishSend status getStatus clock = .ok response) :
    ∃ transactionHash, signer.getTransaction transactionHash = .ok response ∧
      Handler.Broadcast env.crypto trace (ERC1077.calculateMessageHash env.crypto env.this m)
        transactionHash := by
  have hhash := hash_of_request hreads hcalls hnonce hrequest hrestless hreceived
  obtain ⟨status', transactionHash, hfinish, hsome, hfound⟩ := signer.finishSend_eq_ok hresolves
  refine ⟨transactionHash, hfound, ?_⟩
  rw [← hcrypto] at hhash ⊢
  rcases UniversalLoginSDK.finishExecute_eq_ok hfinish with
    ⟨_, rfl⟩ | ⟨messageHash, k, found, hash, hqueued, hpolled, htransaction, rfl⟩
  · -- the row of the message had its transaction when `add` read the status
    obtain ⟨messageHash, row, hadded, hrow, heq⟩ :=
      Handler.add_of_handled follows_add_row hrun hserved hstatus
    cases hhash.symm.trans hadded
    rw [heq] at hsome
    exact (Handler.Reports.of_run hrun).clients c _ hrow transactionHash hsome
  · have hadded := Handler.add_of_handled follows_add_hash hrun hserved hstatus messageHash hqueued
    cases hhash.symm.trans hadded
    cases hsome
    obtain ⟨c', told, hasked, hdone, rfl⟩ := hpolls _ k found hpolled
    exact Handler.broadcast_of_status hrun hasked hdone transactionHash htransaction

end

end SdkSigner

namespace Sample

/-- The call of the sample message, at the price of the sample. -/
def newcomerTransaction : SignerRequest where
  to_ := some (keyString wallet)
  data := some ⟨.string (hexlify message.data), false⟩
  gasPrice := some (.number 1)

/-- A signer with the action key, and a chain that finds every transaction. -/
def sdkSigner : SdkSigner JsString where
  sdk := clientOf crypto byActor
  contractAddress := keyString wallet
  privateKey := actorKey
  address := actor
  isAddress := by simp [clientOf]
  getTransaction := .ok

theorem calls_newcomerTransaction : newcomerTransaction.Calls message where
  to_ := ⟨_, rfl, toAddress_hexlify _⟩
  value := by decide
  data := by
    rw [newcomerTransaction, Option.getD_some, toBytes, arrayify_hexlify]
  gasPrice := by decide
  gasLimit := by decide
  gasToken := rfl
  operationType := rfl

/-- What the relayer receives of the signer. -/
def postedBySigner : SignedMessage :=
  { newcomerUnsigned with
    nonce := .string "0".toList
    gasLimit := .bigNumber 1000000
    gasPrice := .bigNumber 1
    value := .bigNumber 0
    signature := hexlify byActor.bytes }

theorem request_newcomerTransaction :
    sdkSigner.request newcomerTransaction =
      .ok { newcomerUnsigned with signature := hexlify byActor.bytes } := by
  have hcompletes : sdkSigner.sdk.Completes (sdkSigner.message newcomerTransaction)
      sdkSigner.privateKey newcomerUnsigned :=
    (readsOf crypto byActor).completes sdkSigner.isAddress rfl rfl rfl
  have hsign : calculateMessageSignature sdkSigner.sdk.ethers crypto actorKey
      newcomerUnsigned.toUnsignedMessage = .ok (hexlify byActor.bytes) :=
    calculateMessageSignature_eq contractArgs_newcomerUnsigned sdkSigner.isAddress
  rw [SdkSigner.request, SDK.execute_of_completes hcompletes]
  exact except_bind_eq_ok.mpr ⟨_, hsign, rfl⟩

set_option maxRecDepth 20000 in
theorem received_newcomer :
    ({ newcomerUnsigned with signature := hexlify byActor.bytes } : HeldMessage).received restless =
      some postedBySigner := by
  rfl

/-- The manager has signed the message before, and its status is asked for after its execution. -/
def signingWithSigner : Bool ⊕ Bool → Request
  | .inl true => .handleMessage postedBySigner
  | c => signingAndAsking c

def sentBySigner : Option (List (Handler.Event (Bool ⊕ Bool)) × Handler (Bool ⊕ Bool)) :=
  Handler.turns recoveringExecutor accepting (fun _ _ => True)
    (List.replicate 15 (.client (.inl false)) ++ askedAfter)
    (.initial recovering .empty signingWithSigner)

set_option maxRecDepth 20000 in
theorem sentBySigner_statuses : sentBySigner.map (fun p =>
    (((p.2.handledStatus (.inl true)).map (·.messageHash)),
      (p.2.foundStatus (.inr true)).map fun status => (status.transactionHash, status.error))) =
    some (some (some messageHash), some (some transactionHash, none)) := by decide

end Sample

/-- The transaction of the signer is sent. -/
theorem SdkSigner.sendTransaction_broadcast_sample : ∃ trace m,
    Labelled.Run (Handler.Step Sample.chain.wallets Sample.recoveringExecutor)
      (.initial Sample.recovering .empty Sample.signingWithSigner) trace m ∧
    Handler.Broadcast Sample.crypto trace
      (ERC1077.calculateMessageHash Sample.crypto Sample.wallet Sample.message)
      Sample.transactionHash := by
  obtain ⟨⟨trace, m⟩, hturns, hstatuses⟩ := Option.map_eq_some_iff.mp Sample.sentBySigner_statuses
  obtain ⟨hhandled, hfound⟩ := Prod.mk.inj hstatuses
  obtain ⟨status, hstatus, hhash⟩ := Option.map_eq_some_iff.mp hhandled
  obtain ⟨found, hasked, hfound⟩ := Option.map_eq_some_iff.mp hfound
  obtain ⟨htransaction, herror⟩ := Prod.mk.inj hfound
  have hrun := (Handler.run_turns Sample.answers_accepting hturns).of_guarded
  have hresolves : Sample.sdkSigner.finishSend status (Sample.polled found)
      (Clock.exact Sample.tick_pos) = .ok Sample.transactionHash := by
    rw [SdkSigner.finishSend, Sample.finishExecute_polled hhash htransaction herror]
    rfl
  have hserved : Sample.signingWithSigner (.inl true) = .handleMessage Sample.postedBySigner := rfl
  obtain ⟨transactionHash, hget, hbroadcast⟩ := sendTransaction_broadcast
    (Sample.readsOf Sample.crypto Sample.byActor) Sample.calls_newcomerTransaction rfl
    Sample.request_newcomerTransaction Sample.documented_restless Sample.received_newcomer rfl hrun
    hserved (Handler.done_of_handledStatus hstatus) (Handler.polls_polled rfl hasked) hresolves
  cases hget
  exact ⟨trace, m, hrun, hbroadcast⟩

end UniversalLogin
