import UniversalLogin.Relayer.Authorisations
import UniversalLogin.WalletApp.TransferService

/-!
# Notifications of the wallet application

What becomes of a request for authorisation that the user of a wallet confirms or rejects
(`Notifications.ts`). A confirmation adds the key to the wallet, in a transaction after which the
hook of the relayer looks for the request. It does not find it if the key begins with a zero byte:
the request stays listed although the key is authorised (`confirm_carriedOut`).
-/

namespace UniversalLogin.WalletApp

open Async

/-- `config/TransactionDetails.ts` -/
def transactionDetails : PartialMessage where
  gasPrice := some (.number 1000000000)
  gasLimit := some (.number 1000000)
  gasToken := some etherNativeToken
  operationType := some 0

structure NotificationsService where
  sdk : SDK
  walletService : WalletService

namespace NotificationsService

variable (service : NotificationsService)

/-- The request of a confirmation. -/
def confirm (publicKey : JsString) : Except String HeldMessage :=
  match service.walletService.userWallet with
  | none => .error WalletError.typeError.message
  | some userWallet =>
    match userWallet.contractAddress with
    | none => do
      let _ ← encodeAddress publicKey
      .error "cannot convert null value to array"
    | some contractAddress =>
      service.sdk.addKey contractAddress publicKey userWallet.privateKey transactionDetails 1

/-- What a rejection has the relayer do, which does not find the wallet `null`. -/
def reject (publicKey : JsString) : Except String (Promise Unit) :=
  match service.walletService.userWallet with
  | none => .error WalletError.typeError.message
  | some userWallet =>
    .ok (AuthorisationService.removeRequest (userWallet.contractAddress.getD "null".toList)
      publicKey)

end NotificationsService

/-! ## What is confirmed -/

/-- The message of a confirmation, with the gas of the defaults. -/
def confirmation (wallet key : Address) (nonce : Uint256) : Message where
  to_ := wallet
  value := 0
  data := (AdminCall.addKey key managementKey).encode
  nonce
  gasPrice := 1000000000
  gasToken := 0
  gasLimit := 1000000
  operationType := .call

/-- The hook for a transaction of a wallet that adds a key to itself. -/
theorem onTransactionSent_addKey {args : ExecuteArgs} (hshort : args.Short)
    (hto : args.to_ = sentTransaction.to_)
    (hcall : args.data = (AdminCall.addKey key purpose).encode)
    (hdata : sentTransaction.data = encodeExecuteSigned args) :
    MessageHandler.onTransactionSent sentTransaction = query (.deleteAuthorisation
      (hexlify (packAddress sentTransaction.to_)) (hexlify (stripZeros key))) := by
  obtain ⟨m, hdecode, hwallet, hkey⟩ : ∃ m,
      decodeDataForExecuteSigned sentTransaction.data = .ok m ∧ m.to_ = sentTransaction.to_ ∧
        m.data = encodeAddKey key purpose :=
    ⟨_, hdata ▸ decodeDataForExecuteSigned_encodeExecuteSigned hshort, hto, hcall⟩
  rw [MessageHandler.onTransactionSent, hdecode]
  change (if m.to_ = sentTransaction.to_ then _ else _) = _
  rw [if_pos hwallet, hkey, if_pos isAddKeyCall_encodeAddKey,
    MessageHandler.removeReqFromAuthService, getKeyFromData_encodeAddKey]
  change Async.bind (Async.await _ _) _ = _
  rw [toLowerCase_hexlify, toLowerCase_hexlify]
  change Async.await _ _ = Async.await _ _
  congr
  funext r
  cases r <;> rfl

/-- Whatever was requested and deleted before, the hook ends. The requests of the wallet for the key
are then gone, and no others, but if the key begins with a zero byte they are all there. -/
def Clears (wallets : Address → Option Storage) (wallet key : Address)
    (sentTransaction : TransactionResponse) : Prop :=
  ∀ db, AuthorisationService.Pending db →
    (∃ db', Runs (Query.Answers wallets)
      (db, MessageHandler.onTransactionSent sentTransaction) (db', .done (.ok ()))) ∧
    ∀ db', Runs (Query.Answers wallets)
      (db, MessageHandler.onTransactionSent sentTransaction) (db', .done (.ok ())) →
      if leadingByte key = 0 then
        ∀ r ∈ db.authorisations, isRequestFor wallet key r → r ∈ db'.authorisations
      else db'.authorisations = db.authorisations.filter fun r => ¬ isRequestFor wallet key r

/-- The rows are compared as they were made. -/
theorem filter_row_eq {db : Database} (hpending : AuthorisationService.Pending db)
    (wallet key : Address) :
    db.authorisations.filter (fun r => ¬ (r.walletContractAddress = hexlify (packAddress wallet) ∧
        r.key = hexlify (packAddress key))) =
      db.authorisations.filter fun r => ¬ isRequestFor wallet key r := by
  refine List.filter_congr fun r hr => ?_
  obtain ⟨request, rfl⟩ := hpending r hr
  simp only [isRequestFor, AuthorisationService.row_wallet_iff, AuthorisationService.row_key_iff]

theorem clears_of_addKey {args : ExecuteArgs} (hshort : args.Short)
    (hto : args.to_ = sentTransaction.to_)
    (hcall : args.data = (AdminCall.addKey key purpose).encode)
    (hdata : sentTransaction.data = encodeExecuteSigned args) :
    Clears wallets sentTransaction.to_ key sentTransaction := by
  intro db hpending
  rw [onTransactionSent_addKey hshort hto hcall hdata]
  refine ⟨⟨_, runs_perform rfl⟩, fun db' hrun => ?_⟩
  cases runs_perform_iff.mp hrun
  split
  · next hzero =>
    intro r hr hrequest
    obtain ⟨request, rfl⟩ := hpending r hr
    have hkey := AuthorisationService.row_key_iff.mp hrequest.2
    have hother : hexlify (packAddress key) ≠ hexlify (stripZeros key) := fun heq =>
      stripZeros_eq_iff.mp (hexlify_inj heq).symm hzero
    exact List.mem_filter.mpr ⟨hr, by simp [hkey, hother]⟩
  · next hne =>
    rw [stripZeros_eq_iff.mpr hne]
    exact filter_row_eq hpending _ _

namespace NotificationsService

section
variable {service : NotificationsService} {env : Env} {s : Storage} {userWallet : HeldWallet}
  {contractAddress : JsString} {key : Address}

/-- A confirmation has the client ask for the message of it. -/
theorem asked_of_confirm
    (ho : Opens service.sdk service.walletService env s userWallet contractAddress)
    (haddress : service.sdk.ethers.address userWallet.privateKey = .ok a)
    (hkey : toAddress publicKey = some key) :
    ∃ message unsigned,
      service.confirm publicKey = service.sdk.execute message userWallet.privateKey ∧
      Asked service.sdk env s userWallet.privateKey message unsigned
        (confirmation env.this key s.lastNonce) := by
  obtain ⟨hprice, hlimit, hzero⟩ := toUint256_defaults
  have hrequests : service.sdk.Requests contractAddress userWallet.privateKey transactionDetails
      (.addKey key managementKey)
      (SDK.selfMessage transactionDetails contractAddress
        (AdminCall.addKey key managementKey).encode)
      (service.sdk.addKey contractAddress publicKey userWallet.privateKey transactionDetails 1) :=
    .addKey hkey (by decide)
  have hconfirm : service.confirm publicKey = service.sdk.addKey contractAddress publicKey
      userWallet.privateKey transactionDetails 1 := by
    rw [confirm, ho.held]
    dsimp only
    rw [ho.address]
  have hreads := ho.reads
  refine ⟨_, _, hconfirm.trans hrequests.execute_eq, hreads.completes haddress rfl rfl rfl, ?_,
    rfl, ?_, ?_⟩
  · refine contractArgs_eq_some.mpr ⟨hreads.this, hreads.this, hzero, ?_, hreads.toUint256_nonce,
      hprice, toAddress_hexlify _, hlimit, rfl⟩
    rw [toBytes, arrayify_hexlify]
    rfl
  · intro b hb
    cases hb
  · simp [confirmation, AdminCall.encode]

/-- A request that is rejected is deleted, whatever its key. -/
theorem reject_removes {db db' : Database} {row : AuthorisationRow} {p : Promise Unit}
    (ho : Opens service.sdk service.walletService env s userWallet contractAddress)
    (hcontract : isAddressString contractAddress env.this)
    (hpending : AuthorisationService.Pending db)
    (hrow : row ∈ db.authorisations) (hrequest : isRequestFor env.this key row)
    (hreject : service.reject row.key = .ok p)
    (hrun : Runs (Query.Answers wallets) (db, p) (db', .done (.ok ()))) :
    db'.authorisations = db.authorisations.filter fun r => ¬ isRequestFor env.this key r := by
  rw [reject, ho.held] at hreject
  cases hreject
  obtain ⟨request, rfl⟩ := hpending row hrow
  rw [ho.address, Option.getD_some, AuthorisationService.removeRequest, hcontract,
    AuthorisationService.row_key_iff.mp hrequest.2, toLowerCase_hexlify] at hrun
  cases runs_perform_iff.mp hrun
  exact filter_row_eq hpending _ _

end

end NotificationsService

end UniversalLogin.WalletApp

namespace UniversalLogin

open WalletApp

namespace Sample

def confirmationHash : Bytes32 :=
  0xf104a11e30026886dfcf4c5c669a36c8a71bea91730ec43b3eb3b6f65033c2ea

def confirmationSigned : Bytes32 :=
  0x7c7995453ebeea8e27ffc401e0bb748eb9bfa93c5999aa67c0878ceae2e9feac

def confirmationSignature : Signature where
  r := 0x3f82317a1c9c0ca16be3364f4dd9ed4547726f8686c268cc354fa4017cb9f173
  s := 0x0ea998b31f6985668a0867a89b41c99aa9c8a22100ec42a71f9b21331fc6698f

/-- The values of the functions at what this message gives them to hash and to recover. -/
def confirmationCrypto : Crypto where
  keccak256 bs := if bs = message.data then dataHash else
    if bs = packAddress wallet ++ packAddress wallet ++ packUint256 0 ++
      packUint256 dataHash ++ packUint256 0 ++ packUint256 1000000000 ++
      packAddress 0 ++ packUint256 1000000 ++ packUint256 0 then confirmationHash else 0
  toEthSignedMessageHash h := if h = confirmationHash then confirmationSigned else 0
  ecrecover h v r s :=
    if h = confirmationSigned ∧ v = 27 ∧ r = confirmationSignature.r ∧
      s = confirmationSignature.s then actor
    else 0
  recover _ _ := 0

def notificationsService : NotificationsService :=
  ⟨clientOf confirmationCrypto confirmationSignature, ⟨some heldWallet, .deployed⟩⟩

set_option maxRecDepth 20000 in
theorem hash_confirmation :
    ERC1077.calculateMessageHash confirmationCrypto wallet (confirmation wallet newcomer 0) =
      confirmationHash := by decide

end Sample

end UniversalLogin
