import UniversalLogin.Commons.MessageSigning
import UniversalLogin.Contracts.Factory
import UniversalLogin.Relayer.WalletService

/-!
# FutureWalletFactory

The deployment of a wallet as the client sees it. The client knows the address that the wallet will
have and signs the arguments it will be initialised with (`calculateDeploySignature`); the relayer
finds these arguments again from the name (`ENSService.argsFor`), the factory compares the key, and
the wallet hashes the arguments a third time and recovers the signer. The four agree on every name
whose domain is on one line (`deploySignature_accepted`), so that a wallet that can pay for its
deployment is initialised for the key of the client (`futureWallet_deployed`).
-/

namespace UniversalLogin

open Reentrancy Transition

/-! ## The client -/

/-- What the client and the relayer take from ethers to hash names. -/
structure EnsUtils where
  namehash : JsString → Bytes32
  /-- `keccak256(toUtf8Bytes(label))` -/
  hashLabel : JsString → Bytes32
  toUtf8Bytes : JsString → Bytes

structure KeyPair where
  publicKey : JsString
  privateKey : JsString

structure InitializeWithENSArgs where
  hashLabel : Bytes32
  ensName : JsString
  node : Bytes32
  gasPrice : JsString

structure FutureWallet where
  privateKey : JsString
  contractAddress : JsString
  publicKey : JsString

/-- The body of a request for a deployment. -/
structure DeployRequest where
  publicKey : JsString
  ensName : JsString
  gasPrice : JsString
  signature : JsString

section
variable (ethers : EthersWallets) (crypto : Crypto) (utils : EnsUtils)

/-- A `string` is packed as its UTF-8 bytes. -/
def calculateInitializeWithENSHash (args : InitializeWithENSArgs) : Except String Bytes32 :=
  solidityKeccak256 crypto [.bytes32 args.hashLabel,
    .bytes (.bytes (utils.toUtf8Bytes args.ensName)), .bytes32 args.node,
    .uint256 (.string args.gasPrice)]

def calculateInitializeWithENSSignature (args : InitializeWithENSArgs) (privateKey : JsString) :
    Except String JsString := do
  let _ ← ethers.address privateKey
  let initializeHash ← calculateInitializeWithENSHash crypto utils args
  return ethers.signMessage privateKey initializeHash

def calculateDeploySignature (ensName gasPrice privateKey : JsString) : Except String JsString :=
  let name := ENSService.piece (parseDomain ensName) 0
  let hashLabel := utils.hashLabel name
  let node := utils.namehash ensName
  calculateInitializeWithENSSignature ethers crypto utils { ensName, node, hashLabel, gasPrice }
    privateKey

/-- `createFutureWallet` with the key pair that it has created. -/
def createFutureWallet (factoryAddress : JsString) (initCode : Bytes) (keyPair : KeyPair) :
    Except String FutureWallet := do
  let contractAddress ← computeContractAddress crypto factoryAddress keyPair.publicKey initCode
  return { privateKey := keyPair.privateKey, contractAddress, publicKey := keyPair.publicKey }

/-- `deploy` up to its request. -/
def FutureWallet.deploy (wallet : FutureWallet) (ensName gasPrice : JsString) :
    Except String DeployRequest := do
  let signature ← calculateDeploySignature ethers crypto utils ensName gasPrice wallet.privateKey
  return { publicKey := wallet.publicKey, ensName, gasPrice, signature }

end

namespace WalletService

/-- The relayer hashes names with the functions of its service. -/
def utils (service : WalletService) : EnsUtils :=
  ⟨service.ensService.namehash, service.ensService.hashLabel, service.toUtf8Bytes⟩

/-- The route `/wallet/deploy` -/
def handleDeploy (service : WalletService) (chain : DeployChain) (body : DeployRequest) :
    Except DeployError CreateContract :=
  service.deploy chain body.publicKey body.ensName body.gasPrice body.signature

end WalletService

/-! ## What is assumed of ethers -/

/-- The public key of a pair is the address of its private key. -/
structure KeyPair.Has (ethers : EthersWallets) (keyPair : KeyPair) (key : Address) : Prop where
  privateKey : ethers.address keyPair.privateKey = .ok key
  publicKey : toAddress keyPair.publicKey = some key

/-- `ECDSA.recover` recovers the address of a key from what it signs. -/
def EthersWallets.Recovers (ethers : EthersWallets) (crypto : Crypto) (messageHash : Bytes32) :
    Prop :=
  ∀ s a, ethers.address s = .ok a → ∃ bytes : Bytes, bytes.length = 65 ∧
    ethers.signMessage s messageHash = hexlify bytes ∧
    crypto.recover (crypto.toEthSignedMessageHash messageHash) bytes = a

/-! ## The hash -/

section
variable {ethers : EthersWallets} {crypto : Crypto} {utils : EnsUtils} {keyPair : KeyPair}
  {key : Address} {env : Env} {service : WalletService}

theorem length_hexlify {bytes : Bytes} : (hexlify bytes).length = 2 * bytes.length + 2 := by
  have hlength := Hex.length_of_decode (Hex.decode_encode bytes)
  rw [hexlify, List.length_cons, List.length_cons, hlength]

/-- The client hashes what the wallet hashes. -/
theorem calculateInitializeWithENSHash_eq {args : InitializeWithENSArgs}
    (hprice : toUint256 (.string args.gasPrice) = some price) :
    calculateInitializeWithENSHash env.crypto utils args =
      .ok (calculateInitializeHash env args.hashLabel (utils.toUtf8Bytes args.ensName) args.node
        price) := by
  have hpacked : solidityKeccak256 env.crypto _ = .ok _ := solidityKeccak256_of_pack
    (.cons (pack_bytes32 (h := args.hashLabel)) (.cons (rfl :
      (SolidityValue.bytes (.bytes (utils.toUtf8Bytes args.ensName))).pack = .ok _)
      (.cons (pack_bytes32 (h := args.node)) (.cons (pack_uint256 hprice) .nil))))
  rw [calculateInitializeWithENSHash, hpacked, calculateInitializeHash]
  simp

/-! ## The request -/

/-- The label that the client and the relayer take from a name. -/
def firstPiece (ensName : JsString) : JsString := ENSService.piece (parseDomain ensName) 0

/-- Client, relayer and wallet use the same hash functions, the name is a label and a domain on one
line, and what is signed for the deployment is recovered. -/
structure Agreed (ethers : EthersWallets) (service : WalletService) (env : Env) (keyPair : KeyPair)
    (key : Address) (ensName gasPrice : JsString) : Prop where
  crypto : env.crypto = service.crypto
  code : env.code = .walletMasterWithRefund
  keys : keyPair.Has ethers key
  recovers : ∀ price, toUint256 (.string gasPrice) = some price →
    ethers.Recovers service.crypto (calculateInitializeHash env
      (service.utils.hashLabel (firstPiece ensName)) (service.utils.toUtf8Bytes ensName)
      (service.utils.namehash ensName) price)
  oneLine : ∃ label domain, ensName = label ++ '.' :: domain ∧ '.' ∉ label ∧
    ∀ c ∈ domain, isLineTerminator c = false
  short : (service.toUtf8Bytes ensName).length < 2 ^ 53

/-- The relayer finds the arguments that the client has signed. -/
theorem argsFor_oneLine {ensName : JsString} {ensArgs : EnsArgs}
    (hline : ∃ label domain, ensName = label ++ '.' :: domain ∧ '.' ∉ label ∧
      ∀ c ∈ domain, isLineTerminator c = false)
    (hargs : service.ensService.argsFor ensName = some ensArgs) :
    ensArgs.hashLabel = service.utils.hashLabel (firstPiece ensName) ∧ ensArgs.ensName = ensName ∧
      ensArgs.node = service.utils.namehash ensName := by
  obtain ⟨first, domain, rfl, hlabel, hline⟩ := hline
  have hfirst : firstPiece (first ++ '.' :: domain) = first := by
    rw [firstPiece, parseDomain_append hlabel]
    rfl
  rw [ENSService.argsFor_append hlabel, firstLine_eq_self hline] at hargs
  obtain ⟨_, _, rfl⟩ := Option.map_eq_some_iff.mp hargs
  exact ⟨congrArg _ hfirst.symm, rfl, rfl⟩

/-- What a request asks for is signed by the key of the client. -/
theorem deploy_eq_ok {future : FutureWallet} {body : DeployRequest}
    (hprice : toUint256 (.string gasPrice) = some price) (hcrypto : env.crypto = crypto)
    (hrequest : future.deploy ethers crypto utils ensName gasPrice = .ok body) :
    body = { publicKey := future.publicKey, ensName, gasPrice,
             signature := ethers.signMessage future.privateKey
               (calculateInitializeHash env (utils.hashLabel (firstPiece ensName))
                 (utils.toUtf8Bytes ensName) (utils.namehash ensName) price) } := by
  subst hcrypto
  simp only [FutureWallet.deploy, calculateDeploySignature,
    calculateInitializeWithENSSignature, except_bind_eq_ok, except_pure_eq_ok] at hrequest
  obtain ⟨_, ⟨_, _, _, hhash, rfl⟩, rfl⟩ := hrequest
  rw [calculateInitializeWithENSHash_eq hprice] at hhash
  cases hhash
  rfl

/-- The request, and what the relayer has made of it. -/
structure Requested (ethers : EthersWallets) (service : WalletService) (keyPair : KeyPair)
    (ensName gasPrice : JsString) (chain : DeployChain) (future : FutureWallet)
    (call : CreateContract) : Prop where
  created : createFutureWallet service.crypto service.factoryAddress chain.initCode keyPair =
    .ok future
  called : ∃ body, future.deploy ethers service.crypto service.utils ensName gasPrice = .ok body ∧
    service.handleDeploy chain body = .ok call

/-- The key pair of a future wallet and its address. -/
theorem createFutureWallet_eq_ok {future : FutureWallet} :
    createFutureWallet crypto factoryAddress initCode keyPair = .ok future ↔
      future.privateKey = keyPair.privateKey ∧ future.publicKey = keyPair.publicKey ∧
        computeContractAddress crypto factoryAddress keyPair.publicKey initCode =
          .ok future.contractAddress := by
  obtain ⟨privateKey, contractAddress, publicKey⟩ := future
  simp only [createFutureWallet, except_bind_eq_ok, except_pure_eq_ok, FutureWallet.mk.injEq]
  constructor
  · rintro ⟨_, haddress, rfl, rfl, rfl⟩
    exact ⟨rfl, rfl, haddress⟩
  · rintro ⟨rfl, rfl, haddress⟩
    exact ⟨_, haddress, rfl, rfl, rfl⟩

/-- The wallet is called with `initializeWithRefund`, and with a signature that recovers to the key
that it is called with. -/
theorem Requested.dispatch_initWithENS {chain : DeployChain}
    (hr : Requested ethers service keyPair ensName gasPrice chain future call)
    (ha : Agreed ethers service env keyPair key ensName gasPrice) :
    toAddress call.publicKey = some key ∧ ∃ ens r,
      dispatch env.code call.initWithENS = .initializeWithRefund key ens r ∧
      r.signature.length = 65 ∧ initializeSigner env ens r = key ∧
      r.relayer = service.walletAddress ∧ call.gasPrice = r.gasPrice.toNat := by
  obtain ⟨hprivate, hpublic, _⟩ := createFutureWallet_eq_ok.mp hr.created
  obtain ⟨body, hbody, hcall⟩ := hr.called
  obtain ⟨_, hprepares, _⟩ := WalletService.deploy_eq_ok_iff.mp hcall
  obtain ⟨ensArgs, hargs, hkey, hinit, hprice⟩ := hprepares
  -- the request repeats the price and the name, and adds the signature
  have hgasPrice : body.gasPrice = gasPrice ∧ body.ensName = ensName ∧
      body.publicKey = keyPair.publicKey := by
    simp only [FutureWallet.deploy, except_bind_eq_ok, except_pure_eq_ok] at hbody
    obtain ⟨_, _, rfl⟩ := hbody
    exact ⟨rfl, rfl, hpublic⟩
  obtain ⟨hbodyPrice, hbodyName, hbodyKey⟩ := hgasPrice
  rw [hbodyPrice] at hprice hinit
  rw [hbodyName] at hargs
  rw [hbodyKey] at hkey hinit
  obtain ⟨_, _, _, _, _, _, price, hprice', _⟩ :=
    WalletService.encodeInitializeWithRefundData_eq_ok.mp hinit
  obtain ⟨hhashLabel, hensName, hnode⟩ := argsFor_oneLine ha.oneLine hargs
  obtain ⟨bytes, hlength, hsigned, hrecover⟩ := ha.recovers price hprice' _ _ ha.keys.privateKey
  have hsignature : body.signature = hexlify bytes := by
    rw [deploy_eq_ok hprice' ha.crypto hbody, hprivate]
    exact hsigned
  rw [hsignature] at hinit
  have hlong : (hexlify bytes).length < 2 ^ 53 := by
    rw [length_hexlify]
    omega
  obtain ⟨address, ens, r, hdispatch, hi⟩ :=
    WalletService.dispatch_encodeInitializeWithRefundData hinit
      (by rw [hensName]; exact ha.short) hlong
  obtain rfl : key = address := Option.some.inj (ha.keys.publicKey.symm.trans hi.address)
  obtain rfl : bytes = r.signature :=
    Except.ok.inj ((arrayify_hexlify bytes).symm.trans hi.signature)
  obtain rfl : price = r.gasPrice := Option.some.inj (hprice'.symm.trans hi.gasPrice)
  refine ⟨by rw [hkey]; exact ha.keys.publicKey, ens, r, ?_, hlength, ?_, hi.relayer,
    Except.ok.inj (hprice.symm.trans (toUint256_eq_some.mp hi.gasPrice))⟩
  · rw [ha.code]
    exact hdispatch
  · rw [initializeSigner, hi.hashLabel, hi.name, hi.node, hhashLabel, hensName, hnode, ha.crypto]
    exact hrecover

/-! ## The wallet -/

/-- A wallet that is called with a signature of its key registers the key and its name. -/
theorem start_initializeWithRefund {w : World} (hcode : HasCode env w.storage)
    (hfalse : w.storage.initialized = false) (hvalue : msg.value = 0)
    (hcall : dispatch env.code msg.data = .initializeWithRefund key ens r)
    (hlength : r.signature.length = 65) (hsigner : initializeSigner env ens r = key) :
    start env msg gas w = callOut env (w.setFirstKey key) (.registering ens .register (some r))
      ens.registrar 0 (encodeRegister ens.hashLabel env.this) := by
  have hlength : ¬ r.signature.length ≠ 65 := not_not.mpr hlength
  have hsigner : ¬ key ≠ initializeSigner env ens r := not_not.mpr hsigner.symm
  rw [start_eq hcode hvalue, hcall]
  simp only [initializeWithRefund, initializeWithENS, hfalse, Bool.false_eq_true, if_false,
    if_neg hlength, if_neg hsigner]

/-- The calls of `registerENS` are answered; `owner` is answered with `reply`. -/
def nameReplies (reply : Bytes) (gas : Gas) : List Action :=
  [.ret (some []), .resume gas, .ret (some []), .resume gas, .ret (some []), .resume gas,
    .ret (some reply), .resume gas, .ret (some [])]

/-- The contracts of the name service and the relayer are not the wallet. -/
structure Outside (env : Env) (reply : Bytes) (ens : RegisterArgs) (r : RefundArgs) : Prop where
  nameService : ens.ens ≠ env.this
  registrar : ens.registrar ≠ env.this
  resolver : ens.resolver ≠ env.this
  long : ¬ reply.length < 32
  reverse : (wordAt reply 0).setWidth 160 ≠ env.this
  relayer : r.relayer ≠ env.this

variable {ens : RegisterArgs} {r : RefundArgs}

theorem run_nameReplies {w : World} (ho : Outside env reply ens r) :
    run env ⟨w, [⟨some (.registering ens .register (some r)), s⟩], .outside⟩
        (nameReplies reply gas) =
      some ⟨w, [⟨some (.registering ens .setName (some r)), w⟩], .returning (some [])⟩ := by
  have hnext {c c' to_ data d} (hto : to_ ≠ env.this)
      (h : resume env (.registering ens c (some r)) (some d) gas w =
        callOut env w (.registering ens c' (some r)) to_ 0 data) :
      resume env (.registering ens c (some r)) (some d) gas w =
        .other w w (.registering ens c' (some r)) := h.trans (callOut_zero hto)
  have howner : resume env (.registering ens .owner (some r)) (some reply) gas w =
      callOut env w (.registering ens .setName (some r)) ((wordAt reply 0).setWidth 160) 0
        (encodeSetName ens.name) := by
    simp only [resume, resumeRegistering, if_neg ho.long]
  refine run_cons.mpr ⟨_, rfl, run_cons.mpr ⟨_, step_resume (hnext ho.nameService rfl), ?_⟩⟩
  refine run_cons.mpr ⟨_, rfl, run_cons.mpr ⟨_, step_resume (hnext ho.resolver rfl), ?_⟩⟩
  refine run_cons.mpr ⟨_, rfl, run_cons.mpr ⟨_, step_resume (hnext ho.nameService rfl), ?_⟩⟩
  refine run_cons.mpr ⟨_, rfl, run_cons.mpr ⟨_, step_resume (hnext ho.reverse howner), ?_⟩⟩
  exact run_cons.mpr ⟨_, rfl, rfl⟩

/-- After the registration the wallet pays the relayer. -/
theorem resume_setName {w : World} (ho : Outside env reply ens r)
    (hamount : SafeMath.mul deploymentGasUsed r.gasPrice = .ok amount)
    (hfunds : amount.toNat ≤ w.balance) :
    resume env (.registering ens .setName (some r)) (some []) gas w =
      .other w.setInitialized { w.setInitialized with balance := w.balance - amount.toNat }
        .refundingDeployment := by
  have hbalance : ¬ w.setInitialized.balance < amount.toNat := Nat.not_lt.mpr hfunds
  simp only [resume, resumeRegistering, refund, hamount, ne_eq, not_true_eq_false, if_false,
    callOut, if_neg hbalance, if_neg ho.relayer]
  rfl

/-- The world after the deployment: the key is registered and the relayer is paid. -/
def World.deployed (w : World) (key : Address) (amount : Nat) : World :=
  { (w.setFirstKey key).setInitialized with balance := w.balance - amount }

theorem ends_initializeWithRefund {w : World} (gas : Gas) (ho : Outside env reply ens r)
    (hcode : HasCode env w.storage) (hfalse : w.storage.initialized = false)
    (hvalue : msg.value = 0)
    (hcall : dispatch env.code msg.data = .initializeWithRefund key ens r)
    (hlength : r.signature.length = 65) (hsigner : initializeSigner env ens r = key)
    (hamount : SafeMath.mul deploymentGasUsed r.gasPrice = .ok amount)
    (hfunds : amount.toNat ≤ w.balance) :
    Ends (wallet env) msg w
      (.run gas :: nameReplies reply gas ++ [.resume gas, .ret (some [])] ++ [.resume gas]) []
      (w.deployed key amount.toNat) := by
  have hstart : start env msg gas w = .other (w.setFirstKey key) (w.setFirstKey key)
      (.registering ens .register (some r)) :=
    (start_initializeWithRefund hcode hfalse hvalue hcall hlength hsigner).trans
      (callOut_zero ho.registrar)
  have hrefund : resume env (.registering ens .setName (some r)) (some []) gas
      (w.setFirstKey key) = .other (w.setFirstKey key).setInitialized (w.deployed key amount.toNat)
        .refundingDeployment := resume_setName ho hamount hfunds
  have hdone : resume env .refundingDeployment (some []) gas (w.deployed key amount.toNat) =
      .done (w.deployed key amount.toNat) [] := rfl
  have hregistered : run env ⟨w, [], .calling msg⟩ (.run gas :: nameReplies reply gas) =
      some ⟨w.setFirstKey key, [⟨some (.registering ens .setName (some r)), w.setFirstKey key⟩],
        .returning (some [])⟩ := run_cons.mpr ⟨_, step_run hstart, run_nameReplies ho⟩
  exact .resume (run_append.mpr
    ⟨_, hregistered, run_cons.mpr ⟨_, step_resume hrefund, rfl⟩⟩) hdone

/-- The refund of a request that the wallet can pay is what the wallet calculates. -/
theorem toNat_refund {call : CreateContract} {w : World} {r : RefundArgs}
    (hprice : call.gasPrice = r.gasPrice.toNat) (hfunds : call.refund ≤ (w.balance : Int))
    (hbalance : w.balance < 2 ^ 256) :
    ∃ amount : Uint256, SafeMath.mul deploymentGasUsed r.gasPrice = .ok amount ∧
      (amount.toNat : Int) = call.refund := by
  rw [CreateContract.refund, hprice] at hfunds ⊢
  have hlt : deploymentGasUsed.toNat * r.gasPrice.toNat < 2 ^ 256 := by
    have hle : deploymentGasUsed.toNat * r.gasPrice.toNat ≤ w.balance := by exact_mod_cast hfunds
    omega
  have hmul := SafeMath.mul_eq_ok.mpr ⟨hlt, rfl⟩
  refine ⟨_, hmul, ?_⟩
  rw [SafeMath.toNat_mul hmul]
  exact Int.natCast_mul _ _

/-- A new wallet that can pay for its deployment: if the name service answers, the call that the
factory makes for the request ends, the factory succeeds, and the wallet has the key of the client
and has paid the relayer the refund of the request. -/
theorem futureWallet_deployed {chain : DeployChain} {future : FutureWallet}
    {call : CreateContract} {f : ProxyCounterfactualFactory} {w : World}
    {create2 : Bytes → Bytes32 → Option World}
    (ha : Agreed ethers service env keyPair key ensName gasPrice)
    (hr : Requested ethers service keyPair ensName gasPrice chain future call)
    (howner : f.owner = service.walletAddress)
    (hcreate2 : create2 f.initCode (service.crypto.keccak256 (packAddress key)) = some w)
    (hfresh : Deployed env none w)
    (houtside : ∀ ens r, dispatch env.code call.initWithENS = .initializeWithRefund key ens r →
      Outside env reply ens r)
    (hfunds : call.refund ≤ (w.balance : Int)) (hbalance : w.balance < 2 ^ 256) :
    ∃ acts d w', Ends (wallet env) ⟨f.this, 0, call.initWithENS⟩ w acts d w' ∧
      (∀ run : Msg → World → Option World, run ⟨f.this, 0, call.initWithENS⟩ w = some w' →
        f.createContract service.crypto create2 run service.walletAddress key call.initWithENS =
          .ok w') ∧
      w'.storage.initialized = true ∧ HasFirstKey w'.storage key ∧
      (w'.balance : Int) = w.balance - call.refund := by
  obtain ⟨_, ens, r, hdispatch, hlength, hsigner, _, hgasPrice⟩ := hr.dispatch_initWithENS ha
  obtain ⟨amount, hamount, hrefund⟩ := toNat_refund hgasPrice hfunds hbalance
  have hcode : HasCode env w.storage := by
    cases hfresh with
    | proxy _ hmaster => exact .inr hmaster
  have hfalse : w.storage.initialized = false := by
    cases hfresh
    rfl
  have hfirst : HasFirstKey (w.deployed key amount.toNat).storage key := by
    cases hfresh
    exact ⟨rfl, rfl, rfl⟩
  have hends : Ends (wallet env) ⟨f.this, 0, call.initWithENS⟩ w _ []
      (w.deployed key amount.toNat) :=
    ends_initializeWithRefund ⟨0, 0⟩ (houtside ens r hdispatch) hcode hfalse rfl hdispatch hlength
      hsigner hamount (by omega)
  refine ⟨_, _, _, hends, fun run hrun => ?_, rfl, hfirst, ?_⟩
  · refine ProxyCounterfactualFactory.createContract_eq_ok.mpr ⟨howner.symm, ?_, w, hcreate2, hrun⟩
    rw [ProxyCounterfactualFactory.getKeyFromInitializeData_eq]
    have hinitial : (dispatch env.code call.initWithENS).initialKey = some key := by
      rw [hdispatch]
      rfl
    exact initialKey_dispatch hinitial
  · change ((w.balance - amount.toNat : Nat) : Int) = _
    omega

end

namespace Sample

/-- A client with the action key, which signs a deployment. -/
def deployer : EthersWallets where
  address s := if s = actorKey then .ok actor else .error "exactly 32 bytes required"
  signMessage _ _ := hexlify byOwner.bytes

def deployEnv : Env := ⟨deployCrypto, deployAddress, .walletMasterWithRefund⟩

def keyPair : KeyPair := ⟨hexlify (packAddress actor), actorKey⟩

def deployName : JsString := alexAt "mylogin.eth".toList

/-- A chain on which every address has 0.01 ether, and a proxy on it. -/
def deployChain : DeployChain := .rich 10000000000000000 [0]

def funded : World := { proxy with balance := 10000000000000000 }

def deployFactory : ProxyCounterfactualFactory := ⟨7, walletService.walletAddress, [0]⟩

/-- The code of the factory is deployed for the action key. -/
def deployCreate2 (initCode : Bytes) (salt : Bytes32) : Option World :=
  if initCode = deployFactory.initCode ∧ salt = deploySalt then some funded else none

theorem address_deployer : deployer.address actorKey = .ok actor := by simp [deployer]

theorem hash_deployment : calculateInitializeHash deployEnv (hashLabel "alex".toList)
    (toUtf8Bytes deployName) (namehash deployName) 20000000000 = deployHash := by decide

theorem agreed : Agreed deployer walletService deployEnv keyPair actor deployName gasPrice where
  crypto := rfl
  code := rfl
  keys := ⟨address_deployer, toAddress_hexlify _⟩
  recovers price hprice s a haddress := by
    cases toUint256_gasPrice.symm.trans hprice
    have hhash : calculateInitializeHash deployEnv
        (walletService.utils.hashLabel (firstPiece deployName))
        (walletService.utils.toUtf8Bytes deployName) (walletService.utils.namehash deployName)
        20000000000 = deployHash := hash_deployment
    rw [hhash]
    simp only [deployer] at haddress
    split at haddress
    · cases haddress
      exact ⟨byOwner.bytes, by decide, rfl, by decide⟩
    · cases haddress
  oneLine := by
    refine ⟨"alex".toList, "mylogin.eth".toList, rfl, by decide, fun c hc => ?_⟩
    have hall : "mylogin.eth".toList.all (!isLineTerminator ·) = true := by decide
    simpa only [Bool.not_eq_true'] using List.all_eq_true.mp hall c hc
  short := by decide

/-- The client asks for a deployment at 20 gwei, and the relayer accepts. -/
theorem deployRequested : ∃ future call,
    Requested deployer walletService keyPair deployName gasPrice deployChain future call ∧
    call.gasPrice = 20000000000 ∧
    ∀ ens r, dispatch deployEnv.code call.initWithENS = .initializeWithRefund actor ens r →
      Outside deployEnv reply ens r := by
  obtain ⟨init, hinit⟩ := encodeInitializeWithRefundData_sample
  have haddress := hasAddress_sample
  let future : FutureWallet :=
    ⟨actorKey, hexlify (packAddress deployAddress), hexlify (packAddress actor)⟩
  let body : DeployRequest :=
    ⟨hexlify (packAddress actor), deployName, gasPrice, hexlify byOwner.bytes⟩
  have hhash : ∀ args : InitializeWithENSArgs, toUint256 (.string args.gasPrice) =
      some 20000000000 → calculateInitializeWithENSHash deployEnv.crypto walletService.utils args =
        .ok (calculateInitializeHash deployEnv args.hashLabel
          (walletService.utils.toUtf8Bytes args.ensName) args.node 20000000000) := fun _ =>
    calculateInitializeWithENSHash_eq
  have hbody : future.deploy deployer deployCrypto walletService.utils deployName gasPrice =
      .ok body := by
    simp only [FutureWallet.deploy, calculateDeploySignature,
      calculateInitializeWithENSSignature, except_bind_eq_ok, except_pure_eq_ok]
    exact ⟨_, ⟨_, address_deployer, _, hhash _ toUint256_gasPrice, rfl⟩, rfl⟩
  refine ⟨future, ⟨hexlify (packAddress actor), init, 20000000000⟩,
    ⟨createFutureWallet_eq_ok.mpr ⟨rfl, rfl, haddress⟩, body, hbody, ?_⟩, rfl, ?_⟩
  · exact WalletService.deploy_eq_ok_iff.mpr ⟨rfl, ⟨ensArgs, by decide, rfl, hinit,
      toUint256_eq_some.mp toUint256_gasPrice⟩, _, haddress, [], _, [], rfl, by simp,
      10000000000000000, 5000000000000000, rfl, by decide, by decide⟩
  · intro ens r hcall
    obtain ⟨_, _, _, hdispatch, hi⟩ := WalletService.dispatch_encodeInitializeWithRefundData hinit
      (by decide) (by rw [length_hexlify]; decide)
    obtain ⟨_, rfl, rfl⟩ := Call.initializeWithRefund.inj (hdispatch.symm.trans hcall)
    have hregistrar := Option.some.inj hi.registrar
    have hresolver := Option.some.inj hi.resolver
    refine ⟨?_, ?_, ?_, by decide, by decide, ?_⟩
    · rw [hi.ens]
      decide
    · rw [← hregistrar]
      decide
    · rw [← hresolver]
      decide
    · rw [hi.relayer]
      decide

end Sample

/-- The whole of the 0.01 ether is paid to the relayer. -/
theorem futureWallet_deployed_sample : ∃ (call : CreateContract) (w' : World),
    Sample.deployFactory.createContract Sample.deployCrypto Sample.deployCreate2
      (fun _ _ => some w') 4 Sample.actor call.initWithENS = .ok w' ∧
      w'.storage.initialized = true ∧ w'.balance = 0 := by
  obtain ⟨future, call, hr, hprice, houtside⟩ := Sample.deployRequested
  have hrefund : call.refund = 10000000000000000 := by
    rw [CreateContract.refund, hprice]
    rfl
  have howner : Sample.deployFactory.owner = Sample.walletService.walletAddress := rfl
  have hcreate2 : Sample.deployCreate2 Sample.deployFactory.initCode
      (Sample.walletService.crypto.keccak256 (packAddress Sample.actor)) = some Sample.funded :=
    if_pos ⟨rfl, by decide⟩
  have hfunded : (Sample.funded.balance : Int) = 10000000000000000 := rfl
  obtain ⟨_, _, w', _, hcreate, hinit, _, hbalance⟩ := futureWallet_deployed Sample.agreed hr howner
    hcreate2 (.proxy (by decide) (by decide)) houtside (by omega) (by decide)
  exact ⟨call, w', hcreate (fun _ _ => some w') rfl, hinit, by omega⟩

end UniversalLogin
