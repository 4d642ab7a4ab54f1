import UniversalLogin.Contracts.Wallet
import UniversalLogin.Relayer.EnsService
import UniversalLogin.Relayer.Serialisation
import UniversalLogin.Relayer.Validations

/-!
# WalletService

The deployment of a wallet that pays for it (`WalletService.deploy`). The relayer looks for a
supported token of which the address that the wallet will have holds the configured minimum, and
then pays for a deployment that refunds `deploymentGasUsed` in ether at the price that the client
has asked for. The check covers the refund in every state of the chain only if it can find nothing
but enough ether (`deploy_covered_iff`).
-/

namespace UniversalLogin

open Async

/-! ## Errors -/

inductive DeployErrorType
  | NotFound
  | DuplicatedEnsName
  | NotEnoughBalance
  deriving DecidableEq

inductive DeployError
  | ensNameTaken (ensName : JsString)
  | invalidENSDomain (ensDomain : JsString)
  | notEnoughBalance
  /-- What ethers throws, or a call of a contract. -/
  | thrown (text : String)
  deriving DecidableEq

namespace DeployError

def message : DeployError → String
  | ensNameTaken ensName => "ENS name " ++ String.ofList ensName ++ " already taken"
  | invalidENSDomain ensDomain => "ENS domain " ++ String.ofList ensDomain ++
    " does not exist or is not compatible with Universal Login"
  | notEnoughBalance => "Not enough balance"
  | thrown text => text

def errorType : DeployError → Option DeployErrorType
  | ensNameTaken _ => some .DuplicatedEnsName
  | invalidENSDomain _ => some .NotFound
  | notEnoughBalance => some .NotEnoughBalance
  | thrown _ => none

end DeployError

/-! ## Reads -/

/-- The chain, with the contracts that a deployment reads. -/
structure DeployChain extends ChainState where
  /-- `resolver` of the name service -/
  resolver : Bytes32 → Address
  /-- `addr` of a resolver -/
  addr : Address → Bytes32 → JsString
  /-- `initCode` of the factory -/
  initCode : Bytes

namespace DeployChain

variable (chain : DeployChain)

/-- A contract that is given no address cannot be called. -/
def answer : BalanceQuery → Except String Uint256
  | .getBalance address => .ok (chain.getBalance address)
  | .balanceOf token address =>
    match token, chain.balanceOf token address with
    | _ :: _, some balance => .ok balance
    | _, _ => .error "call exception"

/-- `resolveName`, which is `false` where there is no resolver. -/
def resolveName (namehash : JsString → Bytes32) (ensName : JsString) : Option JsString :=
  let node := namehash ensName
  let resolverAddress := chain.resolver node
  if resolverAddress ≠ 0 then some (chain.addr resolverAddress node) else none

end DeployChain

def computeContractAddress (crypto : Crypto) (factoryAddress publicKey : JsString)
    (initCode : Bytes) : Except String JsString := do
  let finalSalt ← solidityKeccak256 crypto [.address publicKey]
  let initCodeHash ← solidityKeccak256 crypto [.bytes (.bytes initCode)]
  let hashedData ← solidityKeccak256 crypto [.bytes (.bytes [0xff]), .address factoryAddress,
    .bytes32 finalSalt, .bytes32 initCodeHash]
  return hexlify ((packUint256 hashedData).drop 12)

/-- The hash of values that are packed. -/
theorem solidityKeccak256_of_pack {values : List SolidityValue} {packed : List Bytes}
    (h : List.Forall₂ (fun value bs => value.pack = .ok bs) values packed) :
    solidityKeccak256 crypto values = .ok (crypto.keccak256 packed.flatten) := by
  have hpacked : values.mapM SolidityValue.pack = .ok packed := by
    induction h with
    | nil => rfl
    | cons hvalue _ ih =>
      rw [List.mapM_cons, hvalue, ih]
      rfl
  rw [solidityKeccak256, solidityPack, hpacked]
  rfl

/-- The address at which `CREATE2` puts a contract. -/
theorem computeContractAddress_eq {factoryAddress publicKey : JsString} {initCode : Bytes}
    (hfactory : arrayify (.string factoryAddress) = .ok factory)
    (hkey : arrayify (.string publicKey) = .ok key) :
    computeContractAddress crypto factoryAddress publicKey initCode =
      .ok (hexlify ((packUint256 (crypto.keccak256 (0xff :: (factory ++
        (packUint256 (crypto.keccak256 key) ++ packUint256 (crypto.keccak256 initCode)))))).drop
          12)) := by
  have hsalt : solidityKeccak256 crypto [.address publicKey] =
      .ok (crypto.keccak256 [key].flatten) := solidityKeccak256_of_pack (.cons hkey .nil)
  have hcode : solidityKeccak256 crypto [.bytes (.bytes initCode)] =
      .ok (crypto.keccak256 [initCode].flatten) := solidityKeccak256_of_pack (.cons rfl .nil)
  have hdata (salt code : Bytes32) : solidityKeccak256 crypto [.bytes (.bytes [0xff]),
      .address factoryAddress, .bytes32 salt, .bytes32 code] =
      .ok (crypto.keccak256 [[0xff], factory, packUint256 salt, packUint256 code].flatten) :=
    solidityKeccak256_of_pack (.cons rfl (.cons hfactory (.cons rfl (.cons rfl .nil))))
  rw [computeContractAddress]
  simp only [hsalt, hcode, hdata, List.flatten_cons, List.flatten_nil, List.append_nil,
    List.singleton_append]
  rfl

/-- There is an address only if that of the factory can be packed. -/
theorem factory_of_computeContractAddress {factoryAddress publicKey : JsString} {initCode : Bytes}
    (h : computeContractAddress crypto factoryAddress publicKey initCode = .ok contractAddress) :
    ∃ factory, arrayify (.string factoryAddress) = .ok factory := by
  simp only [computeContractAddress, except_bind_eq_ok] at h
  obtain ⟨salt, _, code, _, hash, hhash, _⟩ := h
  simp only [solidityKeccak256, solidityPack, except_bind_eq_ok] at hhash
  obtain ⟨_, ⟨_, hpacked, _⟩, _⟩ := hhash
  have hmem : .address factoryAddress ∈ [SolidityValue.bytes (.bytes [0xff]),
      .address factoryAddress, .bytes32 salt, .bytes32 code] := by simp
  obtain ⟨factory, hfactory⟩ := ok_of_mapM_ok hpacked hmem
  exact ⟨factory, hfactory⟩

/-! ## The service -/

/-- What the service is given. -/
structure WalletService where
  crypto : Crypto
  ensService : ENSService
  toUtf8Bytes : JsString → Bytes
  walletAddress : Address
  factoryAddress : JsString
  supportedTokens : List SupportedToken

/-- An address that an encoder is given, if it is defined. -/
def encodeDefined : Option Address → Except String Uint256
  | some address => .ok (address.setWidth 256)
  | none => .error "invalid address"

/-- The call of `createContract` that `deploy` makes. -/
structure CreateContract where
  publicKey : JsString
  initWithENS : Bytes
  gasPrice : Int
  deriving DecidableEq

namespace WalletService

variable (service : WalletService)

def encodeInitializeWithRefundData (key : JsString) (ensArgs : EnsArgs)
    (gasPrice signature : JsString) : Except String Bytes := do
  let key ← encodeAddress key
  let registrar ← encodeDefined ensArgs.registrarAddress
  let resolver ← encodeDefined ensArgs.resolverAddress
  let gasPrice ← encodeUint 256 (.string gasPrice)
  let signature ← arrayify (.string signature)
  let name := encodeBytes (service.toUtf8Bytes ensArgs.ensName)
  return encodeCall initializeWithRefundSelector [key, ensArgs.hashLabel, 320, ensArgs.node,
    ensArgs.ensAddress.setWidth 256, registrar, resolver, service.walletAddress.setWidth 256,
    gasPrice, BitVec.ofNat 256 (320 + name.length)] ++ name ++ encodeBytes signature

def ensure (condition : Prop) [Decidable condition] (e : DeployError) : Except DeployError Unit :=
  if condition then .ok () else .error e

def ensureNotNull (value : Option α) (e : DeployError) : Except DeployError α :=
  value.elim (.error e) .ok

/-- `deploy` up to its call of `createContract`. -/
def deploy (chain : DeployChain) (key ensName gasPrice signature : JsString) :
    Except DeployError CreateContract := do
  ensure (truthy (chain.resolveName service.ensService.namehash ensName) = false)
    (.ensNameTaken ensName)
  let ensArgs ← ensureNotNull (service.ensService.argsFor ensName) (.invalidENSDomain ensName)
  let contractAddress ← (computeContractAddress service.crypto service.factoryAddress key
    chain.initCode).mapError .thrown
  let token ← ((findTokenWithRequiredBalance service.supportedTokens contractAddress).eval
    chain.answer).mapError .thrown
  ensure (truthy token = true) .notEnoughBalance
  let initWithENS ← (service.encodeInitializeWithRefundData key ensArgs gasPrice
    signature).mapError .thrown
  let gasPrice ← (bigNumberify (.string gasPrice)).mapError .thrown
  return { publicKey := key, initWithENS, gasPrice }

/-! ## What is deployed -/

/-- The name and the encoding of a request are accepted, and the call is made of them. -/
def Prepares (key ensName gasPrice signature : JsString) (call : CreateContract) : Prop :=
  ∃ ensArgs, service.ensService.argsFor ensName = some ensArgs ∧ call.publicKey = key ∧
    service.encodeInitializeWithRefundData key ensArgs gasPrice signature = .ok call.initWithENS ∧
    bigNumberify (.string gasPrice) = .ok call.gasPrice

/-- The values of a request can be encoded, its name is in a domain of the relayer, and its price is
this one. -/
structure Accepts (key ensName gasPrice signature : JsString) (price : Uint256) : Prop where
  ensArgs : ∃ ensArgs registrar resolver, service.ensService.argsFor ensName = some ensArgs ∧
    ensArgs.registrarAddress = some registrar ∧ ensArgs.resolverAddress = some resolver
  key : ∃ address, toAddress key = some address
  factory : ∃ address, arrayify (.string service.factoryAddress) = .ok address
  gasPrice : toUint256 (.string gasPrice) = some price
  signature : ∃ bytes, arrayify (.string signature) = .ok bytes

/-- The address that a wallet with this key will have. -/
def HasAddress (initCode : Bytes) (key contractAddress : JsString) : Prop :=
  computeContractAddress service.crypto service.factoryAddress key initCode = .ok contractAddress

end WalletService

/-- The ether that `initializeWithRefund` pays to the relayer. -/
def CreateContract.refund (call : CreateContract) : Int :=
  (deploymentGasUsed.toNat : Int) * call.gasPrice

namespace DeployChain

/-- There is a supported token of which an address has enough. -/
def Funds (chain : DeployChain) (supportedTokens : List SupportedToken)
    (contractAddress : JsString) : Prop :=
  ∃ before token after, supportedTokens = before ++ token :: after ∧
    (∀ t ∈ before, t.FallsShort chain.answer contractAddress) ∧
    token.Suffices chain.answer contractAddress

variable {chain : DeployChain}

theorem answer_query_of_nil {token : SupportedToken} (h : token.address = []) :
    chain.answer (token.query contractAddress) = .error "call exception" := by
  have hether : token.address ≠ etherNativeToken := by
    rw [h]
    decide
  rw [SupportedToken.query, if_neg hether, h]
  rfl

theorem findTokenWithRequiredBalance_iff {supportedTokens : List SupportedToken} :
    (∃ token, (findTokenWithRequiredBalance supportedTokens contractAddress).eval chain.answer =
      .ok token ∧ truthy token = true) ↔ chain.Funds supportedTokens contractAddress := by
  constructor
  · rintro ⟨token, hfind, htruthy⟩
    cases token with
    | none => cases htruthy
    | some address =>
      obtain ⟨before, token, after, heq, hbefore, htoken, _⟩ :=
        eval_findTokenWithRequiredBalance_iff.mp hfind
      exact ⟨before, token, after, heq, hbefore, htoken⟩
  · rintro ⟨before, token, after, heq, hbefore, htoken⟩
    refine ⟨some token.address, eval_findTokenWithRequiredBalance_iff.mpr
      ⟨before, token, after, heq, hbefore, htoken, rfl⟩, ?_⟩
    cases haddress : token.address with
    | nil =>
      obtain ⟨balance, _, hbalance, _⟩ := htoken
      rw [answer_query_of_nil haddress] at hbalance
      cases hbalance
    | cons => rfl

end DeployChain

theorem mapError_eq_ok {x : Except ε α} {f : ε → ε'} : x.mapError f = .ok a ↔ x = .ok a := by
  cases x <;> simp [Except.mapError]

namespace WalletService

variable {service : WalletService}

theorem ensure_eq_ok {condition : Prop} [Decidable condition] {u : Unit} :
    ensure condition e = .ok u ↔ condition := by
  rw [ensure]
  split <;> simp_all

theorem ensureNotNull_eq_ok {value : Option α} :
    ensureNotNull value e = .ok a ↔ value = some a := by
  cases value <;> simp [ensureNotNull]

/-- A wallet is deployed if its name is free, the request is accepted and its address has enough of
a supported token. -/
theorem deploy_eq_ok_iff {chain : DeployChain} :
    service.deploy chain key ensName gasPrice signature = .ok call ↔
      truthy (chain.resolveName service.ensService.namehash ensName) = false ∧
        service.Prepares key ensName gasPrice signature call ∧
        ∃ contractAddress, service.HasAddress chain.initCode key contractAddress ∧
          chain.Funds service.supportedTokens contractAddress := by
  simp only [← DeployChain.findTokenWithRequiredBalance_iff]
  simp only [deploy, except_bind_eq_ok, mapError_eq_ok, ensure_eq_ok, ensureNotNull_eq_ok,
    except_pure_eq_ok, exists_const, Prepares, HasAddress]
  constructor
  · rintro ⟨hfree, ensArgs, hargs, contractAddress, haddress, token, hfind, htruthy, init, hinit,
      price, hprice, rfl⟩
    exact ⟨hfree, ⟨ensArgs, hargs, rfl, hinit, hprice⟩, contractAddress, haddress, token, hfind,
      htruthy⟩
  · rintro ⟨hfree, ⟨ensArgs, hargs, rfl, hinit, hprice⟩, contractAddress, haddress, token, hfind,
      htruthy⟩
    exact ⟨hfree, ensArgs, hargs, contractAddress, haddress, token, hfind, htruthy, _, hinit, _,
      hprice, rfl⟩

/-- A call of `initializeWithRefund` with what the service and a request give. -/
structure Initializes (service : WalletService) (key : JsString) (ensArgs : EnsArgs)
    (gasPrice signature : JsString) (address : Address) (register : RegisterArgs)
    (refund : RefundArgs) : Prop where
  address : toAddress key = some address
  hashLabel : register.hashLabel = ensArgs.hashLabel
  name : register.name = service.toUtf8Bytes ensArgs.ensName
  node : register.node = ensArgs.node
  ens : register.ens = ensArgs.ensAddress
  registrar : ensArgs.registrarAddress = some register.registrar
  resolver : ensArgs.resolverAddress = some register.resolver
  relayer : refund.relayer = service.walletAddress
  gasPrice : toUint256 (.string gasPrice) = some refund.gasPrice
  signature : arrayify (.string signature) = .ok refund.signature

theorem encodeAddress_eq_ok {s : JsString} :
    encodeAddress s = .ok x ↔ ∃ a, toAddress s = some a ∧ x = a.setWidth 256 := by
  rw [encodeAddress]
  cases toAddress s with
  | none => simp
  | some a => simp [eq_comm]

theorem encodeDefined_eq_ok {address : Option Address} :
    encodeDefined address = .ok x ↔ ∃ a, address = some a ∧ x = a.setWidth 256 := by
  cases address <;> simp [encodeDefined, eq_comm]

/-- What is encoded is the call of `initializeWithRefund` with the words of its arguments. -/
theorem encodeInitializeWithRefundData_eq_ok {key : JsString} {ensArgs : EnsArgs} :
    service.encodeInitializeWithRefundData key ensArgs gasPrice signature = .ok init ↔
      ∃ address, toAddress key = some address ∧
        ∃ registrar, ensArgs.registrarAddress = some registrar ∧
          ∃ resolver, ensArgs.resolverAddress = some resolver ∧
            ∃ price, toUint256 (.string gasPrice) = some price ∧
              ∃ bs, arrayify (.string signature) = .ok bs ∧
                init = encodeCall initializeWithRefundSelector
                  [address.setWidth 256, ensArgs.hashLabel, 320, ensArgs.node,
                    ensArgs.ensAddress.setWidth 256, registrar.setWidth 256,
                    resolver.setWidth 256, service.walletAddress.setWidth 256, price,
                    BitVec.ofNat 256
                      (320 + (encodeBytes (service.toUtf8Bytes ensArgs.ensName)).length)] ++
                  encodeBytes (service.toUtf8Bytes ensArgs.ensName) ++ encodeBytes bs := by
  simp only [encodeInitializeWithRefundData, except_bind_eq_ok, except_pure_eq_ok,
    encodeAddress_eq_ok, encodeDefined_eq_ok, encodeUint_eq_ok]
  constructor
  · rintro ⟨_, ⟨address, haddress, rfl⟩, _, ⟨registrar, hregistrar, rfl⟩, _,
      ⟨resolver, hresolver, rfl⟩, price, hprice, bs, hbs, rfl⟩
    exact ⟨address, haddress, registrar, hregistrar, resolver, hresolver, price, hprice, bs, hbs,
      rfl⟩
  · rintro ⟨address, haddress, registrar, hregistrar, resolver, hresolver, price, hprice, bs, hbs,
      rfl⟩
    exact ⟨_, ⟨address, haddress, rfl⟩, _, ⟨registrar, hregistrar, rfl⟩, _,
      ⟨resolver, hresolver, rfl⟩, price, hprice, bs, hbs, rfl⟩

/-- What a deployed wallet is called with is `initializeWithRefund` with the arguments that the
service has found and those of the request. -/
theorem dispatch_encodeInitializeWithRefundData {key : JsString} {ensArgs : EnsArgs}
    (h : service.encodeInitializeWithRefundData key ensArgs gasPrice signature = .ok init)
    (hname : (service.toUtf8Bytes ensArgs.ensName).length < 2 ^ 53)
    (hsignature : signature.length < 2 ^ 53) :
    ∃ address ens r, dispatch .walletMasterWithRefund init = .initializeWithRefund address ens r ∧
      service.Initializes key ensArgs gasPrice signature address ens r := by
  obtain ⟨address, haddress, registrar, hregistrar, resolver, hresolver, price, hprice, bs, hbs,
    rfl⟩ := encodeInitializeWithRefundData_eq_ok.mp h
  have hshort := length_le_of_arrayify hbs
  generalize hhead : [address.setWidth 256, ensArgs.hashLabel, 320, ensArgs.node,
    ensArgs.ensAddress.setWidth 256, registrar.setWidth 256, resolver.setWidth 256,
    service.walletAddress.setWidth 256, price,
    BitVec.ofNat 256 (320 + (encodeBytes (service.toUtf8Bytes ensArgs.ensName)).length)] = head
  have hlen : head.length = 10 := by rw [← hhead]; rfl
  obtain ⟨hfirst, hsecond⟩ := argBytes_encoded initializeWithRefundSelector head 2 9 (by omega)
    (by rw [hlen, ← hhead]; rfl) (by rw [hlen, ← hhead]; rfl) hname
    (show bs.length < 2 ^ 53 by omega)
  rw [List.append_assoc] at hfirst hsecond ⊢
  have hlong (rest : Bytes) :
      ¬ (encodeCall initializeWithRefundSelector head ++ rest).length < 4 := by
    rw [List.length_append, length_encodeCall]
    omega
  have hlookup : (functions .walletMasterWithRefund).lookup initializeWithRefundSelector =
      some decodeInitializeWithRefund := rfl
  have hdispatch (rest : Bytes) : dispatch .walletMasterWithRefund
      (encodeCall initializeWithRefundSelector head ++ rest) = (decodeInitializeWithRefund
        (encodeCall initializeWithRefundSelector head ++ rest)).getD .malformed := by
    rw [dispatch, if_neg (hlong _), selector_encodeCall (by decide), hlookup]
  have haddressAt (rest : Bytes) (i : Nat) (a : Address) (ha : head[i]? = some (a.setWidth 256)) :
      argAddress (encodeCall initializeWithRefundSelector head ++ rest) i = a :=
    argAddress_encodeCall ha
  have hwordAt (rest : Bytes) (i : Nat) (x : Uint256) (hx : head[i]? = some x) :
      argUint256 (encodeCall initializeWithRefundSelector head ++ rest) i = x :=
    argUint256_encodeCall hx
  subst hhead
  rw [hdispatch]
  simp only [decodeInitializeWithRefund, argRegister, arity_encodeCall hlen.ge, hfirst, hsecond,
    haddressAt _ 0 _ rfl, hwordAt _ 1 _ rfl, hwordAt _ 3 _ rfl, haddressAt _ 4 _ rfl,
    haddressAt _ 5 _ rfl, haddressAt _ 6 _ rfl, haddressAt _ 7 _ rfl, hwordAt _ 8 _ rfl]
  exact ⟨address, _, _, rfl, haddress, rfl, rfl, rfl, rfl, hregistrar, hresolver, rfl, hprice, hbs⟩

/-- The address of the wallet has the refund. -/
def Covers (service : WalletService) (chain : DeployChain) (call : CreateContract) : Prop :=
  ∃ contractAddress, service.HasAddress chain.initCode call.publicKey contractAddress ∧
    call.refund ≤ (chain.getBalance contractAddress).toNat

end WalletService

/-! ## Tokens that guard a refund -/

namespace SupportedToken

/-- The token has an address and a number, so that a balance can be compared with it. -/
def readable (token : SupportedToken) : Bool :=
  !token.address.isEmpty && (bigNumberify (.string token.minimalAmount)).toOption.isSome

/-- Enough of the token is enough ether, or more than there can be. -/
def Guards (cost : Int) (token : SupportedToken) : Prop :=
  ∀ amount, bigNumberify (.string token.minimalAmount) = .ok amount →
    token.address = etherNativeToken ∧ cost ≤ amount ∨ 2 ^ 256 ≤ amount

theorem readable_eq_true {token : SupportedToken} : token.readable = true ↔
    token.address ≠ [] ∧ ∃ amount, bigNumberify (.string token.minimalAmount) = .ok amount := by
  rw [readable]
  cases bigNumberify (.string token.minimalAmount) <;> simp [Except.toOption]

theorem readable_of_answer {chain : DeployChain} {token : SupportedToken}
    (hbalance : chain.answer (token.query contractAddress) = .ok balance)
    (hamount : bigNumberify (.string token.minimalAmount) = .ok amount) :
    token.readable = true := by
  refine readable_eq_true.mpr ⟨fun h => ?_, amount, hamount⟩
  rw [DeployChain.answer_query_of_nil h] at hbalance
  cases hbalance

/-- A token that guards the refund is found only if the ether is enough. -/
theorem refund_le_of_suffices {chain : DeployChain} {token : SupportedToken}
    (hguards : token.Guards cost) (h : token.Suffices chain.answer contractAddress) :
    cost ≤ (chain.getBalance contractAddress).toNat := by
  obtain ⟨balance, amount, hbalance, hamount, hle⟩ := h
  have hlt := balance.isLt
  rcases hguards amount hamount with ⟨hether, hrefund⟩ | hlarge
  · rw [query, if_pos hether] at hbalance
    cases hbalance
    omega
  · omega

end SupportedToken

namespace DeployChain

variable {ether : Uint256} {initCode : Bytes}

/-- A chain where every name is free, and every address has so much ether and all of every other
token. -/
def rich (ether : Uint256) (initCode : Bytes) : DeployChain where
  getCode _ := []
  getBalance _ := ether
  balanceOf _ _ := some (BitVec.allOnes 256)
  resolver _ := 0
  addr _ _ := []
  initCode

theorem answer_rich {token : SupportedToken} (h : token.address ≠ []) :
    (rich ether initCode).answer (token.query contractAddress) =
      .ok (if token.address = etherNativeToken then ether else BitVec.allOnes 256) := by
  rw [SupportedToken.query]
  split
  · rfl
  · cases htoken : token.address with
    | nil => exact absurd htoken h
    | cons => rfl

/-- A token that guards a refund is not found where there is less ether. -/
theorem fallsShort_rich {token : SupportedToken} (hreadable : token.readable = true)
    (hguards : token.Guards cost) (hether : ether.toNat < cost) :
    token.FallsShort (rich ether initCode).answer contractAddress := by
  obtain ⟨haddress, amount, hamount⟩ := SupportedToken.readable_eq_true.mp hreadable
  refine ⟨_, amount, answer_rich haddress, hamount, ?_⟩
  have hlt := ether.isLt
  have hall : (BitVec.allOnes 256).toNat = 2 ^ 256 - 1 := BitVec.toNat_allOnes
  rcases hguards amount hamount with ⟨htoken, hrefund⟩ | hlarge
  · rw [if_pos htoken]
    omega
  · split <;> omega

/-- A token that does not guard a refund is found on a chain where there is less ether. -/
theorem suffices_rich {token : SupportedToken} (hreadable : token.readable = true)
    (hguards : ¬ token.Guards cost) (hrefund : 0 < cost) (initCode : Bytes)
    (contractAddress : JsString) : ∃ ether : Uint256, ether.toNat < cost ∧
      token.Suffices (rich ether initCode).answer contractAddress := by
  obtain ⟨haddress, _⟩ := SupportedToken.readable_eq_true.mp hreadable
  simp only [SupportedToken.Guards, not_forall, not_or, not_le] at hguards
  obtain ⟨amount, hamount, htoken, hlt⟩ := hguards
  by_cases hether : token.address = etherNativeToken
  · have hless : amount < cost := by
      by_contra hle
      exact htoken ⟨hether, by omega⟩
    have htoNat : (BitVec.ofNat 256 amount.toNat).toNat = amount.toNat := by
      rw [BitVec.toNat_ofNat, Nat.mod_eq_of_lt (by omega)]
    refine ⟨BitVec.ofNat 256 amount.toNat, by omega, _, amount, answer_rich haddress, hamount, ?_⟩
    rw [if_pos hether, htoNat]
    omega
  · have hall : (BitVec.allOnes 256).toNat = 2 ^ 256 - 1 := BitVec.toNat_allOnes
    refine ⟨0, hrefund, _, amount, answer_rich haddress, hamount, ?_⟩
    rw [if_neg hether, hall]
    omega

end DeployChain

namespace WalletService

variable {service : WalletService}

/-- The tokens are looked at up to the first one whose balance cannot be compared. -/
theorem mem_takeWhile_readable {chain : DeployChain} {before after : List SupportedToken}
    {token : SupportedToken} (hbefore : ∀ t ∈ before, t.FallsShort chain.answer contractAddress)
    (htoken : token.Suffices chain.answer contractAddress) :
    token ∈ (before ++ token :: after).takeWhile SupportedToken.readable := by
  have hreadable : ∀ t ∈ before, t.readable = true := by
    intro t ht
    obtain ⟨_, _, hbalance, hamount, _⟩ := hbefore t ht
    exact SupportedToken.readable_of_answer hbalance hamount
  obtain ⟨_, _, hbalance, hamount, _⟩ := htoken
  rw [List.takeWhile_append_of_pos hreadable,
    List.takeWhile_cons_of_pos (SupportedToken.readable_of_answer hbalance hamount)]
  simp

/-- If a token that is looked at does not guard a refund, there is a chain with less ether where a
wallet is deployed. -/
theorem exists_funds (hrefund : 0 < cost) (initCode : Bytes) (contractAddress : JsString)
    (h : ∃ token ∈ service.supportedTokens.takeWhile SupportedToken.readable,
      ¬ token.Guards cost) :
    ∃ ether : Uint256, ether.toNat < cost ∧
      (DeployChain.rich ether initCode).Funds service.supportedTokens contractAddress := by
  classical
  -- the first one is found where those before it are not
  have hsome : ((service.supportedTokens.takeWhile SupportedToken.readable).find?
      fun t => decide (¬ t.Guards cost)).isSome := by
    simpa using h
  obtain ⟨token, hfind⟩ := Option.isSome_iff_exists.mp hsome
  obtain ⟨htoken, before, after, hsplit, hbefore⟩ := List.find?_eq_some_iff_append.mp hfind
  have hreadable : ∀ t ∈ before ++ token :: after, t.readable = true := by
    rw [← hsplit]
    exact fun t ht => List.mem_takeWhile_imp ht
  obtain ⟨ether, hether, hsuffices⟩ := DeployChain.suffices_rich
    (hreadable token (by simp)) (of_decide_eq_true htoken) hrefund initCode contractAddress
  refine ⟨ether, hether, before, token,
    after ++ service.supportedTokens.dropWhile SupportedToken.readable, ?_, ?_, hsuffices⟩
  · rw [← List.cons_append, ← List.append_assoc, ← hsplit, List.takeWhile_append_dropWhile]
  · intro t ht
    have hguards : t.Guards cost := by simpa using hbefore t ht
    exact DeployChain.fallsShort_rich (hreadable t (by simp [ht])) hguards hether

section
variable {service : WalletService} {key ensName gasPrice signature : JsString}

/-- What is prepared is a request that is accepted, with its price. -/
theorem Prepares.accepts (h : service.Prepares key ensName gasPrice signature call)
    (haddress : service.HasAddress initCode key contractAddress) :
    ∃ price, service.Accepts key ensName gasPrice signature price ∧
      call.gasPrice = price.toNat := by
  obtain ⟨ensArgs, hargs, _, hinit, hgasPrice⟩ := h
  obtain ⟨address, hkey, registrar, hregistrar, resolver, hresolver, price, hprice, bs, hbs, _⟩ :=
    encodeInitializeWithRefundData_eq_ok.mp hinit
  refine ⟨price, ⟨⟨ensArgs, registrar, resolver, hargs, hregistrar, hresolver⟩, ⟨address, hkey⟩, ?_,
    hprice, bs, hbs⟩, Except.ok.inj (hgasPrice.symm.trans (toUint256_eq_some.mp hprice))⟩
  exact factory_of_computeContractAddress haddress

theorem Accepts.prepares (h : service.Accepts key ensName gasPrice signature price) :
    ∃ call, service.Prepares key ensName gasPrice signature call ∧
      call.gasPrice = price.toNat := by
  obtain ⟨ensArgs, registrar, resolver, hargs, hregistrar, hresolver⟩ := h.ensArgs
  obtain ⟨address, hkey⟩ := h.key
  obtain ⟨bs, hbs⟩ := h.signature
  exact ⟨⟨key, _, price.toNat⟩, ⟨ensArgs, hargs, rfl, encodeInitializeWithRefundData_eq_ok.mpr
    ⟨address, hkey, registrar, hregistrar, resolver, hresolver, price, h.gasPrice, bs, hbs, rfl⟩,
    toUint256_eq_some.mp h.gasPrice⟩, rfl⟩

theorem Accepts.hasAddress (h : service.Accepts key ensName gasPrice signature price)
    (initCode : Bytes) : ∃ contractAddress, service.HasAddress initCode key contractAddress := by
  obtain ⟨factory, hfactory⟩ := h.factory
  obtain ⟨address, hkey⟩ := h.key
  rw [toAddress] at hkey
  cases hbytes : arrayify (.string key) with
  | error _ =>
    rw [hbytes] at hkey
    cases hkey
  | ok bytes => exact ⟨_, computeContractAddress_eq hfactory hbytes⟩

end

end WalletService

namespace Sample

/-- 20 gwei -/
def gasPrice : JsString := "20000000000".toList

def toUtf8Bytes (name : JsString) : Bytes := name.map fun c => UInt8.ofNat c.toNat

/-- The salt of the action key. -/
def deploySalt : Bytes32 := 0x448b786a7b3c316877da39845dd3d33e8948193cb9badb5307dae0d22e8c9ac1

def initCodeHash : Bytes32 := 0xbc36789e7a1e281436464229828f817d6612f7b477d66591ff96a9e064bcc98a

def deployHash : Bytes32 := 0x0436ff4b4c74e000c1a30c1112b6b8e60aac01bd0821570ef9b8bb873fce9068

def signedDeployHash : Bytes32 :=
  0xfafc882a567ab9cdcf45b786f1f9f08c4e7c9664794d0f9c4af02782b261361e

/-- The signature of the action key for the deployment. -/
def byOwner : Signature where
  r := 0x5345c5dd21c35a0ad9acc582c7246fad40b639af1020726609dad72cefcea299
  s := 0xc05702a3593119c820b1c99383d201d169a0aac39061cbe0035eca4f85f813d

/-- The arguments of the deployment as the wallet hashes them. -/
def deployArgs : Bytes :=
  packUint256 (hashLabel "alex".toList) ++ toUtf8Bytes (alexAt "mylogin.eth".toList) ++
    packUint256 (namehash (alexAt "mylogin.eth".toList)) ++ packUint256 20000000000

/-- The values of the functions at what a deployment gives them. -/
def deployCrypto : Crypto where
  keccak256 bs :=
    if bs = packAddress actor then deploySalt
    else if bs = [0] then initCodeHash
    else if
      bs = 0xff :: (packAddress 7 ++ (packUint256 deploySalt ++ packUint256 initCodeHash)) then
      0xe7e84743043c9ffbeb1d335e3d5a033faf635d2357e8c4ba42cc89e48a61f193
    else if bs = deployArgs then deployHash
    else crypto.keccak256 bs
  toEthSignedMessageHash h :=
    if h = deployHash then signedDeployHash else crypto.toEthSignedMessageHash h
  ecrecover := crypto.ecrecover
  recover h bs := if h = signedDeployHash ∧ bs = byOwner.bytes then actor else crypto.recover h bs

/-- A relayer that looks for 0.005 ether. -/
def walletService : WalletService where
  crypto := deployCrypto
  ensService := ensService
  toUtf8Bytes
  walletAddress := 4
  factoryAddress := hexlify (packAddress 7)
  supportedTokens := [⟨etherNativeToken, "5000000000000000".toList⟩]

def ensArgs : EnsArgs where
  hashLabel := hashLabel "alex".toList
  ensName := alexAt "mylogin.eth".toList
  node := namehash (alexAt "mylogin.eth".toList)
  ensAddress := 1
  registrarAddress := some 3
  resolverAddress := some 2

theorem toUint256_gasPrice : toUint256 (.string gasPrice) = some 20000000000 := by decide

theorem encodeInitializeWithRefundData_sample : ∃ init,
    walletService.encodeInitializeWithRefundData (hexlify (packAddress actor)) ensArgs gasPrice
      (hexlify byOwner.bytes) = .ok init :=
  ⟨_, WalletService.encodeInitializeWithRefundData_eq_ok.mpr ⟨actor, toAddress_hexlify _, 3, rfl, 2,
    rfl, _, toUint256_gasPrice, _, arrayify_hexlify _, rfl⟩⟩

/-- The address that the wallet will have. -/
def deployAddress : Address := 0x3d5a033faf635d2357e8c4ba42cc89e48a61f193

theorem hasAddress_sample :
    walletService.HasAddress [0] (hexlify (packAddress actor))
      (hexlify (packAddress deployAddress)) := by
  rw [WalletService.HasAddress, walletService, computeContractAddress_eq (arrayify_hexlify _)
    (arrayify_hexlify _)]
  decide

end Sample

end UniversalLogin
