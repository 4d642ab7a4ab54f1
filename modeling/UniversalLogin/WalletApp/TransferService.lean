import UniversalLogin.Sdk.UniversalLoginSDK
import UniversalLogin.WalletApp.WalletService

/-!
# Transfers of the wallet application

What becomes of an amount that a user transfers (`TransferService.ts`). The currency is looked up
among the configured tokens, whose symbols were read of their contracts (`TokenService.ts`), and a
message of the wallet is executed: a call of `transfer` of the token, which also pays for the gas,
or a call of the receiver with ether. The transaction that the relayer makes of it has the wallet
make this call with exactly the amount (`transfer_carriedOut`).
-/

namespace UniversalLogin.WalletApp

/-! ## The tokens -/

structure TokenDetails where
  name : JsString
  symbol : JsString
  address : JsString
  deriving DecidableEq

/-- `ETHER_NATIVE_TOKEN` -/
def etherDetails : TokenDetails := ⟨"ether".toList, "ETH".toList, etherNativeToken⟩

/-- What the contract of a token tells of itself. -/
structure TokenContract where
  symbol : Except String JsString
  name : Except String JsString

def getTokenDetails (contract : JsString → TokenContract) (address : JsString) :
    Except String TokenDetails := do
  let symbol ← (contract address).symbol
  let name ← (contract address).name
  return { address, name, symbol }

structure TokenService where
  tokensAddresses : List JsString
  tokensDetails : List TokenDetails

namespace TokenService

def new (tokensAddresses : List JsString) : TokenService where
  tokensAddresses
  tokensDetails := [⟨[], [], []⟩]

variable (contract : JsString → TokenContract)

/-- What is told of a configured address. -/
def detailsOf (address : JsString) : Except String TokenDetails :=
  if address = etherNativeToken then .ok etherDetails else getTokenDetails contract address

/-- `this.tokensDetails[count] = details`, where the array has at least `count` elements. -/
def assign (service : TokenService) (count : Nat) (details : TokenDetails) : TokenService where
  tokensAddresses := service.tokensAddresses
  tokensDetails :=
    service.tokensDetails.take count ++ details :: service.tokensDetails.drop (count + 1)

/-- The loop from a count on, over the addresses that are left. When a call is rejected, what was
assigned stays. -/
def startFrom (service : TokenService) (count : Nat) :
    List JsString → Except String Unit × TokenService
  | [] => (.ok (), service)
  | address :: rest =>
    match detailsOf contract address with
    | .error e => (.error e, service)
    | .ok details => startFrom (service.assign count details) (count + 1) rest

def start (service : TokenService) : Except String Unit × TokenService :=
  startFrom contract service 0 service.tokensAddresses

def getTokenAddress (service : TokenService) (symbol : JsString) : Option JsString :=
  (service.tokensDetails.find? (·.symbol = symbol)).map (·.address)

variable {contract} {service service' : TokenService}

/-- A start that is not rejected has read the details of every token. -/
theorem startFrom_eq_ok {before : List TokenDetails}
    (hstart : startFrom contract service before.length addresses = (.ok (), service'))
    (hdetails : service.tokensDetails.take before.length = before)
    (hshort : service.tokensDetails.length ≤ before.length + addresses.length) :
    ∃ after, List.Forall₂ (fun address details => detailsOf contract address = .ok details)
      addresses after ∧ service'.tokensDetails = before ++ after := by
  induction addresses generalizing service before with
  | nil =>
    cases hstart
    rw [List.length_nil, Nat.add_zero] at hshort
    rw [List.take_of_length_le hshort] at hdetails
    exact ⟨[], .nil, by rw [hdetails, List.append_nil]⟩
  | cons address rest ih =>
    rw [startFrom] at hstart
    split at hstart
    · cases hstart
    · next details hd =>
      have hnext : (service.assign before.length details).tokensDetails.take
          (before ++ [details]).length = before ++ [details] := by
        simp [assign, hdetails, List.take_append]
      have hshort' : (service.assign before.length details).tokensDetails.length ≤
          (before ++ [details]).length + rest.length := by
        simp only [assign, hdetails, List.length_append, List.length_cons, List.length_drop,
          List.length_nil] at hshort ⊢
        omega
      rw [← List.length_singleton (a := details), ← List.length_append] at hstart
      obtain ⟨after, hafter, hs⟩ := ih hstart hnext hshort'
      exact ⟨details :: after, .cons hd hafter, by rw [hs, List.append_assoc]; rfl⟩

/-- The first of the tokens that tells this symbol of itself. -/
def FirstWith (contract : JsString → TokenContract) (addresses : List JsString)
    (symbol address : JsString) : Prop :=
  ∃ before after details, addresses = before ++ address :: after ∧
    detailsOf contract address = .ok details ∧ details.symbol = symbol ∧
    ∀ other ∈ before, ∀ details, detailsOf contract other = .ok details → details.symbol ≠ symbol

theorem address_of_detailsOf (h : detailsOf contract address = .ok details) :
    details.address = address := by
  rw [detailsOf] at h
  split at h
  · next heq =>
    cases h
    exact heq.symm
  · obtain ⟨_, _, h⟩ := except_bind_eq_ok.mp h
    obtain ⟨_, _, h⟩ := except_bind_eq_ok.mp h
    cases h
    rfl

theorem getTokenAddress_of_firstWith
    (hdetails : List.Forall₂ (fun address details => detailsOf contract address = .ok details)
      addresses service.tokensDetails)
    (hfirst : FirstWith contract addresses symbol address) :
    service.getTokenAddress symbol = some address := by
  obtain ⟨before, after, details, rfl, hfound, hsymbol, hothers⟩ := hfirst
  have hfind : service.tokensDetails.find? (·.symbol = symbol) = some details := by
    generalize service.tokensDetails = told at hdetails
    induction before generalizing told with
    | nil =>
      cases hdetails with
      | cons hd _ =>
        cases hd.symm.trans hfound
        exact List.find?_cons_of_pos (decide_eq_true hsymbol)
    | cons other before ih =>
      cases hdetails with
      | cons hd hrest =>
        have hother := hothers other List.mem_cons_self _ hd
        rw [List.find?_cons_of_neg (by simpa using hother)]
        exact ih (fun b hb => hothers b (List.mem_cons_of_mem _ hb)) _ hrest
  rw [getTokenAddress, hfind, Option.map_some, address_of_detailsOf hfound]

/-- After the start a symbol is that of the first token with it. -/
theorem getTokenAddress_of_start
    (hstart : (new tokens).start contract = (.ok (), service))
    (hfirst : FirstWith contract tokens symbol address) :
    service.getTokenAddress symbol = some address := by
  have hpos : 1 ≤ tokens.length := by
    obtain ⟨before, after, details, rfl, _⟩ := hfirst
    rw [List.length_append, List.length_cons]
    omega
  have hloop : startFrom contract (new tokens) ([] : List TokenDetails).length tokens =
      (.ok (), service) := hstart
  obtain ⟨after, hdetails, hafter⟩ := startFrom_eq_ok hloop rfl (by simpa [new] using hpos)
  exact getTokenAddress_of_firstWith (by rwa [hafter]) hfirst

end TokenService

/-! ## The transfer -/

structure TransferDetails where
  to_ : JsString
  amount : JsString
  currency : JsString

structure TransferService where
  sdk : SDK
  walletService : WalletService
  tokenService : TokenService
  /-- `utils.parseEther` -/
  parseEther : JsString → Except String Int

namespace TransferService

variable (service : TransferService)

/-- Calldata of `transfer` of a token -/
def encodeTransfer (to_ amount : JsString) : Except String Bytes := do
  let value ← service.parseEther amount
  let receiver ← encodeAddress to_
  let value ← encodeUint 256 (.bigNumber value)
  return encodeCall 0xa9059cbb [receiver, value]

/-- A token that was not found has no address, and a message to nobody cannot be packed. -/
def transferTokens (userWallet : HeldWallet) (details : TransferDetails) :
    Except String HeldMessage := do
  let data ← service.encodeTransfer details.to_ details.amount
  match service.tokenService.getTokenAddress details.currency with
  | none =>
    let _ ← service.sdk.nonceOf { from_ := userWallet.contractAddress } userWallet.privateKey
    .error "cannot convert null value to array"
  | some tokenAddress =>
    service.sdk.execute {
      from_ := userWallet.contractAddress
      to_ := some tokenAddress
      value := some (.number 0)
      data := some ⟨.string (hexlify data), false⟩
      gasToken := some tokenAddress } userWallet.privateKey

def transferEther (userWallet : HeldWallet) (details : TransferDetails) :
    Except String HeldMessage := do
  let value ← service.parseEther details.amount
  service.sdk.execute {
    from_ := userWallet.contractAddress
    to_ := some details.to_
    value := some (.bigNumber value)
    data := some ⟨.string "0x0".toList, false⟩
    gasToken := some etherDetails.address } userWallet.privateKey

/-- The request of a transfer. -/
def transfer (details : TransferDetails) : Except String HeldMessage :=
  match service.walletService.userWallet with
  | none => .error WalletError.userWalletNotFound.message
  | some userWallet =>
    if details.currency = etherDetails.symbol then service.transferEther userWallet details
    else service.transferTokens userWallet details

end TransferService

/-! ## The wallet in use -/

/-- The wallet that the application holds is the one of the environment. -/
structure Opens (sdk : SDK) (walletService : WalletService) (env : Env) (s : Storage)
    (userWallet : HeldWallet) (contractAddress : JsString) : Prop where
  held : walletService.userWallet = some userWallet
  address : userWallet.contractAddress = some contractAddress
  reads : sdk.Reads env s contractAddress

/-! ## What is transferred -/

inductive Asset
  | ether
  | token (address : Address)

/-- The message of the wallet that transfers an amount, with the gas of `MESSAGE_DEFAULTS`. -/
def Asset.message (receiver : Address) (amount nonce : Uint256) : Asset → Message
  | ether =>
    { to_ := receiver, value := amount, data := [0], nonce, gasPrice := 1000000000, gasToken := 0,
      gasLimit := 1000000, operationType := .call }
  | token address =>
    { to_ := address, value := 0, data := encodeCall 0xa9059cbb [receiver.setWidth 256, amount],
      nonce, gasPrice := 1000000000, gasToken := address, gasLimit := 1000000,
      operationType := .call }

/-- What a currency is among the configured tokens. -/
inductive Denotes (contract : JsString → TokenContract) (tokens : List JsString)
    (currency : JsString) : Asset → Prop
  | ether (hcurrency : currency = etherDetails.symbol) : Denotes contract tokens currency .ether
  | token (hcurrency : currency ≠ etherDetails.symbol)
      (hfirst : TokenService.FirstWith contract tokens currency tokenAddress)
      (haddress : toAddress tokenAddress = some address) :
    Denotes contract tokens currency (.token address)

namespace TransferService

/-- What was typed is a receiver and an amount of the asset, after the start of the tokens. -/
structure Means (service : TransferService) (contract : JsString → TokenContract)
    (tokens : List JsString) (details : TransferDetails) (asset : Asset) (receiver : Address)
    (amount : Uint256) : Prop where
  to_ : toAddress details.to_ = some receiver
  amount : ∃ n, service.parseEther details.amount = .ok n ∧
    toUint256 (.bigNumber n) = some amount
  started : (TokenService.new tokens).start contract = (.ok (), service.tokenService)
  currency : Denotes contract tokens details.currency asset

section
variable {service : TransferService} {contract : JsString → TokenContract} {tokens : List JsString}
  {env : Env} {s : Storage} {userWallet : HeldWallet} {contractAddress : JsString}
  {details : TransferDetails} {asset : Asset}

theorem transferEther_eq (hcontract : userWallet.contractAddress = some contractAddress)
    (hparse : service.parseEther details.amount = .ok n) :
    service.transferEther userWallet details = service.sdk.execute
      { from_ := some contractAddress, to_ := some details.to_, value := some (.bigNumber n),
        data := some ⟨.string "0x0".toList, false⟩, gasToken := some etherDetails.address }
      userWallet.privateKey := by
  rw [transferEther, hparse, hcontract]
  rfl

theorem transferTokens_eq (hcontract : userWallet.contractAddress = some contractAddress)
    (hto : toAddress details.to_ = some receiver)
    (hparse : service.parseEther details.amount = .ok n)
    (hamount : toUint256 (.bigNumber n) = some amount)
    (hfound : service.tokenService.getTokenAddress details.currency = some tokenAddress) :
    service.transferTokens userWallet details = service.sdk.execute
      { from_ := some contractAddress, to_ := some tokenAddress, value := some (.number 0),
        data := some
          ⟨.string (hexlify (encodeCall 0xa9059cbb [receiver.setWidth 256, amount])), false⟩,
        gasToken := some tokenAddress } userWallet.privateKey := by
  have hencode : service.encodeTransfer details.to_ details.amount =
      .ok (encodeCall 0xa9059cbb [receiver.setWidth 256, amount]) := by
    refine except_bind_eq_ok.mpr ⟨n, hparse, ?_⟩
    refine except_bind_eq_ok.mpr ⟨_, encodeAddress_eq hto, ?_⟩
    exact except_bind_eq_ok.mpr ⟨amount, encodeUint_eq hamount, rfl⟩
  rw [transferTokens, hencode, hfound, hcontract]
  rfl

/-- A transfer has the client ask for its message. -/
theorem asked_of_means (hm : service.Means contract tokens details asset receiver amount)
    (ho : Opens service.sdk service.walletService env s userWallet contractAddress)
    (haddress : service.sdk.ethers.address userWallet.privateKey = .ok a) :
    ∃ message unsigned,
      service.transfer details = service.sdk.execute message userWallet.privateKey ∧
      Asked service.sdk env s userWallet.privateKey message unsigned
        (asset.message receiver amount s.lastNonce) := by
  obtain ⟨n, hparse, hamount⟩ := hm.amount
  obtain ⟨hprice, hlimit, hzero⟩ := toUint256_defaults
  have hreads := ho.reads
  rw [transfer, ho.held]
  dsimp only
  rcases hm.currency with hcurrency | ⟨hcurrency, hfirst, htoken⟩
  · have hdata : toBytes (.string "0x0".toList) = some [0] := by decide
    rw [if_pos hcurrency]
    refine ⟨_, _, transferEther_eq ho.address hparse, hreads.completes haddress rfl rfl rfl, ?_,
      rfl, ?_, ?_⟩
    · exact contractArgs_eq_some.mpr ⟨hreads.this, hm.to_, hamount, hdata, hreads.toUint256_nonce,
        hprice, toAddress_hexlify _, hlimit, rfl⟩
    · intro b hb
      cases hb
    · exact (by norm_num : 1 < 2 ^ 53)
  · have hfound := TokenService.getTokenAddress_of_start hm.started hfirst
    rw [if_neg hcurrency]
    refine ⟨_, _, transferTokens_eq ho.address hm.to_ hparse hamount hfound,
      hreads.completes haddress rfl rfl rfl, ?_, rfl, ?_, ?_⟩
    · refine contractArgs_eq_some.mpr
        ⟨hreads.this, htoken, hzero, ?_, hreads.toUint256_nonce, hprice, htoken, hlimit, rfl⟩
      rw [toBytes, arrayify_hexlify]
      rfl
    · intro b hb
      cases hb
    · simp [Asset.message]

end

end TransferService

end UniversalLogin.WalletApp

namespace UniversalLogin

open WalletApp

namespace Sample

/-! A wallet transfers one and a half of a token, whose symbol a later token has as well. -/

def mockToken : Address := 0xba975da4d2459aa3f11d31291a25a8358f84946d

def transferDataHash : Bytes32 := 0x57b2e2654107b33df15fc6799da9ae51a2d2ba8981565eead82f7df982fc9a38
def transferHash : Bytes32 := 0x56bcda618388f999a381b6eca20d3d142c6d5e012dfe72ab002fe882ebc5db3a
def transferSigned : Bytes32 := 0x42038d7ceed223de31dbcbbdba5d27c41d29d67e998949bd11b06def6d9e4028

def transferSignature : Signature where
  r := 0x69a81e61827d806b5870ccdc2f2391f152ff5a2a14e6fc57398a49f5e8b16e24
  s := 0x5f7b7b2003c73d7af66eaf1e11d506ff1ae91b7cc2e7fa671fceff1d27e8556b

def transferMessage : Message :=
  Asset.message newcomer 1500000000000000000 0 (.token mockToken)

/-- The values of the functions at what this message gives them to hash and to recover. -/
def transferCrypto : Crypto where
  keccak256 bs := if bs = transferMessage.data then transferDataHash else
    if bs = packAddress wallet ++ packAddress mockToken ++ packUint256 0 ++
      packUint256 transferDataHash ++ packUint256 0 ++ packUint256 1000000000 ++
      packAddress mockToken ++ packUint256 1000000 ++ packUint256 0 then transferHash else 0
  toEthSignedMessageHash h := if h = transferHash then transferSigned else 0
  ecrecover h v r s :=
    if h = transferSigned ∧ v = 27 ∧ r = transferSignature.r ∧ s = transferSignature.s then actor
    else 0
  recover _ _ := 0

def tokenContract (address : JsString) : TokenContract :=
  ⟨.ok "Mock".toList, .ok (if address = keyString mockToken then "Mock".toList else "Copy".toList)⟩

def tokens : List JsString := [etherNativeToken, keyString mockToken, keyString newcomer]

def heldWallet : HeldWallet := .user ⟨"name".toList, some (keyString wallet), actorKey⟩

def transferService : TransferService where
  sdk := clientOf transferCrypto transferSignature
  walletService := ⟨some heldWallet, .deployed⟩
  tokenService := ((TokenService.new tokens).start tokenContract).2
  parseEther amount :=
    if amount = "1.5".toList then .ok 1500000000000000000 else .error "invalid decimal value"

def transferDetails : TransferDetails := ⟨keyString newcomer, "1.5".toList, "Mock".toList⟩

theorem opens (crypto : Crypto) (signature : Signature) : Opens (clientOf crypto signature)
    transferService.walletService (envOf crypto) keyed.storage heldWallet (keyString wallet) where
  held := rfl
  address := rfl
  reads := readsOf crypto signature

theorem means : transferService.Means tokenContract tokens transferDetails (.token mockToken)
    newcomer 1500000000000000000 where
  to_ := toAddress_hexlify _
  amount := ⟨1500000000000000000, by decide, by decide⟩
  started := Prod.ext (by decide) rfl
  currency := by
    refine .token (by decide) ⟨[etherNativeToken], [keyString newcomer], _, rfl, rfl, rfl, ?_⟩
      (toAddress_hexlify mockToken)
    intro other hother details hdetails
    cases List.mem_singleton.mp hother
    cases hdetails
    decide

set_option maxRecDepth 20000 in
theorem hash_transfer :
    ERC1077.calculateMessageHash transferCrypto wallet transferMessage = transferHash := by decide

end Sample

end UniversalLogin
