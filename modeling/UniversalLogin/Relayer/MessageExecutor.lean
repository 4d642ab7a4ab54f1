import Mathlib.Data.Nat.Digits.Defs
import UniversalLogin.Commons.Balance
import UniversalLogin.Relayer.Stores

/-!
# MessageExecutor

The execution of a queued message (`MessageExecutor.ts`, `MessageValidator.ts`, `validations.ts`):
the message is encoded as a transaction and checked, the transaction is sent and waited for, and
then the hook of the handler (`MessageHandler.onTransactionSent`) looks at what was sent. The hook
decodes data that the client has chosen (`serialisation.ts`, `utils.ts`).

Strings of hexadecimal digits that ethers makes are written as their bytes, and checksummed
addresses, which are the same strings if they are the same addresses, as addresses.
-/

namespace UniversalLogin

/-! ## Encoding -/

/-- A number as the argument of type `uint` that it is encoded as, if it has no more bits. -/
def encodeUint (width : Nat) (v : BigNumberish) : Except String Uint256 :=
  match bigNumberify v with
  | .ok n =>
    if 0 ≤ n ∧ n < 2 ^ width then .ok (BitVec.ofNat 256 n.toNat) else .error "invalid number value"
  | .error _ => .error "invalid number value"

def encodeAddress (s : JsString) : Except String Uint256 :=
  match toAddress s with
  | some a => .ok (a.setWidth 256)
  | none => .error "invalid address"

def encodeDataForExecuteSigned (message : SignedMessage) : Except String Bytes := do
  let to_ ← encodeAddress message.to_
  let value ← encodeUint 256 message.value
  let data ← arrayify message.data
  let nonce ← encodeUint 256 message.nonce
  let gasPrice ← encodeUint 256 message.gasPrice
  let gasToken ← encodeAddress message.gasToken
  let gasLimit ← encodeUint 256 message.gasLimit
  let operationType ← encodeUint 8 (.number message.operationType)
  let signature ← arrayify (.string message.signature)
  let tail := encodeBytes data
  return encodeCall 0x6d633064 [to_, value, 288, nonce, gasPrice, gasToken, gasLimit, operationType,
    BitVec.ofNat 256 (288 + tail.length)] ++ tail ++ encodeBytes signature

def messageToTransaction (message : SignedMessage) : Except String TransactionRequest := do
  let data ← encodeDataForExecuteSigned message
  return { gasPrice := message.gasPrice, gasLimit := message.gasLimit, to_ := message.from_, data }

/-! ## Decoding -/

/-- A message as it is decoded. -/
structure MessageWithoutFrom where
  to_ : Address
  value : Uint256
  data : Bytes
  nonce : Nat
  gasPrice : Uint256
  gasToken : Address
  gasLimit : Uint256
  operationType : Nat
  signature : Bytes
  deriving DecidableEq

/-- The JavaScript number nearest to `n`: it has 53 bits, and of two as near it is the even one. -/
def nearestNumber (n : Nat) : Nat :=
  let unit := 2 ^ (n.log2 - 52)
  let rest := n % unit
  if 2 * rest < unit ∨ (2 * rest = unit ∧ n / unit % 2 = 0) then n - rest else n - rest + unit

/-- `parseInt(n, 16)` of a `BigNumber`, which is a string of decimal digits. -/
def parseHexOfDecimal (n : Nat) : Nat := nearestNumber (Nat.ofDigits 16 (Nat.digits 10 n))

/-- The four bytes of the selector are dropped and the arguments decoded. -/
def decodeDataForExecuteSigned (data : Bytes) : Except String MessageWithoutFrom :=
  match arity 9 data, argBytes data 2, argBytes data 8 with
  | some _, some messageData, some signature =>
    .ok {
      to_ := argAddress data 0
      value := argUint256 data 1
      data := messageData
      nonce := parseHexOfDecimal (argUint256 data 3).toNat
      gasPrice := argUint256 data 4
      gasToken := argAddress data 5
      gasLimit := argUint256 data 6
      operationType := parseHexOfDecimal ((argUint256 data 7).toNat % 2 ^ 8)
      signature }
  | _, _, _ => .error "insufficient data"

def isDataForFunctionCall (data : Bytes) (sighash : Nat) : Bool :=
  decide (BigEndian.encode 4 sighash = data.take 4)

def isAddKeyCall (data : Bytes) : Bool := isDataForFunctionCall data 0xa2d39bdb

def isAddKeysCall (data : Bytes) : Bool := isDataForFunctionCall data 0x775eed68

/-- The first argument of `addKey` without its first zeros. The data are known to begin with the
selector, which is what is replaced by nothing. -/
def getKeyFromData (data : Bytes) : Except String JsString :=
  match arity 2 data with
  | some _ => .ok (hexlify ((packUint256 (argUint256 data 0)).dropWhile (· = 0)))
  | none => .error "insufficient data for bytes32 type"

/-! ## Validation -/

/-- What the executor is given: the address of the wallet that pays, and the hashes of the codes
that a proxy may have. -/
structure Executor where
  ethers : Ethers
  walletAddress : JsString
  contractWhiteList : List Bytes32

/-- `isContractExist` of the code that is found. -/
def isContract (contractAddress : JsString) : Promise Bool := do
  let bytecode ← query (.getCode contractAddress)
  return decide (bytecode ≠ [])

def hasEnoughToken (gasToken walletContractAddress : JsString) (gasLimit : BigNumberish) :
    Promise Bool := do
  if gasToken = etherNativeToken then
    let walletBalance ← query (.getBalance walletContractAddress)
    let limit ← .lift (bigNumberify gasLimit)
    return decide (limit ≤ walletBalance.toNat)
  else
    let isContract ← isContract gasToken
    ensure (isContract = true) (.invalidContract gasToken)
    let walletContractTokenBalance ← query (.balanceOf gasToken walletContractAddress)
    let limit ← .lift (bigNumberify gasLimit)
    return decide (limit ≤ walletContractTokenBalance.toNat)

def ensureEnoughToken (message : SignedMessage) : Promise Unit := do
  let hasEnough ← hasEnoughToken message.gasToken message.from_ message.gasLimit
  ensure (hasEnough = true) .notEnoughTokens

def ensureEnoughGas (walletAddress : JsString) (transaction : TransactionRequest)
    (message : SignedMessage) : Promise Unit := do
  let estimate ← query (.estimateGas transaction walletAddress)
  let limit ← .lift (bigNumberify message.gasLimit)
  ensure (estimate.toNat ≤ limit) .notEnoughGas

namespace MessageValidator

variable (executor : Executor)

def ensureCorrectProxy (from_ : JsString) : Promise Unit := do
  let proxyByteCode ← query (.getCode from_)
  let proxyContractHash := executor.ethers.crypto.keccak256 proxyByteCode
  ensure (proxyContractHash ∈ executor.contractWhiteList)
    (.invalidProxy from_ proxyContractHash executor.contractWhiteList)

def validate (signedMessage : SignedMessage) (transactionReq : TransactionRequest) :
    Promise Unit := do
  ensureCorrectProxy executor signedMessage.from_
  ensureEnoughToken signedMessage
  ensureEnoughGas executor.walletAddress transactionReq signedMessage

end MessageValidator

/-! ## The hook -/

namespace MessageHandler

def removeReqFromAuthService (from_ : Address) (data : Bytes) : Promise Unit := do
  let key ← .lift (getKeyFromData data)
  AuthorisationService.removeRequest (hexlify (packAddress from_)) key

/-- The events that the hook emits. -/
inductive Hook
  | added
  | keysAdded

/-- The listeners are asynchronous, so that the hook goes on at once. -/
def emit (_ : Hook) (_ : TransactionResponse) : Promise Unit := pure ()

def onTransactionSent (sentTransaction : TransactionResponse) : Promise Unit := do
  let message ← .lift (decodeDataForExecuteSigned sentTransaction.data)
  if message.to_ = sentTransaction.to_ then
    if isAddKeyCall message.data then
      removeReqFromAuthService sentTransaction.to_ message.data
      emit .added sentTransaction
    else if isAddKeysCall message.data then
      emit .keysAdded sentTransaction

end MessageHandler

/-! ## The execution -/

namespace MessageExecutor

variable (executor : Executor)

def executeAndWait (signedMessage : SignedMessage) : Promise TransactionResponse := do
  let transactionReq ← .lift (messageToTransaction signedMessage)
  MessageValidator.validate executor signedMessage transactionReq
  let transactionRes ← query (.sendTransaction transactionReq)
  query (.waitForTransaction transactionRes.hash)
  MessageHandler.onTransactionSent transactionRes
  return transactionRes

end MessageExecutor

end UniversalLogin
