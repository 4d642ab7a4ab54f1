import UniversalLogin.Contracts.Signatures
import UniversalLogin.Lib.Hex

/-!
# Messages

The messages of the client library (`universal-login-commons`): their fields are strings and numbers
in the forms that ethers takes them, and `calculateMessageHash` packs and hashes them as
`ERC1077.calculateMessageHash` does. A message stands for arguments of the contract if its addresses
are of 20 bytes, its numbers fit into 256 bits and its operation type is in the enumeration
(`UnsignedMessage.contractArgs`); then the client and the contract hash the same bytes
(`calculateMessageHash_agrees`).
-/

namespace UniversalLogin

/-- A JavaScript string, as far as it is looked at: all characters that matter are ASCII. -/
abbrev JsString := List Char

/-- `utils.Arrayish` -/
inductive Arrayish
  | string (s : JsString)
  | bytes (bs : Bytes)
  deriving DecidableEq

/-- `utils.BigNumberish` -/
inductive BigNumberish
  | bigNumber (n : Int)
  | number (n : Int)
  | string (s : JsString)
  deriving DecidableEq

/-! ## What ethers makes of them -/

/-- `utils.arrayify`: a string has to be hexadecimal with its prefix, and may miss a first zero. -/
def arrayify : Arrayish → Except String Bytes
  | .bytes bs => .ok bs
  | .string ('0' :: 'x' :: cs) =>
    match Hex.decode (if cs.length % 2 = 1 then '0' :: cs else cs) with
    | some bs => .ok bs
    | none => .error "invalid hexidecimal string"
  | .string _ => .error "hex string must have 0x prefix"

/-- `utils.hexlify` -/
def hexlify (bs : Bytes) : JsString := '0' :: 'x' :: Hex.encode bs

def decimal (cs : JsString) : Option Nat :=
  cs.foldlM (fun n c => if '0' ≤ c ∧ c ≤ '9' then some (10 * n + (c.toNat - 48)) else none) 0

def parseNumber : JsString → Option Int
  | '0' :: 'x' :: cs => (Hex.toNat cs).map Int.ofNat
  | '-' :: '0' :: 'x' :: cs => (Hex.toNat cs).map fun n => -Int.ofNat n
  | '-' :: cs => (decimal cs).map fun n => -Int.ofNat n
  | cs => (decimal cs).map Int.ofNat

/-- `utils.bigNumberify`: a number has to be a safe integer. -/
def bigNumberify : BigNumberish → Except String Int
  | .bigNumber n => .ok n
  | .number n => if n.natAbs < 2 ^ 53 then .ok n else .error "overflow"
  | .string s =>
    match parseNumber s with
    | some n => .ok n
    | none => .error "invalid BigNumber string value"

/-- A value with its Solidity type, as `utils.solidityKeccak256` takes them. -/
inductive SolidityValue
  | address (s : JsString)
  | uint256 (v : BigNumberish)
  | bytes32 (h : Bytes32)
  | bytes (a : Arrayish)

/-- `toTwos(256)`. The complement of a negative number is taken of its words of 26 bits up to the
bit 256; the words above these stay as they are. -/
def toTwos (n : Int) : Nat :=
  if 0 ≤ n then n.toNat else n.natAbs / 2 ^ 260 * 2 ^ 260 + (2 ^ 256 - n.natAbs % 2 ^ 256)

/-- `padZeros` to 32 bytes -/
def padZeros (n : Nat) : Except String Bytes :=
  if n < 2 ^ 256 then .ok (BigEndian.encode 32 n) else .error "cannot pad"

/-- The packed form: an address and bytes as they are, a number as 256 bits in two's complement. -/
def SolidityValue.pack : SolidityValue → Except String Bytes
  | .address s => arrayify (.string s)
  | .uint256 v => do
    let n ← bigNumberify v
    padZeros (toTwos n)
  | .bytes32 h => .ok (packUint256 h)
  | .bytes a => arrayify a

def solidityPack (values : List SolidityValue) : Except String Bytes := do
  let packed ← values.mapM SolidityValue.pack
  return packed.flatten

def solidityKeccak256 (crypto : Crypto) (values : List SolidityValue) : Except String Bytes32 := do
  let packed ← solidityPack values
  return crypto.keccak256 packed

/-! ## Messages of the client -/

structure UnsignedMessage where
  gasToken : JsString
  operationType : Int
  to_ : JsString
  from_ : JsString
  nonce : BigNumberish
  gasLimit : BigNumberish
  gasPrice : BigNumberish
  data : Arrayish
  value : BigNumberish
  deriving DecidableEq

structure SignedMessage extends UnsignedMessage where
  signature : JsString
  deriving DecidableEq

/-- The arguments of the second call of `solidityKeccak256`. -/
def UnsignedMessage.values (msg : UnsignedMessage) (dataHash : Bytes32) : List SolidityValue :=
  [.address msg.from_, .address msg.to_, .uint256 msg.value, .bytes32 dataHash, .uint256 msg.nonce,
    .uint256 msg.gasPrice, .address msg.gasToken, .uint256 msg.gasLimit,
    .uint256 (.number msg.operationType)]

/-- The bytes that `calculateMessageHash` hashes. -/
def UnsignedMessage.pack (crypto : Crypto) (msg : UnsignedMessage) : Except String Bytes := do
  let dataHash ← solidityKeccak256 crypto [.bytes msg.data]
  solidityPack (msg.values dataHash)

def calculateMessageHash (crypto : Crypto) (msg : UnsignedMessage) : Except String Bytes32 := do
  let dataHash ← solidityKeccak256 crypto [.bytes msg.data]
  solidityKeccak256 crypto (msg.values dataHash)

theorem calculateMessageHash_eq {crypto : Crypto} {msg : UnsignedMessage} :
    calculateMessageHash crypto msg = crypto.keccak256 <$> msg.pack crypto := by
  rw [calculateMessageHash, UnsignedMessage.pack]
  cases solidityKeccak256 crypto [.bytes msg.data] with
  | error _ => rfl
  | ok dataHash =>
    change solidityKeccak256 crypto (msg.values dataHash) = _ <$> solidityPack (msg.values dataHash)
    rw [solidityKeccak256]
    cases solidityPack (msg.values dataHash) <;> rfl

/-! ## The arguments that a message stands for -/

def toAddress (s : JsString) : Option Address :=
  match arrayify (.string s) with
  | .ok bs => if bs.length = 20 then some (BitVec.ofNat 160 (BigEndian.decode bs)) else none
  | .error _ => none

def toUint256 (v : BigNumberish) : Option Uint256 :=
  match bigNumberify v with
  | .ok n => if 0 ≤ n ∧ n < 2 ^ 256 then some (BitVec.ofNat 256 n.toNat) else none
  | .error _ => none

def toBytes (a : Arrayish) : Option Bytes :=
  match arrayify a with
  | .ok bs => some bs
  | .error _ => none

def toOperationType (n : Int) : Option OperationType :=
  if n = 0 then some .call
  else if n = 1 then some .delegatecall
  else if n = 2 then some .create
  else none

/-- The wallet and the signed arguments of `executeSigned`. -/
def UnsignedMessage.contractArgs (msg : UnsignedMessage) : Option (Address × Message) := do
  let wallet ← toAddress msg.from_
  let to_ ← toAddress msg.to_
  let value ← toUint256 msg.value
  let data ← toBytes msg.data
  let nonce ← toUint256 msg.nonce
  let gasPrice ← toUint256 msg.gasPrice
  let gasToken ← toAddress msg.gasToken
  let gasLimit ← toUint256 msg.gasLimit
  let operationType ← toOperationType msg.operationType
  return (wallet, { to_, value, data, nonce, gasPrice, gasToken, gasLimit, operationType })

theorem contractArgs_eq_some {msg : UnsignedMessage} {wallet : Address} {m : Message} :
    msg.contractArgs = some (wallet, m) ↔
      toAddress msg.from_ = some wallet ∧ toAddress msg.to_ = some m.to_ ∧
      toUint256 msg.value = some m.value ∧ toBytes msg.data = some m.data ∧
      toUint256 msg.nonce = some m.nonce ∧ toUint256 msg.gasPrice = some m.gasPrice ∧
      toAddress msg.gasToken = some m.gasToken ∧ toUint256 msg.gasLimit = some m.gasLimit ∧
      toOperationType msg.operationType = some m.operationType := by
  obtain ⟨to_, value, data, nonce, gasPrice, gasToken, gasLimit, operationType⟩ := m
  simp only [UnsignedMessage.contractArgs, Option.bind_eq_bind, Option.bind_eq_some_iff,
    Option.pure_def, Option.some.injEq, Prod.mk.injEq, Message.mk.injEq]
  grind

theorem arrayify_hexlify (bs : Bytes) : arrayify (.string (hexlify bs)) = .ok bs := by
  have hdecode := Hex.decode_encode bs
  have hlen := Hex.length_of_decode hdecode
  rw [hexlify, arrayify, if_neg (by omega), hdecode]

theorem toAddress_hexlify (a : Address) : toAddress (hexlify (packAddress a)) = some a := by
  have hlt : a.toNat < 256 ^ 20 := a.isLt
  have hdecode : BigEndian.decode (packAddress a) = a.toNat := BigEndian.decode_encode_of_lt hlt
  rw [toAddress, arrayify_hexlify]
  simp [hdecode]

/-! ## The client packs what the contract packs -/

theorem pack_address (h : toAddress s = some a) :
    (SolidityValue.address s).pack = .ok (packAddress a) := by
  rw [toAddress] at h
  cases hbytes : arrayify (.string s) with
  | error _ =>
    rw [hbytes] at h
    cases h
  | ok bs =>
    simp only [hbytes, Option.ite_none_right_eq_some, Option.some.injEq] at h
    obtain ⟨hlen, rfl⟩ := h
    have hlt : BigEndian.decode bs < 2 ^ 160 := by
      have := BigEndian.decode_lt bs
      rwa [hlen] at this
    rw [SolidityValue.pack, hbytes, packAddress, BitVec.toNat_ofNat, Nat.mod_eq_of_lt hlt, ← hlen,
      BigEndian.encode_decode]

/-- A number that fits is the value of a word. -/
theorem toUint256_eq_some {v : BigNumberish} {x : Uint256} :
    toUint256 v = some x ↔ bigNumberify v = .ok (x.toNat : Int) := by
  rw [toUint256]
  cases bigNumberify v with
  | error _ => simp
  | ok n =>
    have hlt := x.isLt
    simp only [Option.ite_none_right_eq_some, Option.some.injEq, Except.ok.injEq]
    constructor
    · rintro ⟨⟨hnonneg, hn⟩, rfl⟩
      rw [BitVec.toNat_ofNat, Nat.mod_eq_of_lt (by omega)]
      omega
    · rintro rfl
      exact ⟨by omega, by simp⟩

theorem pack_uint256 (h : toUint256 v = some x) :
    (SolidityValue.uint256 v).pack = .ok (packUint256 x) := by
  have htwos : toTwos (x.toNat : Int) = x.toNat := by simp [toTwos]
  rw [SolidityValue.pack, toUint256_eq_some.mp h]
  change padZeros (toTwos (x.toNat : Int)) = _
  rw [htwos, padZeros, if_pos x.isLt, packUint256]

theorem pack_bytes (h : toBytes a = some bs) : (SolidityValue.bytes a).pack = .ok bs := by
  rw [toBytes] at h
  cases hbytes : arrayify a with
  | error _ =>
    rw [hbytes] at h
    cases h
  | ok bs' =>
    rw [hbytes] at h
    cases h
    exact hbytes

theorem pack_bytes32 : (SolidityValue.bytes32 h).pack = .ok (packUint256 h) := rfl

theorem pack_operationType (h : toOperationType n = some x) :
    (SolidityValue.uint256 (.number n)).pack = .ok (packUint256 x.toUint256) := by
  refine pack_uint256 ?_
  rw [toOperationType] at h
  split at h
  · next hn =>
    cases h
    rw [hn]
    rfl
  split at h
  · next hn =>
    cases h
    rw [hn]
    rfl
  split at h
  · next hn =>
    cases h
    rw [hn]
    rfl
  · cases h

theorem pack_eq_packMessage {msg : UnsignedMessage} {wallet : Address} {m : Message}
    (h : msg.contractArgs = some (wallet, m)) :
    msg.pack crypto = .ok (ERC1077.packMessage crypto wallet m) := by
  obtain ⟨hfrom, hto, hvalue, hdata, hnonce, hprice, htoken, hlimit, htype⟩ :=
    contractArgs_eq_some.mp h
  have hhash : solidityKeccak256 crypto [.bytes msg.data] = .ok (crypto.keccak256 m.data) := by
    simp [solidityKeccak256, solidityPack, pack_bytes hdata]
  have hpack : solidityPack (msg.values (crypto.keccak256 m.data)) =
      .ok (ERC1077.packMessage crypto wallet m) := by
    simp [solidityPack, UnsignedMessage.values, pack_address hfrom, pack_address hto,
      pack_uint256 hvalue, pack_uint256 hnonce, pack_uint256 hprice, pack_address htoken,
      pack_uint256 hlimit, pack_operationType htype, pack_bytes32, ERC1077.packMessage]
  rw [UnsignedMessage.pack, hhash]
  exact hpack

theorem calculateMessageHash_of_contractArgs {msg : UnsignedMessage} {wallet : Address}
    {m : Message} (h : msg.contractArgs = some (wallet, m)) :
    calculateMessageHash crypto msg = .ok (ERC1077.calculateMessageHash crypto wallet m) := by
  rw [calculateMessageHash_eq, pack_eq_packMessage h]
  rfl

/-- The packed form begins with the address of the wallet. -/
theorem pack_eq_append {msg : UnsignedMessage} {wallet : Address}
    (hfrom : toAddress msg.from_ = some wallet) (hpack : msg.pack crypto = .ok bs) :
    ∃ rest, bs = packAddress wallet ++ rest := by
  rw [UnsignedMessage.pack] at hpack
  obtain ⟨dataHash, _, hpack⟩ := except_bind_eq_ok.mp hpack
  obtain ⟨packed, hpacked, hbs⟩ := except_bind_eq_ok.mp hpack
  rw [UnsignedMessage.values, List.mapM_cons, pack_address hfrom] at hpacked
  obtain ⟨first, hfirst, hpacked⟩ := except_bind_eq_ok.mp hpacked
  obtain ⟨rest, _, hpacked⟩ := except_bind_eq_ok.mp hpacked
  refine ⟨rest.flatten, ?_⟩
  rw [← except_pure_eq_ok.mp hbs, ← except_pure_eq_ok.mp hpacked, ← Except.ok.inj hfirst,
    List.flatten_cons]

/-- The client hashes the bytes that the contract hashes, and they determine the wallet and all
signed arguments: the data through their hash, and the bytes through theirs, where `keccak256` does
not collide. -/
theorem calculateMessageHash_agrees {crypto : Crypto} {msg : UnsignedMessage} {wallet : Address}
    {m : Message} (h : msg.contractArgs = some (wallet, m)) :
    msg.pack crypto = .ok (ERC1077.packMessage crypto wallet m) ∧
    calculateMessageHash crypto msg = .ok (ERC1077.calculateMessageHash crypto wallet m) ∧
    ∀ msg' wallet' m', UnsignedMessage.contractArgs msg' = some (wallet', m') →
      (crypto.keccak256 m.data = crypto.keccak256 m'.data → m.data = m'.data) →
      (msg.pack crypto = msg'.pack crypto → wallet = wallet' ∧ m = m') ∧
      ((crypto.keccak256 (ERC1077.packMessage crypto wallet m) =
          crypto.keccak256 (ERC1077.packMessage crypto wallet' m') →
        ERC1077.packMessage crypto wallet m = ERC1077.packMessage crypto wallet' m') →
      calculateMessageHash crypto msg = calculateMessageHash crypto msg' →
        wallet = wallet' ∧ m = m') := by
  refine ⟨pack_eq_packMessage h, calculateMessageHash_of_contractArgs h,
    fun msg' wallet' m' h' hdata => ⟨?_, ?_⟩⟩
  · intro hpack
    rw [pack_eq_packMessage h, pack_eq_packMessage h'] at hpack
    exact ERC1077.packMessage_inj (Except.ok.inj hpack) hdata
  · intro hcollision heq
    rw [calculateMessageHash_of_contractArgs h, calculateMessageHash_of_contractArgs h'] at heq
    exact ERC1077.packMessage_inj (hcollision (Except.ok.inj heq)) hdata

namespace Sample

/-- The sample message as a client sends it. -/
def unsigned : UnsignedMessage where
  gasToken := hexlify (packAddress 0)
  operationType := 0
  to_ := hexlify (packAddress wallet)
  from_ := hexlify (packAddress wallet)
  nonce := .number 0
  gasLimit := .string ['1', '0', '0', '0', '0', '0', '0']
  gasPrice := .string ['0', 'x', '1']
  data := .string (hexlify message.data)
  value := .bigNumber 0

theorem contractArgs_unsigned : unsigned.contractArgs = some (wallet, message) := by
  have hdata : toBytes unsigned.data = some message.data := by
    rw [unsigned, toBytes, arrayify_hexlify]
  refine contractArgs_eq_some.mpr ⟨toAddress_hexlify _, toAddress_hexlify _, ?_, hdata, ?_, ?_,
    toAddress_hexlify _, ?_, rfl⟩ <;> decide

set_option maxRecDepth 20000 in
theorem hash_message : ERC1077.calculateMessageHash crypto wallet message = messageHash := by decide

end Sample

theorem calculateMessageHash_agrees_sample :
    calculateMessageHash Sample.crypto Sample.unsigned = .ok Sample.messageHash := by
  rw [← Sample.hash_message]
  exact (calculateMessageHash_agrees Sample.contractArgs_unsigned).2.1

end UniversalLogin
