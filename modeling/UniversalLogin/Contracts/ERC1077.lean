import UniversalLogin.Contracts.KeyHolder

/-!
# ERC1077

Signed messages (`ERC1077.sol`): the hash that is signed, the loop that recovers the signers from a
byte string of 65-byte signatures, the checks of `executeSigned` and the number of signatures they
ask for. The loop accepts exactly the strings whose signers are registered and strictly increasing
(`areSignaturesValid_iff`).
-/

namespace UniversalLogin

inductive OperationType
  | call
  | delegatecall
  | create
  deriving DecidableEq

def OperationType.toUint256 : OperationType → Uint256
  | .call => 0
  | .delegatecall => 1
  | .create => 2

/-- The arguments of `executeSigned` that are signed, together with the address of the wallet. -/
structure Message where
  to_ : Address
  value : Uint256
  data : Bytes
  nonce : Uint256
  gasPrice : Uint256
  gasToken : Address
  gasLimit : Uint256
  operationType : OperationType
  deriving DecidableEq

structure ExecuteArgs extends Message where
  signatures : Bytes
  deriving DecidableEq

/-- The storage of a wallet: the variables of `KeyHolder`, `Store` and `ERC1077`. A wallet that is
not behind a proxy does not use the ones of `Store`. -/
structure Storage extends KeyHolder where
  masterAddress : Address
  initialized : Bool
  lastNonce : Uint256
  requiredSignatures : Uint256

def Storage.blank : Storage := ⟨KeyHolder.blank, 0, false, 0, 0⟩

namespace ERC1077

/-- The storage and the events that the constructor leaves. -/
def constructor (key : Address) : Storage × List Event :=
  ({ Storage.blank with
      toKeyHolder := KeyHolder.blank.setFirstKey key
      requiredSignatures := 1 },
    [.keyAdded key managementKey])

def etherRefundCharge : Nat := 14000

def tokenRefundCharge : Nat := 19500

def refundGas (gasToken : Address) : Nat :=
  if gasToken = 0 then etherRefundCharge else tokenRefundCharge

/-- `abi.encodePacked` of the nine signed arguments -/
def packMessage (crypto : Crypto) (wallet : Address) (m : Message) : Bytes :=
  packAddress wallet ++ packAddress m.to_ ++ packUint256 m.value ++
    packUint256 (crypto.keccak256 m.data) ++ packUint256 m.nonce ++ packUint256 m.gasPrice ++
    packAddress m.gasToken ++ packUint256 m.gasLimit ++ packUint256 m.operationType.toUint256

def calculateMessageHash (crypto : Crypto) (wallet : Address) (m : Message) : Bytes32 :=
  crypto.keccak256 (packMessage crypto wallet m)

/-- The signer that one iteration of the loop of `areSignaturesValid` recovers. -/
def signerAt (crypto : Crypto) (signatures : Bytes) (dataHash : Bytes32) (i : Nat) : Address :=
  let signaturePos := 0x41 * i
  let r := mload signatures (signaturePos + 0x20)
  let s := mload signatures (signaturePos + 0x40)
  let v := mload signatures (signaturePos + 0x41) &&& 0xff
  crypto.ecrecover dataHash (v.setWidth 8) r s

/-- The loop of `areSignaturesValid` with `n` iterations to go, from iteration `i` on. -/
def signaturesLoop (crypto : Crypto) (h : KeyHolder) (signatures : Bytes) (dataHash : Bytes32) :
    Nat → Nat → Address → Bool
  | 0, _, _ => true
  | n + 1, i, lastSigner =>
    let signer := signerAt crypto signatures dataHash i
    if !h.keyExist signer || signer ≤ lastSigner then false
    else signaturesLoop crypto h signatures dataHash n (i + 1) signer

def areSignaturesValid (crypto : Crypto) (h : KeyHolder) (signatures : Bytes)
    (dataHash : Bytes32) : Bool :=
  signaturesLoop crypto h signatures dataHash (signatures.length / 65) 0 0

/-- The hash that the signers of a message sign. -/
def signedHash (crypto : Crypto) (wallet : Address) (m : Message) : Bytes32 :=
  crypto.toEthSignedMessageHash (calculateMessageHash crypto wallet m)

def canExecute (crypto : Crypto) (this : Address) (args : ExecuteArgs) (h : KeyHolder) : Bool :=
  areSignaturesValid crypto h args.signatures (signedHash crypto this args.toMessage)

def setRequiredSignatures (this sender : Address) (requiredSignatures : Uint256) (s : Storage) :
    Except String Storage := do
  s.onlyManagementKeyOrThisContract this sender
  require (requiredSignatures ≠ s.requiredSignatures ∧ 0 < requiredSignatures)
    "Invalid required signature"
  require (requiredSignatures ≤ s.keyCount) "Signatures exceed owned keys number"
  return { s with requiredSignatures }

/-- The four `require` statements that `executeSigned` begins with. -/
def executeSignedChecks (crypto : Crypto) (this : Address) (args : ExecuteArgs) (s : Storage) :
    Except String Unit := do
  require (args.signatures.length ≠ 0) "Invalid signatures"
  require ((s.requiredSignatures * 65).toNat ≤ args.signatures.length) "Not enough signatures"
  require (args.nonce = s.lastNonce) "Invalid nonce"
  require (canExecute crypto this args s.toKeyHolder) "Invalid signature"

theorem executeSignedChecks_eq_ok {crypto : Crypto} {args : ExecuteArgs} {s : Storage} {u : Unit} :
    executeSignedChecks crypto this args s = .ok u ↔
      args.signatures.length ≠ 0 ∧
      (s.requiredSignatures * 65).toNat ≤ args.signatures.length ∧
      args.nonce = s.lastNonce ∧ canExecute crypto this args s.toKeyHolder := by
  simp only [executeSignedChecks, except_bind_eq_ok, require_eq_ok, exists_const]

theorem setRequiredSignatures_eq_ok {s s' : Storage} :
    setRequiredSignatures this sender n s = .ok s' ↔
      (s.keyHasPurpose sender managementKey ∨ sender = this) ∧
      (n ≠ s.requiredSignatures ∧ 0 < n) ∧ n ≤ s.keyCount ∧
      s' = { s with requiredSignatures := n } := by
  simp only [setRequiredSignatures, KeyHolder.onlyManagementKeyOrThisContract, except_bind_eq_ok,
    require_eq_ok, except_pure_eq_ok, exists_const]
  grind

/-! ## The packed message -/

theorem toUint256_operationType_inj {x y : OperationType} (h : x.toUint256 = y.toUint256) :
    x = y := by
  cases x <;> cases y <;> first | rfl | exact absurd h (by decide)

/-- The packed form determines the wallet and every argument, the data through its hash. -/
theorem packMessage_inj {crypto : Crypto} {wallet wallet' : Address} {m m' : Message}
    (h : packMessage crypto wallet m = packMessage crypto wallet' m')
    (hdata : crypto.keccak256 m.data = crypto.keccak256 m'.data → m.data = m'.data) :
    wallet = wallet' ∧ m = m' := by
  obtain ⟨to_, value, data, nonce, gasPrice, gasToken, gasLimit, operationType⟩ := m
  obtain ⟨to_', value', data', nonce', gasPrice', gasToken', gasLimit', operationType'⟩ := m'
  simp only [packMessage, List.append_assoc] at h
  obtain ⟨hwallet, h⟩ := packAddress_append_inj h
  obtain ⟨hto, h⟩ := packAddress_append_inj h
  obtain ⟨hvalue, h⟩ := packUint256_append_inj h
  obtain ⟨hhash, h⟩ := packUint256_append_inj h
  obtain ⟨hnonce, h⟩ := packUint256_append_inj h
  obtain ⟨hprice, h⟩ := packUint256_append_inj h
  obtain ⟨htoken, h⟩ := packAddress_append_inj h
  obtain ⟨hlimit, h⟩ := packUint256_append_inj h
  have htype : packUint256 operationType.toUint256 ++ [] =
      packUint256 operationType'.toUint256 ++ [] := congrArg (· ++ []) h
  have htype := toUint256_operationType_inj (packUint256_append_inj htype).1
  have hdata := hdata hhash
  simp_all

/-! ## The signers of a byte string of signatures -/

/-- The address that a 65-byte signature recovers to: `r`, `s` and the recovery byte in a row. -/
def chunkSigner (crypto : Crypto) (dataHash : Bytes32) (chunk : Bytes) : Address :=
  crypto.ecrecover dataHash (chunk.getD 64 0).toBitVec
    (BitVec.ofNat 256 (BigEndian.decode (chunk.take 32)))
    (BitVec.ofNat 256 (BigEndian.decode ((chunk.drop 32).take 32)))

/-- The `i`-th 65-byte chunk. -/
def chunk (signatures : Bytes) (i : Nat) : Bytes := (signatures.drop (65 * i)).take 65

/-- What the whole 65-byte chunks of a byte string recover to, in their order. -/
def signers (crypto : Crypto) (signatures : Bytes) (dataHash : Bytes32) : List Address :=
  (List.range (signatures.length / 65)).map fun i =>
    chunkSigner crypto dataHash (chunk signatures i)

variable {crypto : Crypto} {h : KeyHolder} {signatures : Bytes} {dataHash : Bytes32}

theorem length_signers :
    (signers crypto signatures dataHash).length = signatures.length / 65 := by
  simp [signers]

/-- The low byte of the word that ends at position `pos + 31`. -/
theorem setWidth_wordAt {bs : Bytes} (hpos : pos + 32 ≤ bs.length) :
    (wordAt bs pos &&& 0xff).setWidth 8 = (bs.getD (pos + 31) 0).toBitVec := by
  have hlen : ((bs.drop pos).take 31).length = 31 := by simp; omega
  have hlast : (bs.drop pos).take 32 = (bs.drop pos).take 31 ++ [bs.getD (pos + 31) 0] := by
    have hget : (bs.drop pos)[31]? = some (bs.getD (pos + 31) 0) := by
      rw [List.getElem?_drop, List.getD_eq_getElem?_getD, List.getElem?_eq_getElem (by omega)]
      rfl
    rw [List.take_add_one, hget]
    rfl
  apply BitVec.eq_of_toNat_eq
  have hmask : ((0xff : Uint256)).toNat = 2 ^ 8 - 1 := rfl
  have hbyte : (bs.getD (pos + 31) 0).toNat < 2 ^ 8 := UInt8.toNat_lt _
  rw [BitVec.toNat_setWidth, BitVec.toNat_and, hmask, Nat.and_two_pow_sub_one_eq_mod, wordAt,
    slice_eq_take hpos, hlast, BigEndian.decode_append_singleton, BitVec.toNat_ofNat]
  change _ = (bs.getD (pos + 31) 0).toNat
  omega

/-- Within bounds the assembly reads the chunk. -/
theorem signerAt_eq (hi : i < signatures.length / 65) :
    signerAt crypto signatures dataHash i = chunkSigner crypto dataHash (chunk signatures i) := by
  have hbound : 65 * i + 65 ≤ signatures.length := by omega
  have hr : slice signatures (65 * i) 32 = (chunk signatures i).take 32 := by
    rw [slice_eq_take (by omega), chunk, List.take_take]
    rfl
  have hs : slice signatures (65 * i + 32) 32 = ((chunk signatures i).drop 32).take 32 := by
    rw [slice_eq_take (by omega), chunk, List.drop_take, List.take_take, List.drop_drop]
    rfl
  have hv : (chunk signatures i).getD 64 0 = signatures.getD (65 * i + 33 + 31) 0 := by
    simp [chunk, List.getD_eq_getElem?_getD, List.getElem?_drop]
  have hpos : 0x41 * i + 0x41 = (65 * i + 33) + 32 := by omega
  simp only [signerAt, chunkSigner, hpos, hv]
  rw [show 0x41 * i + 0x40 = (65 * i + 32) + 32 by omega, mload_contents, mload_contents,
    mload_contents, setWidth_wordAt (by omega)]
  simp only [wordAt, hr, hs]

theorem signaturesLoop_iff :
    signaturesLoop crypto h signatures dataHash n i lastSigner = true ↔
      (lastSigner :: (List.range' i n).map (signerAt crypto signatures dataHash)).IsChain (· < ·) ∧
      ∀ j ∈ List.range' i n, h.keyExist (signerAt crypto signatures dataHash j) := by
  induction n generalizing i lastSigner with
  | zero => simp [signaturesLoop]
  | succ n ih =>
    simp only [signaturesLoop, List.range'_succ, List.map_cons, List.isChain_cons_cons,
      List.forall_mem_cons]
    by_cases hexist : h.keyExist (signerAt crypto signatures dataHash i) = true
    · by_cases hle : signerAt crypto signatures dataHash i ≤ lastSigner
      · have hlt : ¬ lastSigner < signerAt crypto signatures dataHash i := BitVec.not_lt.mpr hle
        simp [hexist, hle]
      · have hlt : lastSigner < signerAt crypto signatures dataHash i := BitVec.not_le.mp hle
        simp [hexist, hle, hlt, ih]
    · simp [hexist]

/-- `areSignaturesValid` accepts the strings whose signers are registered and strictly increasing
from above the zero address on. -/
theorem areSignaturesValid_iff :
    areSignaturesValid crypto h signatures dataHash = true ↔
      (0 :: signers crypto signatures dataHash).Pairwise (· < ·) ∧
      ∀ a ∈ signers crypto signatures dataHash, h.keyExist a := by
  have hsigners : (List.range' 0 (signatures.length / 65)).map (signerAt crypto signatures dataHash)
      = signers crypto signatures dataHash := by
    rw [signers, ← List.range_eq_range']
    exact List.map_congr_left fun i hi => signerAt_eq (List.mem_range.mp hi)
  rw [areSignaturesValid, signaturesLoop_iff,
    ← List.forall_mem_map (P := fun a => h.keyExist a = true), hsigners,
    List.isChain_iff_pairwise]

theorem signers_nil : signers crypto [] dataHash = [] := rfl

theorem signers_append {c rest : Bytes} (hc : c.length = 65) :
    signers crypto (c ++ rest) dataHash =
      chunkSigner crypto dataHash c :: signers crypto rest dataHash := by
  have hcount : (c ++ rest).length / 65 = rest.length / 65 + 1 := by
    rw [List.length_append, hc]
    omega
  have hfirst : chunk (c ++ rest) 0 = c := by simp [chunk, hc]
  have hnext : ∀ i, chunk (c ++ rest) (i + 1) = chunk rest i := by
    intro i
    rw [chunk, chunk, List.drop_append, List.drop_eq_nil_of_le (by omega), hc, List.nil_append,
      show 65 * (i + 1) - 65 = 65 * i by omega]
  rw [signers, signers, hcount, List.range_succ_eq_map, List.map_cons, List.map_map, hfirst]
  simp only [Function.comp_def, Nat.succ_eq_add_one, hnext]

/-- A concatenation of 65-byte signatures has their signers. -/
theorem signers_flatten {chunks : List Bytes} (h : ∀ c ∈ chunks, c.length = 65) :
    signers crypto chunks.flatten dataHash = chunks.map (chunkSigner crypto dataHash) := by
  induction chunks with
  | nil => exact signers_nil
  | cons c chunks ih =>
    rw [List.flatten_cons, signers_append (h c List.mem_cons_self), List.map_cons,
      ih fun c hc => h c (List.mem_cons_of_mem _ hc)]

theorem signers_nodup (hvalid : areSignaturesValid crypto h signatures dataHash = true) :
    (signers crypto signatures dataHash).Nodup := by
  have hpair := (List.pairwise_cons.mp (areSignaturesValid_iff.mp hvalid).1).2
  exact hpair.imp fun hlt => BitVec.ne_of_lt hlt

theorem signers_ne_zero (hvalid : areSignaturesValid crypto h signatures dataHash = true)
    (ha : a ∈ signers crypto signatures dataHash) : a ≠ 0 := by
  have hlt := (List.pairwise_cons.mp (areSignaturesValid_iff.mp hvalid).1).1 a ha
  exact (BitVec.ne_of_lt hlt).symm

end ERC1077

end UniversalLogin
