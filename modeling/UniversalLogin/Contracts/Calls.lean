import UniversalLogin.Contracts.ERC1077

/-!
# Calls of a wallet

The functions of the three wallet contracts, and how calldata selects one of them and its arguments.
The decoder reads 32-byte words, drops the upper bytes of an address, and rejects calldata that is
too short, dynamic arguments that reach past its end and operation types outside the enumeration.
Functions that leave the storage alone are one case, `Call.view`.
-/

namespace UniversalLogin

/-- The contract whose code a wallet runs. The last two run behind a proxy. -/
inductive WalletCode
  | erc1077
  | walletMaster
  | walletMasterWithRefund
  deriving DecidableEq

/-- The functions under `onlyManagementKeyOrThisContract`. -/
inductive AdminCall
  | addKey (key : Address) (purpose : Uint256)
  | addKeys (keys : List Address) (purposes : List Uint256)
  | removeKey (key : Address) (purpose : Uint256)
  | setRequiredSignatures (requiredSignatures : Uint256)
  deriving DecidableEq

def AdminCall.apply (this sender : Address) (c : AdminCall) (s : Storage) :
    Except String (Storage × List Event) :=
  match c with
  | .addKey key purpose => do
    let (h, events) ← s.addKey this sender key purpose
    return ({ s with toKeyHolder := h }, events)
  | .addKeys keys purposes => do
    let (h, events) ← s.addKeys this sender keys purposes
    return ({ s with toKeyHolder := h }, events)
  | .removeKey key purpose => do
    let (h, events) ← s.removeKey this sender key purpose
    return ({ s with toKeyHolder := h }, events)
  | .setRequiredSignatures n => do
    let s ← ERC1077.setRequiredSignatures this sender n s
    return (s, [])

namespace AdminCall

variable {this sender : Address} {s s' : Storage} {events : List Event}

/-- A table of keys and its events, put back into the storage. -/
theorem setHolder_eq_ok {x : Except String (KeyHolder × List Event)} :
    (x >>= fun r => pure ({ s with toKeyHolder := r.1 }, r.2)) = .ok (s', events) ↔
      ∃ h, x = .ok (h, events) ∧ s' = { s with toKeyHolder := h } := by
  simp only [except_bind_eq_ok, except_pure_eq_ok, Prod.mk.injEq]
  constructor
  · rintro ⟨⟨h, _⟩, hok, rfl, rfl⟩
    exact ⟨h, hok, rfl⟩
  · rintro ⟨h, hok, rfl⟩
    exact ⟨(h, events), hok, rfl, rfl⟩

theorem apply_addKey_eq_ok : (addKey key purpose).apply this sender s = .ok (s', events) ↔
    ∃ h, s.addKey this sender key purpose = .ok (h, events) ∧
      s' = { s with toKeyHolder := h } :=
  setHolder_eq_ok

theorem apply_addKeys_eq_ok : (addKeys keys purposes).apply this sender s = .ok (s', events) ↔
    ∃ h, s.addKeys this sender keys purposes = .ok (h, events) ∧
      s' = { s with toKeyHolder := h } :=
  setHolder_eq_ok

theorem apply_removeKey_eq_ok : (removeKey key purpose).apply this sender s = .ok (s', events) ↔
    ∃ h, s.removeKey this sender key purpose = .ok (h, events) ∧
      s' = { s with toKeyHolder := h } :=
  setHolder_eq_ok

theorem apply_setRequiredSignatures_eq_ok :
    (setRequiredSignatures n).apply this sender s = .ok (s', events) ↔
      ERC1077.setRequiredSignatures this sender n s = .ok s' ∧ events = [] := by
  simp only [apply, except_bind_eq_ok, except_pure_eq_ok, Prod.mk.injEq]
  constructor
  · rintro ⟨_, hok, rfl, rfl⟩
    exact ⟨hok, rfl⟩
  · rintro ⟨hok, rfl⟩
    exact ⟨s', hok, rfl, rfl⟩

end AdminCall

/-- The arguments that `registerENS` takes. -/
structure RegisterArgs where
  hashLabel : Bytes32
  name : Bytes
  node : Bytes32
  ens : Address
  registrar : Address
  resolver : Address
  deriving DecidableEq

/-- The arguments that `initializeWithRefund` takes besides those of `initializeWithENS`. -/
structure RefundArgs where
  relayer : Address
  gasPrice : Uint256
  signature : Bytes
  deriving DecidableEq

inductive Call
  | admin (call : AdminCall)
  | executeSigned (args : ExecuteArgs)
  /-- `initialize` -/
  | initializeKey (key : Address)
  | initializeWithENS (key : Address) (ens : RegisterArgs)
  | initializeWithRefund (key : Address) (ens : RegisterArgs) (refund : RefundArgs)
  | view
  | fallback
  /-- The arguments do not decode, which reverts. -/
  | malformed
  deriving DecidableEq

/-- The key that an initialize function is given. -/
def Call.initialKey : Call → Option Address
  | .initializeKey key => some key
  | .initializeWithENS key _ => some key
  | .initializeWithRefund key _ _ => some key
  | _ => none

/-! ## Arguments -/

def selector (data : Bytes) : Nat := BigEndian.decode (data.take 4)

/-- Calldata holds the head words of `n` arguments. -/
def arity (n : Nat) (data : Bytes) : Option Unit :=
  if 4 + 32 * n ≤ data.length then some () else none

def argUint256 (data : Bytes) (i : Nat) : Uint256 := wordAt data (4 + 32 * i)

def argAddress (data : Bytes) (i : Nat) : Address := (argUint256 data i).setWidth 160

/-- A `bytes` or `string` argument: the head word is the offset of its length and contents. -/
def argBytes (data : Bytes) (i : Nat) : Option Bytes :=
  let start := 4 + (argUint256 data i).toNat
  let len := (wordAt data start).toNat
  if start + 32 ≤ data.length ∧ start + 32 + len ≤ data.length then
    some (slice data (start + 32) len)
  else none

/-- An array argument whose elements take a word each. -/
def argWords (data : Bytes) (i : Nat) : Option (List Uint256) :=
  let start := 4 + (argUint256 data i).toNat
  let len := (wordAt data start).toNat
  if start + 32 ≤ data.length ∧ start + 32 + 32 * len ≤ data.length then
    some ((List.range len).map fun j => wordAt data (start + 32 + 32 * j))
  else none

def argOperationType (data : Bytes) (i : Nat) : Option OperationType :=
  match (argUint256 data i).toNat with
  | 0 => some .call
  | 1 => some .delegatecall
  | 2 => some .create
  | _ => none

/-! ## Functions -/

def decodeAddKey (data : Bytes) : Option Call := do
  arity 2 data
  return .admin (.addKey (argAddress data 0) (argUint256 data 1))

def decodeAddKeys (data : Bytes) : Option Call := do
  arity 2 data
  let keys ← argWords data 0
  let purposes ← argWords data 1
  return .admin (.addKeys (keys.map (·.setWidth 160)) purposes)

def decodeRemoveKey (data : Bytes) : Option Call := do
  arity 2 data
  return .admin (.removeKey (argAddress data 0) (argUint256 data 1))

def decodeSetRequiredSignatures (data : Bytes) : Option Call := do
  arity 1 data
  return .admin (.setRequiredSignatures (argUint256 data 0))

def decodeExecuteSigned (data : Bytes) : Option Call := do
  arity 9 data
  let message ← argBytes data 2
  let operationType ← argOperationType data 7
  let signatures ← argBytes data 8
  return .executeSigned {
    to_ := argAddress data 0
    value := argUint256 data 1
    data := message
    nonce := argUint256 data 3
    gasPrice := argUint256 data 4
    gasToken := argAddress data 5
    gasLimit := argUint256 data 6
    operationType
    signatures }

def decodeInitializeKey (data : Bytes) : Option Call := do
  arity 1 data
  return .initializeKey (argAddress data 0)

def argRegister (data : Bytes) : Option RegisterArgs := do
  let name ← argBytes data 2
  return {
    hashLabel := argUint256 data 1
    name
    node := argUint256 data 3
    ens := argAddress data 4
    registrar := argAddress data 5
    resolver := argAddress data 6 }

def decodeInitializeWithENS (data : Bytes) : Option Call := do
  arity 7 data
  let ens ← argRegister data
  return .initializeWithENS (argAddress data 0) ens

def decodeInitializeWithRefund (data : Bytes) : Option Call := do
  arity 10 data
  let ens ← argRegister data
  let signature ← argBytes data 9
  return .initializeWithRefund (argAddress data 0) ens
    { relayer := argAddress data 7, gasPrice := argUint256 data 8, signature }

/-- A function that does not change the storage. Whether its arguments decode is not modelled. -/
def decodeView (_ : Bytes) : Option Call := some .view

/-! ## Selectors: the first four bytes of the hash of a signature -/

def initializeKeySelector : Nat := 0xc4d66de8
def initializeWithENSSelector : Nat := 0x4eb2212d
def initializeWithRefundSelector : Nat := 0xbb3955cc

def erc1077Functions : List (Nat × (Bytes → Option Call)) :=
  [(0xa2d39bdb, decodeAddKey),
   (0x775eed68, decodeAddKeys),
   (0x81dd7b8e, decodeRemoveKey),
   (0x7d2b9cc0, decodeSetRequiredSignatures),
   (0x6d633064, decodeExecuteSigned),
   (0xa30c8c75, decodeView), -- canExecute
   (0x70586bb3, decodeView), -- calculateMessageHash
   (0x724854b0, decodeView), -- getSigner, of a message
   (0xd9d6298f, decodeView), -- keyExist
   (0xe0e18554, decodeView), -- getKeyPurpose
   (0x5e6261fa, decodeView), -- keyHasPurpose
   (0x670d14b2, decodeView), -- keys
   (0xfac750e0, decodeView), -- keyCount
   (0x52631ab4, decodeView), -- lastNonce
   (0x8d068043, decodeView), -- requiredSignatures
   (0x058b316c, decodeView), -- MANAGEMENT_KEY
   (0x75e5598c, decodeView), -- ACTION_KEY
   (0xad45d98e, decodeView), -- etherRefundCharge
   (0x1ab7c343, decodeView)] -- tokenRefundCharge

def walletMasterFunctions : List (Nat × (Bytes → Option Call)) :=
  [(initializeKeySelector, decodeInitializeKey),
   (initializeWithENSSelector, decodeInitializeWithENS),
   (0x8da5cb5b, decodeView), -- owner
   (0xee97f7f3, decodeView), -- master
   (0x5122bb7c, decodeView), -- masterId
   (0x1626ba7e, decodeView), -- isValidSignature
   (0x150b7a02, decodeView)] -- onERC721Received

def walletMasterWithRefundFunctions : List (Nat × (Bytes → Option Call)) :=
  [(initializeWithRefundSelector, decodeInitializeWithRefund),
   (0x25d6406c, decodeView), -- getSigner, of an initialisation
   (0x25a45765, decodeView)] -- calculateInitializeHash

def functions : WalletCode → List (Nat × (Bytes → Option Call))
  | .erc1077 => erc1077Functions
  | .walletMaster => erc1077Functions ++ walletMasterFunctions
  | .walletMasterWithRefund =>
    erc1077Functions ++ walletMasterFunctions ++ walletMasterWithRefundFunctions

/-- The function that a wallet runs on `data`. -/
def dispatch (code : WalletCode) (data : Bytes) : Call :=
  if data.length < 4 then .fallback
  else
    match (functions code).lookup (selector data) with
    | none => .fallback
    | some decode => (decode data).getD .malformed

/-- A call with arguments comes from the decoder that its selector stands for. -/
theorem exists_decode_of_dispatch (hcall : dispatch code data = call) (hfallback : call ≠ .fallback)
    (hmalformed : call ≠ .malformed) :
    ∃ decode, (selector data, decode) ∈ functions code ∧ decode data = some call := by
  rw [dispatch] at hcall
  split at hcall
  · exact absurd hcall.symm hfallback
  split at hcall
  · exact absurd hcall.symm hfallback
  · next decode hlookup =>
    obtain ⟨front, back, heq, _⟩ := List.lookup_eq_some_iff.mp hlookup
    refine ⟨decode, by simp [heq], ?_⟩
    cases hdecode : decode data with
    | none => simp [hdecode, hmalformed.symm] at hcall
    | some c => simpa [hdecode] using hcall

theorem initialKey_of_decode (hmem : (sel, decode) ∈ erc1077Functions)
    (hcall : decode data = some call) : call.initialKey = none := by
  simp only [erc1077Functions, List.mem_cons, Prod.mk.injEq, List.not_mem_nil, or_false] at hmem
  rcases hmem with ⟨_, rfl⟩ | ⟨_, rfl⟩ | ⟨_, rfl⟩ | ⟨_, rfl⟩ | ⟨_, rfl⟩ | ⟨_, rfl⟩ | ⟨_, rfl⟩ |
    ⟨_, rfl⟩ | ⟨_, rfl⟩ | ⟨_, rfl⟩ | ⟨_, rfl⟩ | ⟨_, rfl⟩ | ⟨_, rfl⟩ | ⟨_, rfl⟩ | ⟨_, rfl⟩ | ⟨_, rfl⟩ |
    ⟨_, rfl⟩ | ⟨_, rfl⟩ | ⟨_, rfl⟩
  all_goals
    simp only [decodeAddKey, decodeAddKeys, decodeRemoveKey, decodeSetRequiredSignatures,
      decodeExecuteSigned, decodeView, Option.bind_eq_bind, Option.bind_eq_some_iff,
      Option.pure_def, Option.some.injEq] at hcall
    grind [Call.initialKey]

/-- The functions of `ERC1077` do not initialise. -/
theorem initialKey_dispatch_erc1077 : (dispatch .erc1077 data).initialKey = none := by
  generalize hcall : dispatch .erc1077 data = call
  by_cases hfallback : call = .fallback
  · simp [hfallback, Call.initialKey]
  by_cases hmalformed : call = .malformed
  · simp [hmalformed, Call.initialKey]
  obtain ⟨decode, hmem, hdecode⟩ := exists_decode_of_dispatch hcall hfallback hmalformed
  exact initialKey_of_decode hmem hdecode

/-- The key of an initialize function is its first argument. -/
theorem initialKey_dispatch (hkey : (dispatch code data).initialKey = some key) :
    key = argAddress data 0 := by
  generalize hcall : dispatch code data = call at hkey
  have hfallback : call ≠ .fallback := by rintro rfl; cases hkey
  have hmalformed : call ≠ .malformed := by rintro rfl; cases hkey
  obtain ⟨decode, hmem, hdecode⟩ := exists_decode_of_dispatch hcall hfallback hmalformed
  have herc1077 : (selector data, decode) ∉ erc1077Functions := fun hmem => by
    rw [initialKey_of_decode hmem hdecode] at hkey
    cases hkey
  have hmem :
      (selector data, decode) ∈ walletMasterFunctions ++ walletMasterWithRefundFunctions := by
    cases code <;> simp only [functions, List.mem_append] at hmem ⊢ <;> tauto
  simp only [walletMasterFunctions, walletMasterWithRefundFunctions, List.cons_append,
    List.nil_append, List.mem_cons, Prod.mk.injEq, List.not_mem_nil, or_false] at hmem
  rcases hmem with ⟨_, rfl⟩ | ⟨_, rfl⟩ | ⟨_, rfl⟩ | ⟨_, rfl⟩ | ⟨_, rfl⟩ | ⟨_, rfl⟩ | ⟨_, rfl⟩ |
    ⟨_, rfl⟩ | ⟨_, rfl⟩ | ⟨_, rfl⟩
  all_goals
    simp only [decodeInitializeKey, decodeInitializeWithENS, decodeInitializeWithRefund, decodeView,
      Option.bind_eq_bind, Option.bind_eq_some_iff, Option.pure_def, Option.some.injEq] at hdecode
    grind [Call.initialKey]

/-! ## Calls that a wallet makes to other contracts -/

/-- Calldata of a call with word-sized arguments. -/
def encodeCall (sel : Nat) (args : List Uint256) : Bytes :=
  BigEndian.encode 4 sel ++ args.flatMap packUint256

def encodeTransfer (beneficiary : Address) (amount : Uint256) : Bytes :=
  encodeCall 0xa9059cbb [beneficiary.setWidth 256, amount]

def encodeRegister (hashLabel : Bytes32) (owner : Address) : Bytes :=
  encodeCall 0xd22057a9 [hashLabel, owner.setWidth 256]

def encodeSetResolver (node : Bytes32) (resolver : Address) : Bytes :=
  encodeCall 0x1896f70a [node, resolver.setWidth 256]

def encodeSetAddr (node : Bytes32) (addr : Address) : Bytes :=
  encodeCall 0xd5fa2b00 [node, addr.setWidth 256]

def encodeOwner (node : Bytes32) : Bytes := encodeCall 0x02571be3 [node]

/-- The tail of a `bytes` or `string` argument. -/
def encodeBytes (bs : Bytes) : Bytes :=
  packUint256 (BitVec.ofNat 256 bs.length) ++ bs.rightpad ((bs.length + 31) / 32 * 32) 0

def encodeSetName (name : Bytes) : Bytes := encodeCall 0xc47f0027 [32] ++ encodeBytes name

/-- The calldata with which `executeSigned` is called. -/
def encodeExecuteSigned (args : ExecuteArgs) : Bytes :=
  let data := encodeBytes args.data
  encodeCall 0x6d633064 [args.to_.setWidth 256, args.value, 288, args.nonce, args.gasPrice,
    args.gasToken.setWidth 256, args.gasLimit, args.operationType.toUint256,
    BitVec.ofNat 256 (288 + data.length)] ++ data ++ encodeBytes args.signatures

theorem selector_encodeCall (hsel : sel < 256 ^ 4) :
    selector (encodeCall sel args ++ rest) = sel := by
  have htake : (encodeCall sel args ++ rest).take 4 = BigEndian.encode 4 sel := by
    rw [encodeCall, List.append_assoc]
    exact List.take_left' BigEndian.length_encode
  rw [selector, htake, BigEndian.decode_encode_of_lt hsel]

/-- A selector that a wallet does not know runs its fallback function. -/
theorem dispatch_encodeCall (hsel : sel < 256 ^ 4)
    (hnone : (functions code).lookup sel = none) :
    dispatch code (encodeCall sel args ++ rest) = .fallback := by
  have hlen : ¬ (encodeCall sel args ++ rest).length < 4 := by simp [encodeCall]
  rw [dispatch, if_neg hlen, selector_encodeCall hsel, hnone]

end UniversalLogin
