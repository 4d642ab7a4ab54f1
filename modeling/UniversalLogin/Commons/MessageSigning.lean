import UniversalLogin.Commons.MessageSignatures
import UniversalLogin.Lib.Comparator

/-!
# Signing with several keys

`calculateMessageSignatures` should put the signatures of a message into the order in which the
wallet wants them (`calculateMessageSignature.ts`). It signs first and then gives the signatures to
the function that sorts private keys, whose comparator makes a wallet of each, so that it works with
one key only (`calculateMessageSignatures_agrees_iff`).
-/

namespace UniversalLogin

/-- `Wallet` of ethers. -/
structure EthersWallets where
  /-- `new Wallet(privateKey).address` -/
  address : JsString → Except String Address
  /-- `new Wallet(privateKey).signMessage(utils.arrayify(hash))` -/
  signMessage : JsString → Bytes32 → JsString

/-- The double that is nearest to a number; of two, the one with an even significand. -/
def toDouble (n : Nat) : Nat :=
  let unit := 2 ^ (n.log2 - 52)
  let significand := n / unit
  let rest := n % unit
  if unit < 2 * rest ∨ unit = 2 * rest ∧ significand % 2 = 1 then (significand + 1) * unit
  else significand * unit

example : toDouble (2 ^ 53 + 1) = 2 ^ 53 ∧ toDouble (2 ^ 53 + 3) = 2 ^ 53 + 4 := by decide

section
variable (ethers : EthersWallets) (crypto : Crypto)

def calculateMessageSignature (privateKey : JsString) (msg : UnsignedMessage) :
    Except String JsString := do
  let _ ← ethers.address privateKey
  let messageHash ← calculateMessageHash crypto msg
  return ethers.signMessage privateKey messageHash

/-- The addresses are compared as `parseInt` reads them. -/
def addressComparator (privateKey1 privateKey2 : JsString) : Except String Int := do
  let address1 ← ethers.address privateKey1
  let address2 ← ethers.address privateKey2
  return if toDouble address1.toNat > toDouble address2.toNat then 1
    else if toDouble address1.toNat < toDouble address2.toNat then -1
    else 0

def sortPrivateKeysByAddress (privateKeys : List JsString) : Except String (List JsString) :=
  Comparator.sortBy (addressComparator ethers) privateKeys

def calculateMessageSignatures (privateKeys : List JsString) (msg : UnsignedMessage) :
    Except String JsString := do
  let signatures ← privateKeys.mapM fun value => calculateMessageSignature ethers crypto value msg
  let sortedSignatures ← sortPrivateKeysByAddress ethers signatures
  concatenateSignatures sortedSignatures

end

/-- What ethers does with private keys and the hash of a message: it accepts keys of 32 bytes only,
and `ecrecover` recovers the address of a key from what it signs. -/
structure EthersWallets.SignsFor (ethers : EthersWallets) (crypto : Crypto)
    (messageHash : Bytes32) : Prop where
  keys : ∀ s a, ethers.address s = .ok a → ∃ bs, arrayify (.string s) = .ok bs ∧ bs.length = 32
  signs : ∀ s a, ethers.address s = .ok a → ∃ bytes : Bytes, bytes.length = 65 ∧
    ethers.signMessage s messageHash = hexlify bytes ∧
    ERC1077.chunkSigner crypto (crypto.toEthSignedMessageHash messageHash) bytes = a

/-- The address of the first key is below that of the second. -/
def EthersWallets.Before (ethers : EthersWallets) (k k' : JsString) : Prop :=
  ∃ a a', ethers.address k = .ok a ∧ ethers.address k' = .ok a' ∧ a < a'

/-- `calculateMessageSignatures` resolves to the signatures of the keys in ascending order of their
addresses, and the wallet accepts them. -/
def AgreesWithWallet (ethers : EthersWallets) (crypto : Crypto) (h : KeyHolder)
    (wallet : Address) (m : Message) (privateKeys : List JsString) (msg : UnsignedMessage) : Prop :=
  ∃ (sorted : List JsString) (signatures : JsString) (bytes : Bytes),
    sorted.Perm privateKeys ∧ sorted.Pairwise ethers.Before ∧
    concatenateSignatures (sorted.map fun k =>
      ethers.signMessage k (ERC1077.calculateMessageHash crypto wallet m)) = .ok signatures ∧
    calculateMessageSignatures ethers crypto privateKeys msg = .ok signatures ∧
    toBytes (.string signatures) = some bytes ∧
    ERC1077.areSignaturesValid crypto h bytes (ERC1077.signedHash crypto wallet m) = true

section
variable {ethers : EthersWallets} {crypto : Crypto} {privateKeys : List JsString}
  {msg : UnsignedMessage} {wallet : Address} {m : Message} {h : KeyHolder} {messageHash : Bytes32}

/-- Private keys are sorted by the rounded numbers of their addresses. -/
theorem sortPrivateKeysByAddress_eq {f : JsString → Address}
    (hkeys : ∀ k ∈ privateKeys, ethers.address k = .ok (f k)) :
    sortPrivateKeysByAddress ethers privateKeys = .ok
      (privateKeys.insertionSort fun k k' => toDouble (f k).toNat ≤ toDouble (f k').toNat) := by
  refine Comparator.sortBy_eq (f := fun k => toDouble (f k).toNat) fun k hk k' hk' => ?_
  simp only [addressComparator, except_bind_eq_ok, hkeys k hk, hkeys k' hk', Except.ok.injEq,
    exists_eq_left', except_pure_eq_ok]
  split
  · omega
  split <;> omega

theorem calculateMessageSignature_eq (hargs : msg.contractArgs = some (wallet, m))
    (hkey : ethers.address k = .ok a) : calculateMessageSignature ethers crypto k msg =
      .ok (ethers.signMessage k (ERC1077.calculateMessageHash crypto wallet m)) := by
  simp [calculateMessageSignature, hkey, calculateMessageHash_of_contractArgs hargs]

theorem mapM_calculateMessageSignature (crypto : Crypto)
    (hargs : msg.contractArgs = some (wallet, m))
    (hkeys : ∀ k ∈ privateKeys, ∃ a, ethers.address k = .ok a) :
    (privateKeys.mapM fun k => calculateMessageSignature ethers crypto k msg) =
      .ok (privateKeys.map fun k =>
        ethers.signMessage k (ERC1077.calculateMessageHash crypto wallet m)) := by
  induction privateKeys with
  | nil => rfl
  | cons k privateKeys ih =>
    obtain ⟨a, hk⟩ := hkeys k List.mem_cons_self
    have hrest := ih fun k hk => hkeys k (List.mem_cons_of_mem _ hk)
    simp only [List.mapM_cons, except_bind_eq_ok, except_pure_eq_ok]
    exact ⟨_, calculateMessageSignature_eq hargs hk, _, hrest, rfl⟩

/-- A signature is not a private key. -/
theorem EthersWallets.SignsFor.not_key (hethers : ethers.SignsFor crypto messageHash)
    (hkey : ethers.address k = .ok a) :
    ethers.address (ethers.signMessage k messageHash) ≠ .ok a' := by
  intro haddress
  obtain ⟨bytes, hlength, hsign, _⟩ := hethers.signs k a hkey
  obtain ⟨bs, hbs, hlength'⟩ := hethers.keys _ a' haddress
  rw [hsign, arrayify_hexlify] at hbs
  cases hbs
  omega

/-- With more than one key the comparator is called, and fails. -/
theorem length_le_one_of_calculateMessageSignatures
    (hethers : ethers.SignsFor crypto (ERC1077.calculateMessageHash crypto wallet m))
    (hargs : msg.contractArgs = some (wallet, m))
    (hkeys : ∀ k ∈ privateKeys, ∃ a, ethers.address k = .ok a)
    (hok : calculateMessageSignatures ethers crypto privateKeys msg = .ok signatures) :
    privateKeys.length ≤ 1 := by
  simp only [calculateMessageSignatures, mapM_calculateMessageSignature crypto hargs hkeys,
    except_bind_eq_ok, Except.ok.injEq, exists_eq_left'] at hok
  obtain ⟨sorted, hsorted, _⟩ := hok
  by_contra hlong
  obtain ⟨s, hs, s', _, c, hc⟩ :=
    Comparator.exists_compared hsorted (by simpa using hlong)
  obtain ⟨k, hk, rfl⟩ := List.mem_map.mp hs
  obtain ⟨a, hkey⟩ := hkeys k hk
  rw [addressComparator] at hc
  obtain ⟨a', haddress, _⟩ := except_bind_eq_ok.mp hc
  exact hethers.not_key hkey haddress

theorem concatenateSignatures_singleton {bytes : Bytes} (hlength : bytes.length = 65) :
    concatenateSignatures [hexlify bytes] = .ok (hexlify bytes) := by
  have hencode : (Hex.encode bytes).length = 130 := by
    rw [Hex.length_of_decode (Hex.decode_encode bytes), hlength]
  have hremove : removePrefix (hexlify bytes) = .ok (Hex.encode bytes) :=
    removePrefix_eq_ok.mpr ⟨rfl, hencode⟩
  refine except_bind_eq_ok.mpr ⟨[Hex.encode bytes], ?_, by simp [hexlify]⟩
  simp [hremove]

/-- The wallet accepts a signature of one registered key. -/
theorem areSignaturesValid_singleton {bytes : Bytes} {dataHash : Bytes32} (hsound : h.Sound)
    (hlength : bytes.length = 65) (hregistered :
      h.keyExist (ERC1077.chunkSigner crypto dataHash bytes) = true) :
    ERC1077.areSignaturesValid crypto h bytes dataHash = true := by
  have hsigners : ERC1077.signers crypto bytes dataHash =
      [ERC1077.chunkSigner crypto dataHash bytes] := by
    have hchunks : ∀ c ∈ [bytes], c.length = 65 := by simpa using hlength
    simpa using ERC1077.signers_flatten hchunks
  have hne : ERC1077.chunkSigner crypto dataHash bytes ≠ 0 := by
    intro h0
    rw [h0, hsound.not_keyExist_zero] at hregistered
    cases hregistered
  have hpos : 0 < ERC1077.chunkSigner crypto dataHash bytes := by bv_omega
  rw [ERC1077.areSignaturesValid_iff, hsigners]
  simpa using ⟨hpos, hregistered⟩

/-- What one key has signed is passed on as it is. -/
theorem agreesWithWallet_singleton
    (hethers : ethers.SignsFor crypto (ERC1077.calculateMessageHash crypto wallet m))
    (hargs : msg.contractArgs = some (wallet, m)) (hsound : h.Sound)
    (hkey : ethers.address k = .ok a) (hregistered : h.keyExist a = true) :
    AgreesWithWallet ethers crypto h wallet m [k] msg := by
  obtain ⟨bytes, hlength, hsign, rfl⟩ := hethers.signs k a hkey
  have hconcatenate := concatenateSignatures_singleton hlength
  refine ⟨[k], hexlify bytes, bytes, .refl _, List.pairwise_singleton .., ?_, ?_, ?_, ?_⟩
  · rw [List.map_singleton, hsign, hconcatenate]
  · have hsingle : ∀ k' ∈ [k], ∃ a, ethers.address k' = .ok a := by simpa using ⟨_, hkey⟩
    have hmap := mapM_calculateMessageSignature crypto hargs hsingle
    rw [List.map_singleton, hsign] at hmap
    rw [calculateMessageSignatures, hmap]
    exact hconcatenate
  · rw [toBytes, arrayify_hexlify]
  · exact areSignaturesValid_singleton hsound hlength hregistered

end

/-- With keys that are registered in a wallet, `calculateMessageSignatures` agrees with the wallet
exactly if there is just one. -/
theorem calculateMessageSignatures_agrees_iff {env : Env} {ethers : EthersWallets}
    {msg : UnsignedMessage} {message : Message} {privateKeys : List JsString}
    (hm : Reachable env m) (hargs : msg.contractArgs = some (env.this, message))
    (hethers : ethers.SignsFor env.crypto
      (ERC1077.calculateMessageHash env.crypto env.this message))
    (hsome : privateKeys ≠ [])
    (hregistered : ∀ k ∈ privateKeys, ∃ a, ethers.address k = .ok a ∧
      m.world.storage.keyExist a = true) :
    AgreesWithWallet ethers env.crypto m.world.storage.toKeyHolder env.this message privateKeys
      msg ↔ privateKeys.length = 1 := by
  constructor
  · rintro ⟨_, signatures, _, _, _, _, hok, _⟩
    have hle := length_le_one_of_calculateMessageSignatures hethers hargs
      (fun k hk => (hregistered k hk).imp fun _ ha => ha.1) hok
    have hpos := List.length_pos_iff.mpr hsome
    omega
  · intro hone
    obtain ⟨k, rfl⟩ := List.length_eq_one_iff.mp hone
    obtain ⟨a, hkey, ha⟩ := hregistered k List.mem_cons_self
    exact agreesWithWallet_singleton hethers hargs (Bounded.reachable hm).sound hkey ha

namespace Sample

def actorKey : JsString :=
  hexlify (packUint256 0x29f3edee0ad3abf8e2699402e0e28cd6492c9be7eaab00d732a791c33552f797)

def managerKey : JsString :=
  hexlify (packUint256 0x63f01680950dc70f2eb8f373de0c360fcbb89ef437f2f6f2f0a1797979e490a4)

/-- The two keys and what they sign. -/
def wallets : EthersWallets where
  address s :=
    if s = actorKey then .ok actor
    else if s = managerKey then .ok manager
    else .error "exactly 32 bytes required"
  signMessage s _ := hexlify (if s = actorKey then byActor.bytes else byManager.bytes)

theorem managerKey_ne_actorKey : managerKey ≠ actorKey := by decide

theorem address_actorKey : wallets.address actorKey = .ok actor := by simp [wallets]

theorem address_managerKey : wallets.address managerKey = .ok manager := by
  simp [wallets, managerKey_ne_actorKey]

theorem eq_key_of_address (h : wallets.address s = .ok a) :
    s = actorKey ∧ a = actor ∨ s = managerKey ∧ a = manager := by
  simp only [wallets] at h
  split at h
  · next hs => exact .inl ⟨hs, (Except.ok.inj h).symm⟩
  split at h
  · next hs => exact .inr ⟨hs, (Except.ok.inj h).symm⟩
  · cases h

theorem signsFor_wallets : wallets.SignsFor crypto messageHash where
  keys s a h := by
    rcases eq_key_of_address h with ⟨rfl, _⟩ | ⟨rfl, _⟩
    all_goals exact ⟨_, arrayify_hexlify _, by decide⟩
  signs s a h := by
    rcases eq_key_of_address h with ⟨rfl, rfl⟩ | ⟨rfl, rfl⟩
    · exact ⟨byActor.bytes, by decide, by simp [wallets], by decide⟩
    · exact ⟨byManager.bytes, by decide, by simp [wallets, managerKey_ne_actorKey], by decide⟩

end Sample

/-- The action key signs the sample message. -/
theorem calculateMessageSignatures_agrees_iff_sample :
    AgreesWithWallet Sample.wallets Sample.crypto Sample.keyed.storage.toKeyHolder Sample.wallet
      Sample.message [Sample.actorKey] Sample.unsigned := by
  refine (calculateMessageSignatures_agrees_iff Sample.keyed_reachable Sample.contractArgs_unsigned
    (Sample.hash_message ▸ Sample.signsFor_wallets) (List.cons_ne_nil _ _) ?_).mpr rfl
  intro k hk
  obtain rfl := List.mem_singleton.mp hk
  exact ⟨_, Sample.address_actorKey, by decide⟩

/-- With both keys of a wallet nothing is returned. -/
theorem not_agreesWithWallet_two :
    Reachable Sample.env (idle Sample.keyed) ∧
    Sample.wallets.SignsFor Sample.crypto
      (ERC1077.calculateMessageHash Sample.crypto Sample.wallet Sample.message) ∧
    (∀ k ∈ [Sample.actorKey, Sample.managerKey], ∃ a, Sample.wallets.address k = .ok a ∧
      Sample.keyed.storage.keyExist a = true) ∧
    calculateMessageSignatures Sample.wallets Sample.crypto
      [Sample.actorKey, Sample.managerKey] Sample.unsigned = .error "exactly 32 bytes required" ∧
    ¬ AgreesWithWallet Sample.wallets Sample.crypto Sample.keyed.storage.toKeyHolder Sample.wallet
      Sample.message [Sample.actorKey, Sample.managerKey] Sample.unsigned := by
  have hkeys : ∀ k ∈ [Sample.actorKey, Sample.managerKey], ∃ a, Sample.wallets.address k = .ok a ∧
      Sample.keyed.storage.keyExist a = true := by
    intro k hk
    rcases List.mem_pair.mp hk with rfl | rfl
    · exact ⟨_, Sample.address_actorKey, by decide⟩
    · exact ⟨_, Sample.address_managerKey, by decide⟩
  have herror : calculateMessageSignatures Sample.wallets Sample.crypto
      [Sample.actorKey, Sample.managerKey] Sample.unsigned =
        .error "exactly 32 bytes required" := by
    rw [calculateMessageSignatures, mapM_calculateMessageSignature _ Sample.contractArgs_unsigned
      fun k hk => (hkeys k hk).imp fun _ ha => ha.1]
    decide
  refine ⟨Sample.keyed_reachable, Sample.hash_message ▸ Sample.signsFor_wallets, hkeys, herror, ?_⟩
  rintro ⟨_, signatures, _, _, _, _, hok, _⟩
  rw [herror] at hok
  cases hok

end UniversalLogin
