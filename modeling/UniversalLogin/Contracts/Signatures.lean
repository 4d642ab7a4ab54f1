import UniversalLogin.Contracts.Administration

/-!
# Who has signed

The four checks of `executeSigned` accept a byte string only if it begins with at least
`requiredSignatures` signatures of different registered keys. The length check multiplies without
checking for overflow and the loop runs over what the length allows, so this rests on an invariant
of every run: the table is sound, the counter exceeds the number of registered addresses by at most
one, and `requiredSignatures` is bounded and, once an initialize function has begun, not zero.
-/

namespace UniversalLogin

open Reentrancy

section
variable {env : Env}

/-- An initialize function has written its key, or the constructor has. -/
def Begun (env : Env) (initialising : Bool) (s : Storage) : Prop :=
  Initialised env s ∨ initialising = true

theorem Begun.of_initialised (h : Initialised env s) : Begun env i s := .inl h

structure Bounded (env : Env) (i : Bool) (s : Storage) : Prop where
  sound : s.Sound
  counted : s.keyCount.toNat ≤ PartialMap.size s.keyring + 1
  bounded : s.requiredSignatures.toNat ≤ 2 ^ 160
  positive : Begun env i s → s.requiredSignatures ≠ 0

namespace Bounded

theorem keyCount_le (hb : Bounded env i s) : s.keyCount.toNat ≤ 2 ^ 160 := by
  have := hb.counted
  have := hb.sound.size_keyring_lt
  omega

/-- The product in the length check does not wrap. -/
theorem toNat_mul (hb : Bounded env i s) :
    (s.requiredSignatures * 65).toNat = s.requiredSignatures.toNat * 65 := by
  have := hb.bounded
  have h65 : (65 : Uint256).toNat = 65 := rfl
  rw [BitVec.toNat_mul, h65, Nat.mod_eq_of_lt (by omega)]

theorem addKey (hb : Bounded env i s)
    (hok : s.addKey this sender key purpose = .ok (h, events)) :
    Bounded env i { s with toKeyHolder := h } := by
  obtain ⟨hnew, hsound, hring, hcount⟩ := KeyHolder.addKey_keyring hb.sound hok
  refine { sound := hsound, counted := ?_, bounded := hb.bounded, positive := hb.positive }
  have := hb.counted
  dsimp only
  rw [hring, PartialMap.size_insert hnew]
  omega

theorem removeKey (hb : Bounded env i s)
    (hok : s.removeKey this sender key purpose = .ok (h, events)) :
    Bounded env i { s with toKeyHolder := h } := by
  obtain ⟨hsound, hring, hcount⟩ := KeyHolder.removeKey_keyring hb.sound hok
  refine { sound := hsound, counted := ?_, bounded := hb.bounded, positive := hb.positive }
  have := hb.counted
  have := PartialMap.size_le_size_erase (f := s.keyring) (k := key)
  dsimp only
  rw [hring]
  omega

theorem setRequiredSignatures (hb : Bounded env i s)
    (hok : ERC1077.setRequiredSignatures this sender n s = .ok s') : Bounded env i s' := by
  obtain ⟨_, ⟨_, hpos⟩, hle, rfl⟩ := ERC1077.setRequiredSignatures_eq_ok.mp hok
  refine { sound := hb.sound, counted := hb.counted, bounded := ?_, positive := fun _ => ?_ }
  · exact (BitVec.le_def.mp hle).trans hb.keyCount_le
  · exact (BitVec.ne_of_lt hpos).symm

theorem apply (hb : Bounded env i s) (happly : AdminCall.apply this sender c s = .ok (s', events)) :
    Bounded env i s' :=
  AdminCall.apply_invariant (fun _ _ _ _ _ ht hok => ht.addKey hok)
    (fun _ _ _ _ _ hok => hb.removeKey hok) (fun _ _ hok => hb.setRequiredSignatures hok) hb happly

theorem setFirstKey {s : Storage} (hb : s.Sound) : Bounded env i (s.setFirstKey key) where
  sound := KeyHolder.Sound.setFirstKey hb
  counted := by
    change (1 : Uint256).toNat ≤ _
    have : (1 : Uint256).toNat = 1 := rfl
    omega
  bounded := by
    change (1 : Uint256).toNat ≤ _
    decide
  positive _ := by
    change (1 : Uint256) ≠ 0
    decide

theorem kept : Kept env (fun _ _ _ => True) (fun fs w => Bounded env (initialising fs) w.storage)
    (fun _ _ => True) :=
  .of_storage (P := Bounded env) (fun hb _ _ _ happly => hb.apply happly)
    (fun hb => ⟨hb.sound, hb.counted, hb.bounded, hb.positive⟩)
    (fun hb _ _ _ => setFirstKey hb.sound)
    (fun hb => ⟨hb.sound, hb.counted, hb.bounded, fun _ => hb.positive (.inr rfl)⟩)

theorem deployed (h : Deployed env first w) : Bounded env false w.storage := by
  cases h with
  | erc1077 _ => exact setFirstKey (s := Storage.blank) KeyHolder.Sound.blank
  | proxy hcode hmaster =>
    refine { sound := KeyHolder.Sound.blank, counted := Nat.zero_le _, bounded := Nat.zero_le _,
             positive := ?_ }
    rintro ((hcode' | hinit) | hfalse)
    · exact absurd hcode' hcode
    · cases hinit
    · cases hfalse

/-- The invariant holds in every state of every run. -/
theorem reachable (hm : Reachable env m) :
    Bounded env (initialising (frames m.pending)) m.world.storage := by
  obtain ⟨first, w, acts, hw, hrun⟩ := hm
  exact (kept.run_of_true (Machine.satisfies_idle (deployed hw)) hrun).world

end Bounded

/-- The signers of `args`: what its 65-byte chunks recover to over the hash signed for this wallet.
-/
def signersOf (env : Env) (args : ExecuteArgs) : List Address :=
  ERC1077.signers env.crypto args.signatures (ERC1077.signedHash env.crypto env.this args.toMessage)

/-- The checks leave room for no fewer signatures than are required. -/
theorem Bounded.required_le_length {args : ExecuteArgs} (hb : Bounded env i s)
    (hchecks : ERC1077.executeSignedChecks env.crypto env.this args s = .ok ()) :
    s.requiredSignatures.toNat ≤ (signersOf env args).length := by
  obtain ⟨_, hlength, _, _⟩ := ERC1077.executeSignedChecks_eq_ok.mp hchecks
  rw [hb.toNat_mul] at hlength
  rw [signersOf, ERC1077.length_signers]
  omega

/-- Whoever gets past the four checks of `executeSigned` in a reachable state of a wallet that is
initialised or had its key from the constructor has signatures of at least `requiredSignatures`,
hence of at least one, registered keys. The length check does not wrap, and the zero address, which
a failing `ecrecover` returns, is never registered. -/
theorem executeSigned_sound (hm : Reachable env m) :
    m.world.storage.requiredSignatures.toNat * 65 < 2 ^ 256 ∧
    m.world.storage.keyExist 0 = false ∧
    (Initialised env m.world.storage → ∀ args : ExecuteArgs,
      ERC1077.executeSignedChecks env.crypto env.this args m.world.storage = .ok () →
      1 ≤ m.world.storage.requiredSignatures.toNat ∧
      m.world.storage.requiredSignatures.toNat ≤ (signersOf env args).length ∧
      (signersOf env args).Nodup ∧
      ∀ a ∈ signersOf env args, a ≠ 0 ∧ m.world.storage.keyExist a = true) := by
  have hb := Bounded.reachable hm
  refine ⟨?_, hb.sound.not_keyExist_zero, fun hinit args hchecks => ?_⟩
  · have := hb.bounded
    omega
  obtain ⟨_, _, _, hvalid⟩ := ERC1077.executeSignedChecks_eq_ok.mp hchecks
  have hpos := hb.positive (.of_initialised hinit)
  refine ⟨?_, hb.required_le_length hchecks, ERC1077.signers_nodup hvalid, fun a ha => ⟨?_, ?_⟩⟩
  · have : m.world.storage.requiredSignatures.toNat ≠ 0 := fun h0 =>
      hpos (BitVec.eq_of_toNat_eq h0)
    omega
  · exact ERC1077.signers_ne_zero hvalid ha
  · exact (ERC1077.areSignaturesValid_iff.mp hvalid).2 a ha

/-! ## What `canExecute` promises -/

/-- The whole chunks of the signatures recover to registered keys, each larger than the one before.
-/
structure SignedInOrder (env : Env) (s : Storage) (args : ExecuteArgs) : Prop where
  ordered : (0 :: signersOf env args).Pairwise (· < ·)
  registered : ∀ a ∈ signersOf env args, s.keyExist a = true

/-- As many registered keys have signed as are required, and with the next nonce the checks of
`executeSigned` pass. -/
structure Grants (env : Env) (s : Storage) (args : ExecuteArgs) : Prop where
  enough : s.requiredSignatures.toNat ≤ (signersOf env args).length
  distinct : (signersOf env args).Nodup
  registered : ∀ a ∈ signersOf env args, s.keyExist a = true
  checks : args.nonce = s.lastNonce →
    ERC1077.executeSignedChecks env.crypto env.this args s = .ok ()

theorem canExecute_iff {args : ExecuteArgs} {s : Storage} :
    ERC1077.canExecute env.crypto env.this args s.toKeyHolder = true ↔ SignedInOrder env s args :=
  ERC1077.areSignaturesValid_iff.trans ⟨fun h => ⟨h.1, h.2⟩, fun h => ⟨h.ordered, h.registered⟩⟩

/-- `canExecute` looks at the chunks that there are and not at their number, so that it promises
more than `executeSigned` grants exactly when they are in order but too few. -/
theorem canExecute_grants_iff (hm : Reachable env m) (hinit : Initialised env m.world.storage)
    (args : ExecuteArgs) :
    (ERC1077.canExecute env.crypto env.this args m.world.storage.toKeyHolder = true →
      Grants env m.world.storage args) ↔
    (SignedInOrder env m.world.storage args →
      m.world.storage.requiredSignatures.toNat * 65 ≤ args.signatures.length) := by
  have hb := Bounded.reachable hm
  have hlength : (signersOf env args).length = args.signatures.length / 65 := ERC1077.length_signers
  constructor
  · intro hgrants horder
    have henough := (hgrants (canExecute_iff.mpr horder)).enough
    omega
  · intro hlong hvalid
    have horder := canExecute_iff.mp hvalid
    have hlong := hlong horder
    have hpos : m.world.storage.requiredSignatures.toNat ≠ 0 := fun h0 =>
      hb.positive (.of_initialised hinit) (BitVec.eq_of_toNat_eq h0)
    refine { enough := by omega, distinct := ERC1077.signers_nodup hvalid,
             registered := horder.registered, checks := fun hnonce => ?_ }
    refine ERC1077.executeSignedChecks_eq_ok.mpr ⟨by omega, ?_, hnonce, hvalid⟩
    rw [hb.toNat_mul]
    exact hlong

end

/-! ## A signed message

The message with which an action key makes the wallet register a further management key.
-/

namespace Sample

def wallet : Address := 0x9f1a0469cbce2feb53c705746446981548845b3b
def manager : Address := 0x1fb1e54022bcb566883a0a518e23f9e954c2ed83
def actor : Address := 0x17ec8597ff92c3f44523bdc65bf0f1be632917ff
def newcomer : Address := 0x63fc2ad3d021a4d7e64323529a55a9442c444da0

def message : Message where
  to_ := wallet
  value := 0
  data := encodeCall 0xa2d39bdb [newcomer.setWidth 256, 1]
  nonce := 0
  gasPrice := 1
  gasToken := 0
  gasLimit := 1000000
  operationType := .call

def dataHash : Bytes32 := 0x1ac10ad376f55210d48e32d5538d318df440fa47c254c22210c8e3998f5f5e89
def messageHash : Bytes32 := 0x1211b27267e03ad3ba8e5135f0ecb9086af45e8f1e9360b0b5e8fe06c2ef9c7f
def signedHash : Bytes32 := 0x2e47d8590d969af4e2b66818635d8fe345af6fbe56aac6068e712e8123ac3a98

def packed : Bytes :=
  packAddress wallet ++ packAddress wallet ++ packUint256 0 ++ packUint256 dataHash ++
    packUint256 0 ++ packUint256 1 ++ packAddress 0 ++ packUint256 1000000 ++ packUint256 0

/-- `r` and `s` of a signature of `signedHash`; the recovery byte is 27. -/
structure Signature where
  r : Bytes32
  s : Bytes32

def byManager : Signature where
  r := 0x9377c312145a5afb911bf9e8c067bcf6094c533603687850df502b61290bbf5e
  s := 0x4e6440083b6811ba8312a76334bf798cfd5a6d7e97805a57970b571ef448d4e4

def byActor : Signature where
  r := 0x4dcefd784255412d621e854b784bd29b9001d1a62c842a6af3651e60d08eefd4
  s := 0x77b4ef218a4c64e440579b36129a6ddf6288d63ab20b8dd0aa4e39c375f5d266

def Signature.bytes (x : Signature) : Bytes := packUint256 x.r ++ packUint256 x.s ++ [27]

/-- The code of a proxy, one byte, has this hash. -/
def codeHash : Bytes32 := 0x5fe7f977e71dba2ea1a68e21057beebb9be2ac30c6410aa38d4f3fbe41dcffd2

/-- The values of the functions at what the message gives them to hash and to recover. -/
def crypto : Crypto where
  keccak256 bs :=
    if bs = message.data then dataHash
    else if bs = packed then messageHash
    else if bs = [1] then codeHash
    else 0
  toEthSignedMessageHash h := if h = messageHash then signedHash else 0
  ecrecover h v r s :=
    if h = signedHash ∧ v = 27 ∧ r = byManager.r ∧ s = byManager.s then manager
    else if h = signedHash ∧ v = 27 ∧ r = byActor.r ∧ s = byActor.s then actor
    else 0
  recover _ _ := 0

def env : Env := ⟨crypto, wallet, .erc1077⟩

def args : ExecuteArgs := { message with signatures := byActor.bytes }

/-- The wallet after its constructor. -/
def deployed : World :=
  ⟨(ERC1077.constructor manager).1, 10 ^ 18, (ERC1077.constructor manager).2, []⟩

def registerActor : Msg := ⟨manager, 0, encodeCall 0xa2d39bdb [actor.setWidth 256, 2]⟩

def gas : Gas := ⟨900000, 20000⟩

/-- The wallet after its first key has registered the action key. -/
def keyed : World :=
  deployed.setAdministered manager (.addKey actor 2)
    { deployed.storage with
      keys := Function.update deployed.storage.keys actor ⟨2, actor⟩
      keyCount := 2 }
    [.keyAdded actor 2]

theorem dispatch_registerActor :
    dispatch env.code registerActor.data = .admin (.addKey actor 2) := by decide

theorem run_keyed :
    run env (idle deployed) (transaction registerActor gas) = some (idle keyed) := by
  refine run_transaction_admin (by decide) (.inl rfl) rfl dispatch_registerActor ?_
  refine AdminCall.apply_addKey_eq_ok.mpr
    ⟨⟨_, 2⟩, KeyHolder.addKey_eq_ok.mpr ⟨.inl ?_, ?_, ?_, ?_, rfl, rfl⟩, rfl⟩
  all_goals decide

theorem keyed_reachable : Reachable env (idle keyed) :=
  ⟨_, _, _, .erc1077 rfl, run_keyed⟩

set_option maxRecDepth 20000 in
theorem keyed_checks : ERC1077.executeSignedChecks crypto wallet args keyed.storage = .ok () := by
  refine ERC1077.executeSignedChecks_eq_ok.mpr ⟨?_, ?_, ?_, ?_⟩ <;> decide

set_option maxRecDepth 20000 in
theorem signersOf_args : signersOf env args = [actor] := by decide

end Sample

theorem executeSigned_sound_sample :
    signersOf Sample.env Sample.args = [Sample.actor] ∧
    ∀ a ∈ signersOf Sample.env Sample.args, a ≠ 0 ∧ Sample.keyed.storage.keyExist a = true := by
  obtain ⟨_, _, hsound⟩ := executeSigned_sound Sample.keyed_reachable
  obtain ⟨_, _, _, hsigners⟩ := hsound (.inl rfl) Sample.args Sample.keyed_checks
  exact ⟨Sample.signersOf_args, hsigners⟩

theorem canExecute_grants_iff_sample :
    ERC1077.canExecute Sample.crypto Sample.wallet Sample.args Sample.keyed.storage.toKeyHolder
      = true ∧
    Grants Sample.env Sample.keyed.storage Sample.args := by
  have hvalid := (ERC1077.executeSignedChecks_eq_ok.mp Sample.keyed_checks).2.2.2
  have hlong := (ERC1077.executeSignedChecks_eq_ok.mp Sample.keyed_checks).2.1
  exact ⟨hvalid, (canExecute_grants_iff Sample.keyed_reachable (.inl rfl) Sample.args).mpr
    (fun _ => hlong) hvalid⟩

/-- Without any signature `canExecute` answers yes. -/
theorem canExecute_overpromises :
    Reachable Sample.env (idle Sample.keyed) ∧ Initialised Sample.env Sample.keyed.storage ∧
    ERC1077.canExecute Sample.crypto Sample.wallet { Sample.args with signatures := [] }
      Sample.keyed.storage.toKeyHolder = true ∧
    ERC1077.executeSignedChecks Sample.crypto Sample.wallet { Sample.args with signatures := [] }
      Sample.keyed.storage = .error "Invalid signatures" ∧
    ¬ Grants Sample.env Sample.keyed.storage { Sample.args with signatures := [] } := by
  refine ⟨Sample.keyed_reachable, .inl rfl, rfl, rfl, fun hgrants => ?_⟩
  exact absurd hgrants.enough (by decide)

end UniversalLogin
