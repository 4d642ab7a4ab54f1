import UniversalLogin.Contracts.Initialisation

/-!
# The counterfactual factory

`ProxyCounterfactualFactory.createContract` compares twenty bytes of the calldata it is given with
the public key, deploys a proxy and calls it with that calldata. The bytes are those of the first
address argument, whatever the function. So the new wallet is initialised for the public key if the
calldata are those of an initialize function, and only then: a selector that the wallet does not
know makes the call succeed as well (`createContract_initialises`).
-/

namespace UniversalLogin

open Reentrancy Transition

structure ProxyCounterfactualFactory where
  this : Address
  owner : Address
  initCode : Bytes

namespace ProxyCounterfactualFactory

/-- `bytes20(mload(add(initializeData, 0x30)))` -/
def getKeyFromInitializeData (initializeData : Bytes) : Address :=
  (mload initializeData 0x30 >>> 96).setWidth 160

/-- `create2` deploys the wallet for a salt, if there is none yet, and `call` makes a call to it,
which leaves a world unless it fails. -/
def createContract (f : ProxyCounterfactualFactory) (crypto : Crypto)
    (create2 : Bytes → Bytes32 → Option World) (call : Msg → World → Option World)
    (sender publicKey : Address) (initializeWithENS : Bytes) : Except String World := do
  require (sender = f.owner) ""
  require (publicKey = getKeyFromInitializeData initializeWithENS)
    "Public key and initialize public key are different"
  let finalSalt := crypto.keccak256 (packAddress publicKey)
  match create2 f.initCode finalSalt with
  | none => throw ""
  | some w =>
    match call ⟨f.this, 0, initializeWithENS⟩ w with
    | none => throw "Unable to register ENS domain"
    | some w' => return w'

/-- The initialisation data that the proxies are deployed with, one zero byte, run nothing. -/
theorem dispatch_initData : dispatch code [0] = .fallback := rfl

section
variable {f : ProxyCounterfactualFactory} {crypto : Crypto}
  {create2 : Bytes → Bytes32 → Option World}
  {call : Msg → World → Option World} {sender publicKey : Address} {data : Bytes}

theorem createContract_eq_ok :
    createContract f crypto create2 call sender publicKey data = .ok w' ↔
      sender = f.owner ∧ publicKey = getKeyFromInitializeData data ∧
        ∃ w, create2 f.initCode (crypto.keccak256 (packAddress publicKey)) = some w ∧
          call ⟨f.this, 0, data⟩ w = some w' := by
  simp only [createContract, except_bind_eq_ok, require_eq_ok, exists_const]
  refine and_congr_right fun _ => and_congr_right fun _ => ?_
  cases create2 f.initCode (crypto.keccak256 (packAddress publicKey)) with
  | none =>
    refine iff_of_false (fun h => by cases h) ?_
    rintro ⟨_, h, _⟩
    cases h
  | some w =>
    simp only [Option.some.injEq, exists_eq_left']
    cases call ⟨f.this, 0, data⟩ w with
    | none => exact iff_of_false (fun h => by cases h) (fun h => by cases h)
    | some w' => simp only [except_pure_eq_ok, Option.some.injEq]

/-- The bytes that the factory reads are those of the first address argument. -/
theorem getKeyFromInitializeData_eq : getKeyFromInitializeData data = argAddress data 0 := by
  have hword : slice data 4 32 = slice data 4 12 ++ slice data 16 20 :=
    slice_add (m := 12) (n := 20)
  have hread : slice data 16 32 = slice data 16 20 ++ slice data 36 12 :=
    slice_add (m := 20) (n := 12)
  have hlow : BigEndian.decode (slice data 36 12) < 2 ^ 96 := by
    have := BigEndian.decode_lt (slice data 36 12)
    rw [length_slice] at this
    exact this
  have hkey : BigEndian.decode (slice data 16 20) < 2 ^ 160 := by
    have := BigEndian.decode_lt (slice data 16 20)
    rw [length_slice] at this
    exact this
  apply BitVec.eq_of_toNat_eq
  rw [getKeyFromInitializeData, mload_contents data 16, argAddress, argUint256]
  simp only [wordAt, hword, hread, BigEndian.decode_append, length_slice, BitVec.toNat_setWidth,
    BitVec.toNat_ushiftRight, BitVec.toNat_ofNat, Nat.shiftRight_eq_div_pow]
  have hpow : (256 : Nat) ^ 12 = 2 ^ 96 := by decide
  have hpow' : (256 : Nat) ^ 20 = 2 ^ 160 := by decide
  rw [hpow, hpow']
  omega

end

end ProxyCounterfactualFactory

section
variable {env : Env}

/-- While a call to the wallet runs, nobody calls it back with an administrative call that it
permits or an initialize function that it accepts. -/
def Calm (env : Env) (fs : List (Option Frame)) (s : Storage) (msg : Msg) : Prop :=
  fs ≠ [] →
    (∀ c, dispatch env.code msg.data = .admin c →
      s.keyHasPurpose msg.sender managementKey = false ∧ msg.sender ≠ env.this) ∧
    ∀ key, Initialises env msg.data key → s.initialized = true

/-- The administrative state, and whether an initialize function has begun. -/
structure Settled (state : AdminState) (started : Prop) (i : Bool) (s : Storage) : Prop where
  admin : s.adminState = state
  begun : (s.initialized = true ∨ i = true) ↔ started

namespace Settled

theorem setInitialized (hs : Settled state started true s) :
    Settled state started i { s with initialized := true } :=
  ⟨hs.admin, iff_of_true (.inl rfl) (hs.begun.mp (.inr rfl))⟩

theorem kept : Kept env (Calm env)
    (fun fs w => Settled state started (initialising fs) w.storage) (fun fs _ => fs ≠ []) where
  push h := h
  pop h := h
  balance _ h := h
  call _ := List.cons_ne_nil _ _
  request _ := List.cons_ne_nil _ _
  administered _ hq hg hcall _ happly := by
    obtain ⟨hmanager, hsender⟩ := (hg hq).1 _ hcall
    rcases AdminCall.apply_permitted happly with hmanager' | hsender'
    · rw [hmanager] at hmanager'
      cases hmanager'
    · exact absurd hsender' hsender
  executed h _ _ _ _ := ⟨⟨h.admin, h.begun⟩, fun _ => List.cons_ne_nil _ _⟩
  initialized _ hq hg hcall hfalse := by
    rw [(hg hq).2 _ hcall] at hfalse
    cases hfalse
  registering _ hq hg hcall hfalse := by
    rw [(hg hq).2 _ hcall] at hfalse
    cases hfalse
  refunding h := h
  refunded h := h
  registeringNext h := h
  registered h := setInitialized h
  refundingDeployment h := setInitialized h
  deployed h := setInitialized h

end Settled

theorem start_fallback {w : World} (hcall : dispatch env.code msg.data = .fallback) :
    start env msg gas w = .done (w.receive env.this msg) [] := by
  simp only [start, hcall]
  split <;> rfl

/-- What a call to a new wallet settles: it runs an initialize function, or it changes nothing. -/
inductive Expected (env : Env) (msg : Msg) (s : Storage) : AdminState → Prop → Prop
  | initialises : Initialises env msg.data key →
    Expected env msg s (s.setFirstKey key).adminState True
  | other : (∀ key, ¬ Initialises env msg.data key) → Expected env msg s s.adminState False

/-- A wallet that is not initialised, and a caller without the management purpose. -/
structure Fresh (env : Env) (msg : Msg) (w : World) : Prop where
  code : HasCode env w.storage
  initialized : w.storage.initialized = false
  manager : w.storage.keyHasPurpose msg.sender managementKey = false
  sender : msg.sender ≠ env.this

theorem Fresh.start_keeps (hf : Fresh env msg w) (gas : Gas) :
    ∃ state started, Expected env msg w.storage state started ∧
      (start env msg gas w).Keeps (fun fs w => Settled state started (initialising fs) w.storage)
        (fun fs _ => fs ≠ []) [] := by
  generalize hy : start env msg gas w = y
  have hstart : Start env msg gas (w.receive env.this msg) y := hy ▸ Start.of_start
  have hunbegun : ¬ (w.storage.initialized = true ∨ initialising [] = true) := by
    simp [hf.initialized, initialising]
  cases hstart with
  | quiet hnone =>
    refine ⟨_, _, .other fun key hkey => ?_, ?_⟩
    · rcases hnone with hnone | ⟨hcode, hmaster⟩
      · rw [Initialises, hnone] at hkey
        cases hkey
      · rw [storage_receive] at hmaster
        exact hf.code.elim hcode fun hmaster' => hmaster' hmaster
    · change Settled _ _ _ (w.receive env.this msg).storage
      rw [storage_receive]
      exact ⟨rfl, iff_false_intro hunbegun⟩
  | revert =>
    by_cases h : ∃ key, Initialises env msg.data key
    · obtain ⟨key, hkey⟩ := h
      exact ⟨_, _, .initialises hkey, trivial⟩
    · exact ⟨_, _, .other (not_exists.mp h), trivial⟩
  | administered _ _ happly =>
    rw [storage_receive] at happly
    rcases AdminCall.apply_permitted happly with hmanager | hsender
    · rw [hf.manager] at hmanager
      cases hmanager
    · exact absurd hsender hf.sender
  | executed hcall _ =>
    refine ⟨_, _, .other fun key hkey => ?_, Settled.kept.callOut ?_ fun _ => List.cons_ne_nil _ _⟩
    · rw [Initialises, hcall] at hkey
      cases hkey
    · refine ⟨by simp [World.setExecuted, storage_receive], iff_false_intro ?_⟩
      simp [World.setExecuted, storage_receive, hf.initialized, initialising, Frame.initialising]
  | initialized hcall _ =>
    refine ⟨_, _, .initialises (congrArg Call.initialKey hcall), ?_, iff_of_true (.inl rfl) trivial⟩
    simp [World.setFirstKey, World.setInitialized, storage_receive]
  | registering hcall _ =>
    refine ⟨_, _, .initialises (Start.initialises hcall),
      Settled.kept.callOut ⟨?_, iff_of_true (.inr rfl) trivial⟩ fun _ => List.cons_ne_nil _ _⟩
    simp [World.setFirstKey, storage_receive]

/-- A call to a new wallet that ends, and into which nobody calls back, leaves what is expected. -/
theorem Fresh.settled_of_ends (hf : Fresh env msg w)
    (hcalm : Guarded (step env) (Meets (Calm env)) ⟨w, [], .calling msg⟩ acts)
    (hends : Ends (wallet env) msg w acts d w') :
    ∃ state started, Expected env msg w.storage state started ∧
      Settled state started false w'.storage := by
  cases hends with
  | @start gas _ _ hstart =>
    obtain ⟨state, started, hexpected, hkeeps⟩ := hf.start_keeps gas
    have hstart : start env msg gas w = .done w' d := hstart
    rw [hstart] at hkeeps
    exact ⟨state, started, hexpected, hkeeps⟩
  | @resume acts w₁ f s o gas _ _ hrun hresume =>
    obtain _ | ⟨a, acts⟩ := acts
    · cases hrun
    obtain ⟨m, hstep, hrest⟩ := run_cons.mp hrun
    cases Step.of_step hstep with
    | failRun h => cases h
    | @run _ gas' _ _ _ henact =>
      obtain ⟨state, started, hexpected, hkeeps⟩ := hf.start_keeps gas'
      refine ⟨state, started, hexpected, ?_⟩
      have hm := satisfies_of_enact henact trivial hkeeps
      have hcalm' := (hcalm.2 m hstep)
      have hw₁ := (Settled.kept.run hm (guarded_append.mp hcalm').1 hrest).world
      have hlast : (resume env f o gas w₁).Keeps _ _ [] := Settled.kept.resume hw₁
      have hresume : resume env f o gas w₁ = .done w' d := hresume
      rw [hresume] at hlast
      exact hlast

/-- `call` makes calls as the wallet lets them end, and nobody calls back in between. -/
def CallsCalmly (env : Env) (call : Msg → World → Option World) : Prop :=
  ∀ msg w w', call msg w = some w' → ∃ acts d, Ends (wallet env) msg w acts d w' ∧
    Guarded (step env) (Meets (Calm env)) ⟨w, [], .calling msg⟩ acts

theorem Deployed.fresh (h : Deployed env none w) (hsender : msg.sender ≠ env.this) :
    Fresh env msg w := by
  cases h with
  | proxy hcode hmaster =>
    exact { code := .inr hmaster, initialized := rfl, manager := rfl, sender := hsender }

/-- The new wallet is initialised for the public key exactly if the calldata run an initialize
function. -/
theorem createContract_initialises {f : ProxyCounterfactualFactory}
    (hcreate2 : ∀ w, create2 f.initCode (env.crypto.keccak256 (packAddress publicKey)) = some w →
      Deployed env none w)
    (hcall : CallsCalmly env call) (hfactory : f.this ≠ env.this)
    (hok : f.createContract env.crypto create2 call sender publicKey data = .ok w') :
    (w'.storage.initialized = true ∧ w'.storage.keyHasPurpose publicKey managementKey = true ∧
      w'.storage.requiredSignatures = 1) ↔ ∃ key, Initialises env data key := by
  obtain ⟨_, hkey, w, hw, hw'⟩ := ProxyCounterfactualFactory.createContract_eq_ok.mp hok
  obtain ⟨acts, d, hends, hcalm⟩ := hcall _ _ _ hw'
  have hfresh : Fresh env ⟨f.this, 0, data⟩ w := (hcreate2 w hw).fresh hfactory
  obtain ⟨state, started, hexpected, hsettled⟩ := hfresh.settled_of_ends hcalm hends
  cases hexpected with
  | @initialises key hinit =>
    refine iff_of_true ⟨?_, ?_, ?_⟩ ⟨key, hinit⟩
    · exact (hsettled.begun.mpr trivial).resolve_right nofun
    · have hpublic : publicKey = key := by
        rw [hkey, ProxyCounterfactualFactory.getKeyFromInitializeData_eq]
        exact (initialKey_dispatch hinit).symm
      have hkeys : w'.storage.keys = (w.storage.setFirstKey key).keys :=
        congrArg AdminState.keys hsettled.admin
      simp [KeyHolder.keyHasPurpose, hkeys, hpublic, Storage.setFirstKey, KeyHolder.setFirstKey]
    · exact congrArg AdminState.requiredSignatures hsettled.admin
  | other hnone =>
    refine iff_of_false (fun h => ?_) (not_exists.mpr hnone)
    exact hsettled.begun.mp (.inl h.1)

end

namespace Sample

/-- The factory also hashes the public key. -/
def factoryEnv : Env :=
  { proxyEnv with
    crypto := { crypto with
      keccak256 := fun bs =>
        if bs = packAddress manager then
          0xa133002b7886b67ab3e1b14f4515b30a3346ce545bd4c641b6eb0f3f965ecff1
        else crypto.keccak256 bs } }

def factory : ProxyCounterfactualFactory := ⟨0xf0, relayer, [0]⟩

/-- Only the code of the factory is deployed. -/
def create2 (initCode : Bytes) (_ : Bytes32) : Option World :=
  if initCode = factory.initCode then some proxy else none

/-- The calls that need no other contract. -/
def call (msg : Msg) (w : World) : Option World :=
  if msg.value ≠ 0 then none
  else
    match dispatch .walletMaster msg.data with
    | .fallback => some w
    | .initializeKey key =>
      if w.storage.initialized ∨ w.storage.masterAddress = 0 then none
      else some (w.setFirstKey key).setInitialized
    | _ => none

theorem create2_initCode : create2 factory.initCode salt = some proxy := if_pos rfl

theorem deployed_create2 (h : create2 initCode salt = some w) : Deployed factoryEnv none w := by
  rw [create2] at h
  split at h
  · cases h
    exact .proxy (by decide) (by decide)
  · cases h

theorem callsCalmly_call : CallsCalmly factoryEnv call := by
  intro msg w w' hok
  have hcalm : Guarded (step factoryEnv) (Meets (Calm factoryEnv)) ⟨w, [], .calling msg⟩
      [.run gas] := ⟨fun _ _ _ _ hne => absurd rfl hne, fun _ _ => trivial⟩
  rw [call] at hok
  split at hok
  · cases hok
  next hvalue =>
  have hvalue : msg.value = 0 := not_not.mp hvalue
  split at hok
  · next hcall =>
    cases hok
    refine ⟨[.run gas], [], .start ?_, hcalm⟩
    exact (start_fallback hcall).trans (by rw [receive_of_value_eq_zero hvalue])
  · next key hcall =>
    split at hok
    · cases hok
    next hfresh =>
    cases hok
    obtain ⟨hfalse, hmaster⟩ := not_or.mp hfresh
    exact ⟨[.run gas], [], .start (start_initializeKey (.inr hmaster) hvalue hcall
      (by simpa using hfalse)), hcalm⟩
  · cases hok

def initialData : Bytes := encodeCall initializeKeySelector [manager.setWidth 256]

/-- An unknown selector and, in the place of the first argument, the public key. -/
def unknownData : Bytes := [0xde, 0xad, 0xbe, 0xef] ++ packUint256 (manager.setWidth 256)

theorem createContract_initialData :
    factory.createContract factoryEnv.crypto create2 call relayer manager initialData =
      .ok (proxy.setFirstKey manager).setInitialized := by
  refine ProxyCounterfactualFactory.createContract_eq_ok.mpr
    ⟨rfl, by decide, proxy, create2_initCode, ?_⟩
  have hcall : dispatch .walletMaster initialData = .initializeKey manager := by decide
  simp only [call, hcall]
  rfl

theorem createContract_unknownData :
    factory.createContract factoryEnv.crypto create2 call relayer manager unknownData =
      .ok proxy := by
  refine ProxyCounterfactualFactory.createContract_eq_ok.mpr
    ⟨rfl, by decide, proxy, create2_initCode, ?_⟩
  have hcall : dispatch .walletMaster unknownData = .fallback := by decide
  simp only [call, hcall]
  rfl

end Sample

theorem createContract_initialises_sample :
    ((Sample.proxy.setFirstKey Sample.manager).setInitialized.storage.initialized = true ∧
      (Sample.proxy.setFirstKey Sample.manager).setInitialized.storage.keyHasPurpose Sample.manager
        managementKey = true ∧
      (Sample.proxy.setFirstKey Sample.manager).setInitialized.storage.requiredSignatures = 1) ↔
    ∃ key, Initialises Sample.factoryEnv Sample.initialData key :=
  createContract_initialises (fun _ => Sample.deployed_create2) Sample.callsCalmly_call (by decide)
    Sample.createContract_initialData

/-- The factory succeeds and the wallet is not initialised. -/
theorem createContract_uninitialised :
    Deployed Sample.factoryEnv none Sample.proxy ∧ CallsCalmly Sample.factoryEnv Sample.call ∧
    Sample.factory.createContract Sample.factoryEnv.crypto Sample.create2 Sample.call Sample.relayer
      Sample.manager Sample.unknownData = .ok Sample.proxy ∧
    Sample.proxy.storage.initialized = false :=
  ⟨Sample.deployed_create2 (@Sample.create2_initCode 0), Sample.callsCalmly_call,
    Sample.createContract_unknownData, rfl⟩

end UniversalLogin
