import UniversalLogin.Contracts.Signatures

/-!
# Keys, their counter and the threshold

`keyCount` should be the number of registered addresses, and `requiredSignatures` should not exceed
it. `removeKey` keeps neither: it does not ask whether the key is registered, so it may count a key
less without erasing one, and it does not look at `requiredSignatures`. In runs that avoid what it
leaves open, both hold (`keyCount_exact`, `wallet_operable`).
-/

namespace UniversalLogin

open Reentrancy Transition

section
variable {env : Env}

/-- The call runs `removeKey` on `key` and passes what `removeKey` checks. -/
structure Removes (env : Env) (s : Storage) (msg : Msg) (key : Address) : Prop where
  call : dispatch env.code msg.data = .admin (.removeKey key (s.getKeyPurpose key))
  unpaid : msg.value = 0
  permitted : s.keyHasPurpose msg.sender managementKey ∨ msg.sender = env.this
  other : key ≠ msg.sender
  counted : s.keyCount ≠ 0

theorem Removes.of_removeKey (hcall : dispatch env.code msg.data = .admin (.removeKey key purpose))
    (hvalue : msg.value = 0)
    (hok : s.removeKey env.this msg.sender key purpose = .ok (h, events)) :
    Removes env s msg key := by
  obtain ⟨hperm, hother, hpurpose, hcount, _⟩ := KeyHolder.removeKey_eq_ok.mp hok
  refine ⟨?_, hvalue, hperm, hother, ?_⟩
  · rw [hcall, KeyHolder.getKeyPurpose, hpurpose]
  · intro h0
    have := SafeMath.toNat_sub_one hcount
    rw [h0] at this
    simp at this

/-! ## The threshold -/

/-- `removeKey` takes a registered key only while there are more than the threshold asks for, and
no initialize function writes the zero key. -/
def KeepsThreshold (env : Env) (_ : List (Option Frame)) (s : Storage) (msg : Msg) : Prop :=
  (∀ key, Removes env s msg key → s.keyExist key = true →
    s.requiredSignatures.toNat < s.registered.ncard) ∧
  ∀ key, Initialises env msg.data key → s.initialized = false → key ≠ 0

structure Operable (env : Env) (i : Bool) (s : Storage) : Prop where
  sound : s.Sound
  counted : s.keyCount.toNat ≤ PartialMap.size s.keyring
  covered : s.requiredSignatures.toNat ≤ PartialMap.size s.keyring
  positive : Begun env i s → s.requiredSignatures ≠ 0

namespace Operable

theorem addKey (ho : Operable env i s)
    (hok : s.addKey this sender key purpose = .ok (h, events)) :
    Operable env i { s with toKeyHolder := h } := by
  obtain ⟨hnew, hsound, hring, hcount⟩ := KeyHolder.addKey_keyring ho.sound hok
  have hsize := PartialMap.size_insert (b := purpose) hnew
  have := ho.counted
  have := ho.covered
  refine { sound := hsound, counted := ?_, covered := ?_, positive := ho.positive }
  all_goals
    dsimp only
    rw [hring, hsize]
    omega

theorem removeKey (ho : Operable env i s)
    (hroom : s.keyExist key = true → s.requiredSignatures.toNat < s.registered.ncard)
    (hok : s.removeKey this sender key purpose = .ok (h, events)) :
    Operable env i { s with toKeyHolder := h } := by
  obtain ⟨hsound, hring, hcount⟩ := KeyHolder.removeKey_keyring ho.sound hok
  have hsize := PartialMap.size_le_size_erase (f := s.keyring) (k := key)
  have := ho.counted
  have := ho.covered
  refine { sound := hsound, counted := ?_, covered := ?_, positive := ho.positive }
  · dsimp only
    rw [hring]
    omega
  · dsimp only
    rw [hring]
    by_cases hexist : s.keyExist key = true
    · have hlt := hroom hexist
      rw [KeyHolder.ncard_registered] at hlt
      omega
    · rw [PartialMap.erase_of_eq_none (KeyHolder.keyring_eq_none.mpr (by simpa using hexist))]
      exact ho.covered

theorem setRequiredSignatures (ho : Operable env i s)
    (hok : ERC1077.setRequiredSignatures this sender n s = .ok s') : Operable env i s' := by
  obtain ⟨_, ⟨_, hpos⟩, hle, rfl⟩ := ERC1077.setRequiredSignatures_eq_ok.mp hok
  exact { sound := ho.sound, counted := ho.counted
          covered := (BitVec.le_def.mp hle).trans ho.counted
          positive := fun _ => (BitVec.ne_of_lt hpos).symm }

theorem setFirstKey {s : Storage} (hs : s.Sound) (hkey : key ≠ 0) :
    Operable env i (s.setFirstKey key) := by
  have hring : (s.setFirstKey key).keyring = PartialMap.insert s.keyring key managementKey :=
    KeyHolder.keyring_update_own hkey rfl
  have hsize : 1 ≤ PartialMap.size (s.setFirstKey key).keyring :=
    PartialMap.one_le_size (k := key) (by simp [hring])
  exact { sound := KeyHolder.Sound.setFirstKey hs, counted := hsize, covered := hsize
          positive := fun _ => by change (1 : Uint256) ≠ 0; decide }

theorem kept : Kept env (KeepsThreshold env) (fun fs w => Operable env (initialising fs) w.storage)
    (fun _ _ => True) := by
  refine .of_storage (P := Operable env) ?_ ?_ ?_ ?_
  · intro fs s msg c s' events ho hg hcall hvalue happly
    refine AdminCall.apply_invariant (fun _ _ _ _ _ ht hok => ht.addKey hok) ?_
      (fun _ _ hok => ho.setRequiredSignatures hok) ho happly
    rintro key purpose h removed rfl hok
    exact ho.removeKey (hg.1 key (.of_removeKey hcall hvalue hok)) hok
  · exact fun ho => ⟨ho.sound, ho.counted, ho.covered, ho.positive⟩
  · exact fun ho hg hcall hinit => setFirstKey ho.sound (hg.2 _ hcall hinit)
  · exact fun ho => ⟨ho.sound, ho.counted, ho.covered, fun _ => ho.positive (.inr rfl)⟩

theorem deployed (h : Deployed env first w) (hfirst : first ≠ some 0) :
    Operable env false w.storage := by
  cases h with
  | @erc1077 key _ _ =>
    exact setFirstKey (s := Storage.blank) KeyHolder.Sound.blank fun h0 => hfirst (h0 ▸ rfl)
  | proxy hcode hmaster =>
    refine { sound := KeyHolder.Sound.blank, counted := Nat.zero_le _, covered := Nat.zero_le _,
             positive := ?_ }
    rintro ((hcode' | hinit) | hfalse)
    · exact absurd hcode' hcode
    · cases hinit
    · cases hfalse

end Operable

/-- As long as `removeKey` leaves more keys than the threshold asks for, the registered keys can
authorise the next message. -/
theorem wallet_operable (hdeployed : Deployed env first w) (hfirst : first ≠ some 0)
    (hguarded : Guarded (step env) (Meets (KeepsThreshold env)) (idle w) acts)
    (hrun : run env (idle w) acts = some m) (hinit : Initialised env m.world.storage) :
    1 ≤ m.world.storage.requiredSignatures.toNat ∧
      m.world.storage.requiredSignatures.toNat ≤ m.world.storage.registered.ncard := by
  have ho : Operable env (initialising (frames m.pending)) m.world.storage :=
    (Operable.kept.run (Machine.satisfies_idle (Operable.deployed hdeployed hfirst)) hguarded
      hrun).world
  constructor
  · have hpos := ho.positive (.of_initialised hinit)
    have : m.world.storage.requiredSignatures.toNat ≠ 0 := fun h0 =>
      hpos (BitVec.eq_of_toNat_eq h0)
    omega
  · rw [KeyHolder.ncard_registered]
    exact ho.covered

end

namespace Sample

theorem not_removes_registerActor : ¬ Removes env s registerActor key := by
  rintro ⟨hcall, _⟩
  rw [dispatch_registerActor] at hcall
  cases hcall

theorem not_initialises_registerActor : ¬ Initialises env registerActor.data key := by
  intro hcall
  rw [Initialises, dispatch_registerActor] at hcall
  cases hcall

theorem deployed_env : Deployed env (some manager) deployed := .erc1077 rfl

theorem manager_ne_zero : (some manager : Option Address) ≠ some 0 := by decide

def requireBoth : Msg := ⟨manager, 0, encodeCall 0x7d2b9cc0 [2]⟩

def removeActor : Msg := ⟨manager, 0, encodeCall 0x81dd7b8e [actor.setWidth 256, 2]⟩

/-- The wallet after its manager has asked for two signatures. -/
def both : World :=
  keyed.setAdministered manager (.setRequiredSignatures 2)
    { keyed.storage with requiredSignatures := 2 } []

/-- The wallet after its manager has then removed the second key. -/
def stuck : World :=
  both.setAdministered manager (.removeKey actor 2)
    { both.storage with
      keys := Function.update both.storage.keys actor Key.blank
      keyCount := 1 }
    [.keyRemoved actor 2]

theorem run_both : run env (idle keyed) (transaction requireBoth gas) = some (idle both) := by
  refine run_transaction_admin (by decide) (.inl rfl) rfl
    (c := .setRequiredSignatures 2) (by decide) ?_
  refine AdminCall.apply_setRequiredSignatures_eq_ok.mpr
    ⟨ERC1077.setRequiredSignatures_eq_ok.mpr ⟨.inl ?_, ?_, ?_, rfl⟩, rfl⟩
  all_goals decide

theorem run_stuck : run env (idle both) (transaction removeActor gas) = some (idle stuck) := by
  refine run_transaction_admin (by decide) (.inl rfl) rfl
    (c := .removeKey actor 2) (by decide) ?_
  refine AdminCall.apply_removeKey_eq_ok.mpr
    ⟨⟨_, 1⟩, KeyHolder.removeKey_eq_ok.mpr ⟨.inl ?_, ?_, ?_, ?_, rfl, rfl⟩, rfl⟩
  all_goals decide

theorem registered_stuck : stuck.storage.registered = {manager} := by
  ext a
  change (stuck.storage.keys a).key != 0 ↔ a = manager
  by_cases hactor : a = actor
  · subst hactor
    decide
  by_cases hmanager : a = manager
  · subst hmanager
    decide
  have hkeys : stuck.storage.keys a = Key.blank := by
    change Function.update (Function.update _ _ _) _ _ a = _
    rw [Function.update_of_ne hactor, Function.update_of_ne hactor]
    exact Function.update_of_ne hmanager _ _
  simp [hkeys, hmanager, Key.blank]

end Sample

theorem wallet_operable_sample :
    1 ≤ Sample.keyed.storage.requiredSignatures.toNat ∧
      Sample.keyed.storage.requiredSignatures.toNat ≤ Sample.keyed.storage.registered.ncard := by
  refine wallet_operable Sample.deployed_env Sample.manager_ne_zero (guarded_transaction ?_)
    Sample.run_keyed (.inl rfl)
  exact ⟨fun _ h => absurd h Sample.not_removes_registerActor,
    fun _ h => absurd h Sample.not_initialises_registerActor⟩

/-- A management key registers a second key, asks for two signatures and removes the second key. -/
theorem wallet_inoperable :
    Deployed Sample.env (some Sample.manager) Sample.deployed ∧
    run Sample.env (idle Sample.deployed) (transaction Sample.registerActor Sample.gas ++
      transaction Sample.requireBoth Sample.gas ++ transaction Sample.removeActor Sample.gas) =
      some (idle Sample.stuck) ∧
    ¬ (Sample.stuck.storage.requiredSignatures.toNat ≤ Sample.stuck.storage.registered.ncard) := by
  refine ⟨Sample.deployed_env, ?_, ?_⟩
  · have hboth := run_append.mpr ⟨_, Sample.run_keyed, Sample.run_both⟩
    exact run_append.mpr ⟨_, hboth, Sample.run_stuck⟩
  · rw [Sample.registered_stuck, Set.ncard_singleton]
    decide

section
variable {env : Env}

/-! ## The counter -/

/-- `removeKey` takes a registered key only, and an initialize function writes a key other than zero
into an empty table. -/
def KeepsCount (env : Env) (_ : List (Option Frame)) (s : Storage) (msg : Msg) : Prop :=
  (∀ key, Removes env s msg key → s.keyExist key = true) ∧
  ∀ key, Initialises env msg.data key → s.initialized = false →
    key ≠ 0 ∧ s.registered = ∅

structure Exact (s : Storage) : Prop where
  sound : s.Sound
  exact : s.keyCount.toNat = PartialMap.size s.keyring

namespace Exact

theorem addKey (he : Exact s) (hok : s.addKey this sender key purpose = .ok (h, events)) :
    Exact { s with toKeyHolder := h } := by
  obtain ⟨hnew, hsound, hring, hcount⟩ := KeyHolder.addKey_keyring he.sound hok
  refine ⟨hsound, ?_⟩
  dsimp only
  rw [hring, hcount, PartialMap.size_insert hnew, he.exact]

theorem removeKey (he : Exact s) (hexist : s.keyExist key = true)
    (hok : s.removeKey this sender key purpose = .ok (h, events)) :
    Exact { s with toKeyHolder := h } := by
  obtain ⟨hsound, hring, hcount⟩ := KeyHolder.removeKey_keyring he.sound hok
  refine ⟨hsound, ?_⟩
  have hpresent : s.keyring key ≠ none := KeyHolder.mem_dom_keyring.mpr hexist
  have := PartialMap.size_erase hpresent
  have := he.exact
  dsimp only
  rw [hring]
  omega

theorem setFirstKey {s : Storage} (hs : s.Sound) (hkey : key ≠ 0) (hempty : s.registered = ∅) :
    Exact (s.setFirstKey key) := by
  have hnone : s.keyring = fun _ => none := by
    funext a
    rw [KeyHolder.keyring_eq_none]
    have ha : a ∉ s.registered := hempty ▸ Set.notMem_empty a
    simpa [KeyHolder.registered] using ha
  have hring : (s.setFirstKey key).keyring = PartialMap.insert s.keyring key managementKey :=
    KeyHolder.keyring_update_own hkey rfl
  refine ⟨KeyHolder.Sound.setFirstKey hs, ?_⟩
  rw [hring, PartialMap.size_insert (by rw [hnone]), hnone, PartialMap.size_empty]
  rfl

theorem kept : Kept env (KeepsCount env) (fun _ w => Exact w.storage) (fun _ _ => True) := by
  refine .of_storage (P := fun _ => Exact) ?_ ?_ ?_ ?_
  · intro fs s msg c s' events he hg hcall hvalue happly
    refine AdminCall.apply_invariant (fun _ _ _ _ _ ht hok => ht.addKey hok) ?_ ?_ he happly
    · rintro key purpose h removed rfl hok
      exact he.removeKey (hg.1 key (.of_removeKey hcall hvalue hok)) hok
    · intro n _ hok
      obtain ⟨_, _, _, rfl⟩ := ERC1077.setRequiredSignatures_eq_ok.mp hok
      exact ⟨he.sound, he.exact⟩
  · exact fun he => ⟨he.sound, he.exact⟩
  · exact fun he hg hcall hinit =>
      setFirstKey he.sound (hg.2 _ hcall hinit).1 (hg.2 _ hcall hinit).2
  · exact fun he => ⟨he.sound, he.exact⟩

theorem deployed (h : Deployed env first w) (hfirst : first ≠ some 0) : Exact w.storage := by
  cases h with
  | @erc1077 key _ _ =>
    refine setFirstKey (s := Storage.blank) KeyHolder.Sound.blank (fun h0 => hfirst (h0 ▸ rfl)) ?_
    exact Set.eq_empty_of_forall_notMem fun a ha => by cases ha
  | proxy hcode hmaster =>
    refine ⟨KeyHolder.Sound.blank, ?_⟩
    change 0 = PartialMap.size KeyHolder.blank.keyring
    rw [KeyHolder.keyring_blank, PartialMap.size_empty]

end Exact

/-- As long as `removeKey` is given registered keys, `keyCount` is their number. -/
theorem keyCount_exact (hdeployed : Deployed env first w) (hfirst : first ≠ some 0)
    (hguarded : Guarded (step env) (Meets (KeepsCount env)) (idle w) acts)
    (hrun : run env (idle w) acts = some m) :
    m.world.storage.keyCount.toNat = m.world.storage.registered.ncard := by
  rw [KeyHolder.ncard_registered]
  exact (Exact.kept.run (Machine.satisfies_idle (Exact.deployed hdeployed hfirst)) hguarded
    hrun).world.exact

end

namespace Sample

def removeUnknown : Msg := ⟨manager, 0, encodeCall 0x81dd7b8e [newcomer.setWidth 256, 0]⟩

/-- The wallet after its manager has removed a key that was never added. -/
def uncounted : World :=
  deployed.setAdministered manager (.removeKey newcomer 0)
    { deployed.storage with
      keys := Function.update deployed.storage.keys newcomer Key.blank
      keyCount := 0 }
    [.keyRemoved 0 0]

theorem run_uncounted :
    run env (idle deployed) (transaction removeUnknown gas) = some (idle uncounted) := by
  refine run_transaction_admin (by decide) (.inl rfl) rfl
    (c := .removeKey newcomer 0) (by decide) ?_
  refine AdminCall.apply_removeKey_eq_ok.mpr
    ⟨⟨_, 0⟩, KeyHolder.removeKey_eq_ok.mpr ⟨.inl ?_, ?_, ?_, ?_, rfl, rfl⟩, rfl⟩
  all_goals decide

theorem manager_registered_uncounted : manager ∈ uncounted.storage.registered := by
  change uncounted.storage.keyExist manager = true
  decide

end Sample

theorem keyCount_exact_sample :
    Sample.keyed.storage.keyCount.toNat = Sample.keyed.storage.registered.ncard := by
  refine keyCount_exact Sample.deployed_env Sample.manager_ne_zero (guarded_transaction ?_)
    Sample.run_keyed
  exact ⟨fun _ h => absurd h Sample.not_removes_registerActor,
    fun _ h => absurd h Sample.not_initialises_registerActor⟩

/-- A management key removes a key that was never added, giving the purpose 0. -/
theorem keyCount_inexact :
    Deployed Sample.env (some Sample.manager) Sample.deployed ∧
    run Sample.env (idle Sample.deployed) (transaction Sample.removeUnknown Sample.gas) =
      some (idle Sample.uncounted) ∧
    Sample.uncounted.storage.keyCount.toNat ≠ Sample.uncounted.storage.registered.ncard := by
  refine ⟨Sample.deployed_env, Sample.run_uncounted, fun heq => ?_⟩
  have hpos := (Set.ncard_pos (Set.toFinite _)).mpr ⟨_, Sample.manager_registered_uncounted⟩
  rw [← heq] at hpos
  exact absurd hpos (by decide)

end UniversalLogin
