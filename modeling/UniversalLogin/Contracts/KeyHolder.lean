import UniversalLogin.Evm.Basic
import UniversalLogin.Lib.PartialMap

/-!
# KeyHolder

The key table of a wallet (`KeyHolder.sol`): a mapping from addresses to keys, a counter kept beside
it, and the guarded operations on both. The table denotes a partial map from registered addresses
to purposes (`KeyHolder.keyring`), which `addKey` extends by one key and `removeKey` erases one key
from; the counter follows it except when an unregistered key is removed.
-/

namespace UniversalLogin

inductive Event
  | keyAdded (key : Address) (purpose : Uint256)
  | keyRemoved (key : Address) (purpose : Uint256)
  | multipleKeysAdded (count : Nat)
  | executedSigned (messageHash : Bytes32) (nonce : Uint256) (success : Bool)
  | masterChange (previousMaster newMaster : Address)
  deriving DecidableEq

def managementKey : Uint256 := 1
def actionKey : Uint256 := 2
def maxKeysPerAdd : Nat := 5

structure Key where
  purpose : Uint256
  key : Address
  deriving DecidableEq

/-- An entry that was never written or has been deleted. -/
def Key.blank : Key := ⟨0, 0⟩

structure KeyHolder where
  keys : Address → Key
  keyCount : Uint256

namespace KeyHolder

/-- The storage of a contract before its constructor has run. -/
def blank : KeyHolder := ⟨fun _ => Key.blank, 0⟩

/-- The statements that the constructor of `KeyHolder` shares with the initialize functions. -/
def setFirstKey (h : KeyHolder) (key : Address) : KeyHolder where
  keys := Function.update h.keys key ⟨managementKey, key⟩
  keyCount := 1

def keyExist (h : KeyHolder) (key : Address) : Bool := (h.keys key).key != 0

def getKeyPurpose (h : KeyHolder) (key : Address) : Uint256 := (h.keys key).purpose

def keyHasPurpose (h : KeyHolder) (key : Address) (purpose : Uint256) : Bool :=
  (h.keys key).purpose == purpose

def onlyManagementKeyOrThisContract (this sender : Address) (h : KeyHolder) :
    Except String Unit :=
  require (h.keyHasPurpose sender managementKey ∨ sender = this) "Sender not permissioned"

def addKey (this sender key : Address) (purpose : Uint256) (h : KeyHolder) :
    Except String (KeyHolder × List Event) := do
  h.onlyManagementKeyOrThisContract this sender
  require (key ≠ sender) "Invalid key"
  require ((h.keys key).key ≠ key) "Key already added"
  let keys := Function.update h.keys key ⟨purpose, key⟩
  let keyCount ← SafeMath.add h.keyCount 1
  return (⟨keys, keyCount⟩, [.keyAdded (keys key).key (keys key).purpose])

/-- The loop of `addKeys`, over the pairs `_keys[i]`, `_purposes[i]`. -/
def addEach (this sender : Address) :
    List (Address × Uint256) → KeyHolder → Except String (KeyHolder × List Event)
  | [], h => return (h, [])
  | (key, purpose) :: rest, h => do
    require (key ≠ sender) "Invalid key"
    let (h, added) ← addKey this sender key purpose h
    let (h, events) ← addEach this sender rest h
    return (h, added ++ events)

def addKeys (this sender : Address) (keys : List Address) (purposes : List Uint256)
    (h : KeyHolder) : Except String (KeyHolder × List Event) := do
  h.onlyManagementKeyOrThisContract this sender
  require (keys.length ≤ maxKeysPerAdd) "Too many keys"
  require (keys.length = purposes.length) "Unequal argument set lengths"
  let (h, events) ← addEach this sender (keys.zip purposes) h
  return (h, events ++ [.multipleKeysAdded keys.length])

def removeKey (this sender key : Address) (purpose : Uint256) (h : KeyHolder) :
    Except String (KeyHolder × List Event) := do
  h.onlyManagementKeyOrThisContract this sender
  require (key ≠ sender) "Invalid Key"
  require ((h.keys key).purpose = purpose) "Invalid key"
  let keyCount ← SafeMath.sub h.keyCount 1
  return (⟨Function.update h.keys key Key.blank, keyCount⟩,
    [.keyRemoved (h.keys key).key (h.keys key).purpose])

/-! ## Inversion -/

variable {h h' : KeyHolder} {this sender key : Address} {purpose : Uint256} {events : List Event}

theorem addKey_eq_ok : addKey this sender key purpose h = .ok (h', events) ↔
    (h.keyHasPurpose sender managementKey ∨ sender = this) ∧ key ≠ sender ∧
      (h.keys key).key ≠ key ∧ SafeMath.add h.keyCount 1 = .ok h'.keyCount ∧
      h'.keys = Function.update h.keys key ⟨purpose, key⟩ ∧ events = [.keyAdded key purpose] := by
  obtain ⟨keys', keyCount'⟩ := h'
  simp only [addKey, onlyManagementKeyOrThisContract, except_bind_eq_ok, require_eq_ok,
    except_pure_eq_ok, Function.update_self, Prod.mk.injEq, KeyHolder.mk.injEq, exists_const]
  grind

theorem keys_of_addKey (hok : addKey this sender key purpose h = .ok (h', events)) :
    h'.keys = Function.update h.keys key ⟨purpose, key⟩ := by
  obtain ⟨_, _, _, _, hkeys, _⟩ := addKey_eq_ok.mp hok
  exact hkeys

theorem removeKey_eq_ok : removeKey this sender key purpose h = .ok (h', events) ↔
    (h.keyHasPurpose sender managementKey ∨ sender = this) ∧ key ≠ sender ∧
      (h.keys key).purpose = purpose ∧ SafeMath.sub h.keyCount 1 = .ok h'.keyCount ∧
      h'.keys = Function.update h.keys key Key.blank ∧
      events = [.keyRemoved (h.keys key).key (h.keys key).purpose] := by
  obtain ⟨keys', keyCount'⟩ := h'
  simp only [removeKey, onlyManagementKeyOrThisContract, except_bind_eq_ok, require_eq_ok,
    except_pure_eq_ok, Prod.mk.injEq, KeyHolder.mk.injEq, exists_const]
  grind

theorem addEach_nil_eq_ok :
    addEach this sender [] h = .ok (h', events) ↔ h = h' ∧ [] = events := by
  simp only [addEach, except_pure_eq_ok, Prod.mk.injEq]

/-- The check that the loop makes before `addKey` is made there again. -/
theorem addEach_cons_eq_ok :
    addEach this sender ((key, purpose) :: rest) h = .ok (h', events) ↔
      ∃ h₁ added more, addKey this sender key purpose h = .ok (h₁, added) ∧
        addEach this sender rest h₁ = .ok (h', more) ∧ events = added ++ more := by
  simp only [addEach, except_bind_eq_ok, require_eq_ok, except_pure_eq_ok, Prod.mk.injEq]
  constructor
  · rintro ⟨_, _, ⟨h₁, added⟩, hadd, ⟨_, more⟩, hrest, rfl, rfl⟩
    exact ⟨h₁, added, more, hadd, hrest, rfl⟩
  · rintro ⟨h₁, added, more, hadd, hrest, rfl⟩
    exact ⟨⟨⟩, (addKey_eq_ok.mp hadd).2.1, ⟨h₁, added⟩, hadd, ⟨h', more⟩, hrest, rfl, rfl⟩

/-- What one `addKey` keeps of the table and of the events so far, the loop of `addKeys` keeps. -/
theorem addEach_invariant {P : KeyHolder → List Event → Prop}
    (hkeep : ∀ h log key purpose h' events, P h log →
      addKey this sender key purpose h = .ok (h', events) → P h' (log ++ events))
    (hok : addEach this sender pairs h = .ok (h', events)) (hP : P h log) :
    P h' (log ++ events) := by
  induction pairs generalizing h events log with
  | nil =>
    obtain ⟨rfl, rfl⟩ := addEach_nil_eq_ok.mp hok
    simpa using hP
  | cons pair rest ih =>
    obtain ⟨h₁, added, more, hadd, hrest, rfl⟩ := addEach_cons_eq_ok.mp hok
    rw [← List.append_assoc]
    exact ih hrest (hkeep _ _ _ _ _ _ hP hadd)

theorem addKeys_eq_ok {newKeys : List Address} :
    addKeys this sender newKeys purposes h = .ok (h', events) ↔
      (h.keyHasPurpose sender managementKey ∨ sender = this) ∧
      newKeys.length ≤ maxKeysPerAdd ∧ newKeys.length = purposes.length ∧
      ∃ added, addEach this sender (newKeys.zip purposes) h = .ok (h', added) ∧
        events = added ++ [.multipleKeysAdded newKeys.length] := by
  simp only [addKeys, onlyManagementKeyOrThisContract, except_bind_eq_ok, require_eq_ok,
    except_pure_eq_ok, Prod.mk.injEq, exists_const]
  constructor
  · rintro ⟨hperm, hfew, hpaired, ⟨h₁, added⟩, hloop, rfl, rfl⟩
    exact ⟨hperm, hfew, hpaired, added, hloop, rfl⟩
  · rintro ⟨hperm, hfew, hpaired, added, hloop, rfl⟩
    exact ⟨hperm, hfew, hpaired, ⟨h', added⟩, hloop, rfl, rfl⟩

/-! ## The partial map a table denotes -/

/-- Purposes of the registered addresses. -/
def keyring (h : KeyHolder) : Address → Option Uint256 :=
  fun a => if h.keyExist a then some (h.keys a).purpose else none

/-- An entry is registered under its own address or is blank. The entry of the zero address is
never registered, but a wallet initialised with the zero key has a purpose there. -/
structure Sound (h : KeyHolder) : Prop where
  own : ∀ a, (h.keys a).key = 0 ∨ (h.keys a).key = a
  unregistered : ∀ a, a ≠ 0 → (h.keys a).key = 0 → (h.keys a).purpose = 0

theorem Sound.not_keyExist_zero (hs : h.Sound) : h.keyExist 0 = false := by
  simp only [keyExist, bne_eq_false_iff_eq]
  rcases hs.own 0 with h0 | h0 <;> exact h0

theorem keyring_eq_none : h.keyring key = none ↔ h.keyExist key = false := by
  simp [keyring]

theorem mem_dom_keyring : key ∈ PartialMap.dom h.keyring ↔ h.keyExist key = true := by
  simp [keyring]

/-- The registered addresses. -/
def registered (h : KeyHolder) : Set Address := {a | h.keyExist a = true}

theorem ncard_registered : h.registered.ncard = PartialMap.size h.keyring :=
  congrArg Set.ncard (Set.ext fun _ => mem_dom_keyring.symm)

/-- The zero address is never registered, so there are fewer registered addresses than addresses. -/
theorem Sound.size_keyring_lt (hs : h.Sound) : PartialMap.size h.keyring < 2 ^ 160 := by
  have hlt := PartialMap.size_lt_card (keyring_eq_none.mpr hs.not_keyExist_zero)
  rwa [Nat.card_congr BitVec.equivFin.toEquiv, Nat.card_fin] at hlt

theorem keyring_blank : blank.keyring = fun _ => none := by
  funext a
  simp [keyring, keyExist, blank, Key.blank]

theorem Sound.blank : KeyHolder.blank.Sound :=
  ⟨fun _ => .inl rfl, fun _ _ _ => rfl⟩

/-- Writing an entry under its own address. -/
theorem Sound.update_own (hs : h.Sound)
    (hkeys : h'.keys = Function.update h.keys key ⟨purpose, key⟩) : h'.Sound := by
  constructor
  · intro a
    rw [hkeys]
    by_cases ha : a = key
    · subst ha
      simp
    · simpa [Function.update_of_ne ha] using hs.own a
  · intro a ha0 ha
    rw [hkeys] at ha ⊢
    by_cases hak : a = key
    · subst hak
      simp_all
    · rw [Function.update_of_ne hak] at ha ⊢
      exact hs.unregistered a ha0 ha

theorem keyring_update_own (hkey : key ≠ 0)
    (hkeys : h'.keys = Function.update h.keys key ⟨purpose, key⟩) :
    h'.keyring = PartialMap.insert h.keyring key purpose := by
  funext a
  by_cases ha : a = key
  · subst ha
    simpa [keyring, keyExist, hkeys] using hkey
  · simp [keyring, keyExist, hkeys, Function.update_of_ne ha, PartialMap.insert_of_ne ha]

theorem Sound.update_blank (hs : h.Sound)
    (hkeys : h'.keys = Function.update h.keys key Key.blank) : h'.Sound := by
  constructor
  · intro a
    rw [hkeys]
    by_cases ha : a = key
    · subst ha
      simp [Key.blank]
    · simpa [Function.update_of_ne ha] using hs.own a
  · intro a ha0 ha
    rw [hkeys] at ha ⊢
    by_cases hak : a = key
    · subst hak
      simp [Key.blank]
    · rw [Function.update_of_ne hak] at ha ⊢
      exact hs.unregistered a ha0 ha

theorem keyring_update_blank (hkeys : h'.keys = Function.update h.keys key Key.blank) :
    h'.keyring = PartialMap.erase h.keyring key := by
  funext a
  by_cases ha : a = key
  · subst ha
    simp [keyring, keyExist, hkeys, Key.blank]
  · simp [keyring, keyExist, hkeys, Function.update_of_ne ha, PartialMap.erase_of_ne ha]

theorem Sound.setFirstKey (hs : h.Sound) : (h.setFirstKey key).Sound := hs.update_own rfl

/-- `addKey` registers a new key and counts it. -/
theorem addKey_keyring (hs : h.Sound) (hok : addKey this sender key purpose h = .ok (h', events)) :
    h.keyring key = none ∧ h'.Sound ∧ h'.keyring = PartialMap.insert h.keyring key purpose ∧
      h'.keyCount.toNat = h.keyCount.toNat + 1 := by
  obtain ⟨_, _, hnew, hcount, hkeys, _⟩ := addKey_eq_ok.mp hok
  have hblank : (h.keys key).key = 0 := (hs.own key).resolve_right hnew
  have hkey : key ≠ 0 := fun h0 => hnew (by rw [hblank, h0])
  refine ⟨?_, hs.update_own hkeys, keyring_update_own hkey hkeys, SafeMath.toNat_add_one hcount⟩
  simp [keyring_eq_none, keyExist, hblank]

/-- `removeKey` erases the key, registered or not, and counts one key less. -/
theorem removeKey_keyring (hs : h.Sound)
    (hok : removeKey this sender key purpose h = .ok (h', events)) :
    h'.Sound ∧ h'.keyring = PartialMap.erase h.keyring key ∧
      h'.keyCount.toNat + 1 = h.keyCount.toNat := by
  obtain ⟨_, _, _, hcount, hkeys, _⟩ := removeKey_eq_ok.mp hok
  exact ⟨hs.update_blank hkeys, keyring_update_blank hkeys, SafeMath.toNat_sub_one hcount⟩

end KeyHolder

end UniversalLogin
