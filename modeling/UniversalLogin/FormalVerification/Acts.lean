import UniversalLogin.Contracts.Administration
import UniversalLogin.Contracts.Calldata

/-!
# The acts of the specification

The specification of the contracts (`spec.md`) describes functions as acts: which storage locations
a call reads, under which conditions it succeeds, what it writes and what it returns. Acts are about
words at hashed locations, where an address shares its word with bits that the code does not look at
(`storage.md`, `lemmas.k.md`). They are a second account of `KeyHolder` and `ERC1077`, and agree
with the first one: on locations that represent a storage, exactly one act applies to each call, it
succeeds when the function does, and it returns and leaves what the function returns and leaves,
over every sequence of calls (`acts_refine`).
-/

namespace UniversalLogin

/-- The words of a contract's storage by their locations. -/
abbrev Slots := Uint256 → Uint256

/-- `#hashedLocation("Solidity", 0, A)` -/
def hashedLocation (crypto : Crypto) (a : Address) : Uint256 :=
  crypto.keccak256 (packUint256 (a.setWidth 256) ++ packUint256 0)

/-! ## Locations -/

namespace Slot

/-- `#mapping.keys[A].purpose` -/
def purpose (crypto : Crypto) (a : Address) : Uint256 := hashedLocation crypto a

/-- `#mapping.keys[A].key` -/
def key (crypto : Crypto) (a : Address) : Uint256 := hashedLocation crypto a + 1

/-- `#keyCount` -/
def keyCount : Uint256 := 1

/-- `#requiredSignatures` -/
def requiredSignatures : Uint256 := 3

end Slot

/-! ## Words that hold an address -/

def addressRestMask (x : Uint256) : Uint256 :=
  115792089237316195423570985007226406215939081747436879206741300988257197096960 &&& x

def addressMask (x : Uint256) : Uint256 :=
  1461501637330902918203684832716283019655932542975 &&& x

/-- A word with a new address in it. -/
def asAddress (x y : Uint256) : Uint256 := x ||| addressRestMask y

theorem addressMask_setWidth (a : Address) : addressMask (a.setWidth 256) = a.setWidth 256 := by
  have hmask : (1461501637330902918203684832716283019655932542975 : Uint256) =
      (BitVec.allOnes 160).setWidth 256 := by decide
  rw [addressMask, hmask, ← BitVec.setWidth_and, BitVec.allOnes_and]

/-- A word without the low bits has none in common with a value of as many bits. -/
theorem not_allOnes_and_setWidth {n m : Nat} (a : BitVec n) :
    ~~~((BitVec.allOnes n).setWidth m) &&& a.setWidth m = 0 := by
  apply BitVec.eq_of_getLsbD_eq
  intro i hi
  by_cases hlow : i < n
  · simp [hi, hlow]
  · have hout : a.getLsbD i = false := BitVec.getLsbD_of_ge a i (Nat.not_lt.mp hlow)
    simp [hi, hlow, hout]

theorem addressRestMask_setWidth (a : Address) : addressRestMask (a.setWidth 256) = 0 := by
  have hmask : (115792089237316195423570985007226406215939081747436879206741300988257197096960 :
      Uint256) = ~~~(BitVec.allOnes 160).setWidth 256 := by decide
  rw [addressRestMask, hmask]
  exact not_allOnes_and_setWidth a

/-- A word that holds nothing but an address is overwritten whole. -/
theorem asAddress_setWidth (x : Uint256) (a : Address) : asAddress x (a.setWidth 256) = x := by
  rw [asAddress, addressRestMask_setWidth]
  exact BitVec.or_zero

theorem setWidth_inj {a b : Address} : a.setWidth 256 = b.setWidth 256 ↔ a = b := by
  refine ⟨fun h => ?_, congrArg _⟩
  have hwidth := congrArg (BitVec.setWidth 160) h
  simpa [BitVec.setWidth_setWidth_of_le] using hwidth

/-! ## Acts -/

inductive SpecCall
  | setRequiredSignatures (requiredSignatures : Uint256)
  | removeKey (key : Address) (purpose : Uint256)
  | addKey (key : Address) (purpose : Uint256)
  | keyHasPurpose (key : Address) (purpose : Uint256)
  | getKeyPurpose (key : Address)
  | keyExist (key : Address)
  deriving DecidableEq

/-- `CALLER_ID`, `VCallValue` and the call. -/
structure SpecMsg where
  caller : Address
  callValue : Uint256
  call : SpecCall
  deriving DecidableEq

/-- A behaviour of a function for given words. It applies where its patterns match and its `if`
holds; there, a call succeeds exactly if the conditions `iff` hold. -/
structure Act where
  applies : Bool
  iff : Bool
  writes : List (Uint256 × Uint256)
  returns : List Uint256

def Slots.write (slots : Slots) (writes : List (Uint256 × Uint256)) : Slots :=
  writes.foldl (fun slots w => Function.update slots w.1 w.2) slots

section
variable (crypto : Crypto) (this : Address)

/-- `CallerKeyPurpose == #managementKey or CALLER_ID == ACCT_ID` -/
def specPermitted (slots : Slots) (caller : Address) : Bool :=
  slots (Slot.purpose crypto caller) == managementKey || caller == this

/-- The behaviours of the function that is called. -/
def behaviours (slots : Slots) (msg : SpecMsg) : List Act :=
  match msg.call with
  | .setRequiredSignatures n =>
    [{ applies := true
       iff := msg.callValue == 0 && slots Slot.requiredSignatures != n && decide (n > 0) &&
         decide (n ≤ slots Slot.keyCount) && specPermitted crypto this slots msg.caller
       writes := [(Slot.requiredSignatures, n)]
       returns := [] }]
  | .removeKey key purpose =>
    [{ applies := true
       iff := key != msg.caller && msg.callValue == 0 &&
         slots (Slot.purpose crypto key) == purpose && decide (slots Slot.keyCount ≥ 1) &&
         specPermitted crypto this slots msg.caller
       writes := [(Slot.purpose crypto key, 0),
         (Slot.key crypto key, asAddress 0 (slots (Slot.key crypto key))),
         (Slot.keyCount, slots Slot.keyCount - 1)]
       returns := [1] }]
  | .addKey key purpose =>
    [{ applies := true
       iff := msg.callValue == 0 &&
         key.setWidth 256 != addressMask (slots (Slot.key crypto key)) &&
         decide ((slots Slot.keyCount).toNat + 1 < 2 ^ 256) && key != msg.caller &&
         specPermitted crypto this slots msg.caller
       writes := [(Slot.purpose crypto key, purpose),
         (Slot.key crypto key, asAddress (key.setWidth 256) (slots (Slot.key crypto key))),
         (Slot.keyCount, slots Slot.keyCount + 1)]
       returns := [1] }]
  | .keyHasPurpose key purpose =>
    [{ applies := slots (Slot.purpose crypto key) == purpose
       iff := msg.callValue == 0
       writes := []
       returns := [1] },
     { applies := slots (Slot.purpose crypto key) != purpose
       iff := msg.callValue == 0
       writes := []
       returns := [0] }]
  | .getKeyPurpose key =>
    [{ applies := true
       iff := msg.callValue == 0
       writes := []
       returns := [slots (Slot.purpose crypto key)] }]
  | .keyExist key =>
    [{ applies := addressRestMask (slots (Slot.key crypto key)) == 0 &&
         slots (Slot.key crypto key) != 0
       iff := msg.callValue == 0
       writes := []
       returns := [1] },
     { applies := slots (Slot.key crypto key) == 0
       iff := msg.callValue == 0
       writes := []
       returns := [0] }]

/-- What one act says of a call: the words after it, and what it returns unless it reverts. -/
def Act.outcome (act : Act) (slots : Slots) : Slots × Option (List Uint256) :=
  if act.iff then (slots.write act.writes, some act.returns) else (slots, none)

/-- The specification says what a call does if exactly one act applies. -/
def specStep (slots : Slots) (msg : SpecMsg) : Option (Slots × Option (List Uint256)) :=
  match (behaviours crypto this slots msg).filter (·.applies) with
  | [act] => some (act.outcome slots)
  | _ => none

def specRun (slots : Slots) : List SpecMsg → Option (Slots × List (Option (List Uint256)))
  | [] => some (slots, [])
  | msg :: msgs => do
    let (slots, result) ← specStep crypto this slots msg
    let (slots, results) ← specRun slots msgs
    return (slots, result :: results)

/-! ## The functions -/

/-- A function that administers the wallet. It refuses ether and returns `value`. -/
def codeAdmin (s : Storage) (msg : SpecMsg) (c : AdminCall) (value : List Uint256) :
    Except String (Storage × List Uint256) := do
  require (msg.callValue = 0) ""
  let r ← c.apply this msg.caller s
  return (r.1, value)

/-- A function that reads `value`. -/
def codeView (s : Storage) (msg : SpecMsg) (value : Uint256) :
    Except String (Storage × List Uint256) := do
  require (msg.callValue = 0) ""
  return (s, [value])

/-- The functions that the acts describe. -/
def codeCall (s : Storage) (msg : SpecMsg) : Except String (Storage × List Uint256) :=
  match msg.call with
  | .setRequiredSignatures n => codeAdmin this s msg (.setRequiredSignatures n) []
  | .removeKey key purpose => codeAdmin this s msg (.removeKey key purpose) [1]
  | .addKey key purpose => codeAdmin this s msg (.addKey key purpose) [1]
  | .keyHasPurpose key purpose => codeView s msg (if s.keyHasPurpose key purpose then 1 else 0)
  | .getKeyPurpose key => codeView s msg (s.getKeyPurpose key)
  | .keyExist key => codeView s msg (if s.keyExist key then 1 else 0)

/-- A call that reverts leaves the storage as it is. -/
def codeStep (s : Storage) (msg : SpecMsg) : Storage × Option (List Uint256) :=
  match codeCall this s msg with
  | .ok (s, result) => (s, some result)
  | .error _ => (s, none)

def codeRun (s : Storage) : List SpecMsg → Storage × List (Option (List Uint256))
  | [] => (s, [])
  | msg :: msgs =>
    let (s, result) := codeStep this s msg
    let (s, results) := codeRun s msgs
    (s, result :: results)

end

/-! ## Storage as words -/

/-- The hashed locations do not collide, neither with each other nor with the fixed ones. -/
structure Layout (crypto : Crypto) : Prop where
  injective : ∀ a b, hashedLocation crypto a = hashedLocation crypto b → a = b
  apart : ∀ a b, hashedLocation crypto a ≠ hashedLocation crypto b + 1
  above : ∀ a, 3 < hashedLocation crypto a
  wraps : ∀ a, 3 < hashedLocation crypto a + 1

/-- The words at the locations hold what the variables hold. -/
structure Represents (crypto : Crypto) (slots : Slots) (s : Storage) : Prop where
  purpose : ∀ a, slots (Slot.purpose crypto a) = (s.keys a).purpose
  key : ∀ a, slots (Slot.key crypto a) = (s.keys a).key.setWidth 256
  keyCount : slots Slot.keyCount = s.keyCount
  requiredSignatures : slots Slot.requiredSignatures = s.requiredSignatures

/-- A location that the acts are about. -/
inductive Slot.Used (crypto : Crypto) : Uint256 → Prop
  | purpose (a : Address) : Slot.Used crypto (Slot.purpose crypto a)
  | key (a : Address) : Slot.Used crypto (Slot.key crypto a)
  | keyCount : Slot.Used crypto Slot.keyCount
  | requiredSignatures : Slot.Used crypto Slot.requiredSignatures

section
variable {crypto : Crypto} {this : Address} {slots : Slots} {s : Storage}

namespace Layout

theorem ne_of_lt {x y : Uint256} (hx : 3 < x) (hy : y ≤ 3) : x ≠ y := by
  rintro rfl
  exact BitVec.not_lt.mpr hy hx

theorem purpose_ne (hl : Layout crypto) (a : Address) (hx : x ≤ 3) : Slot.purpose crypto a ≠ x :=
  ne_of_lt (hl.above a) hx

theorem key_ne (hl : Layout crypto) (a : Address) (hx : x ≤ 3) : Slot.key crypto a ≠ x :=
  ne_of_lt (hl.wraps a) hx

theorem purpose_ne_key (hl : Layout crypto) (a b : Address) :
    Slot.purpose crypto a ≠ Slot.key crypto b := hl.apart a b

theorem purpose_inj (hl : Layout crypto) (h : Slot.purpose crypto a = Slot.purpose crypto b) :
    a = b := hl.injective a b h

theorem key_inj (hl : Layout crypto) (h : Slot.key crypto a = Slot.key crypto b) : a = b :=
  hl.injective a b (add_right_cancel h)

end Layout

theorem Slots.write_of_not_mem {writes : List (Uint256 × Uint256)}
    (h : ∀ w ∈ writes, l ≠ w.1) : slots.write writes l = slots l := by
  induction writes generalizing slots with
  | nil => rfl
  | cons w writes ih =>
    obtain ⟨hw, hrest⟩ := List.forall_mem_cons.mp h
    rw [Slots.write, List.foldl_cons]
    refine (ih hrest).trans ?_
    exact Function.update_of_ne hw _ _

namespace Represents

/-- An entry of the table and the counter are written. -/
theorem write_key (hr : Represents crypto slots s) (hl : Layout crypto) (a : Address) (k : Key)
    (n : Uint256) : Represents crypto
      (slots.write [(Slot.purpose crypto a, k.purpose), (Slot.key crypto a, k.key.setWidth 256),
        (Slot.keyCount, n)])
      { s with toKeyHolder := ⟨Function.update s.keys a k, n⟩ } := by
  have hcount : Slot.keyCount ≤ 3 := by decide
  have hrequired : Slot.requiredSignatures ≤ 3 := by decide
  simp only [Slots.write, List.foldl_cons, List.foldl_nil]
  constructor
  · intro b
    change _ = (Function.update s.keys a k b).purpose
    rw [Function.update_of_ne (hl.purpose_ne b hcount),
      Function.update_of_ne (hl.purpose_ne_key b a)]
    by_cases hb : b = a
    · rw [hb, Function.update_self, Function.update_self]
    · rw [Function.update_of_ne fun h => hb (hl.purpose_inj h), Function.update_of_ne hb,
        hr.purpose]
  · intro b
    change _ = (Function.update s.keys a k b).key.setWidth 256
    rw [Function.update_of_ne (hl.key_ne b hcount)]
    by_cases hb : b = a
    · rw [hb, Function.update_self, Function.update_self]
    · rw [Function.update_of_ne fun h => hb (hl.key_inj h),
        Function.update_of_ne fun h => hl.purpose_ne_key a b h.symm, Function.update_of_ne hb,
        hr.key]
  · rw [Function.update_self]
  · have hne : Slot.requiredSignatures ≠ Slot.keyCount := by decide
    rw [Function.update_of_ne hne, Function.update_of_ne fun h => hl.key_ne a hrequired h.symm,
      Function.update_of_ne fun h => hl.purpose_ne a hrequired h.symm, hr.requiredSignatures]

theorem write_requiredSignatures (hr : Represents crypto slots s) (hl : Layout crypto)
    (n : Uint256) : Represents crypto (slots.write [(Slot.requiredSignatures, n)])
      { s with requiredSignatures := n } := by
  have hrequired : Slot.requiredSignatures ≤ 3 := by decide
  simp only [Slots.write, List.foldl_cons, List.foldl_nil]
  constructor
  · intro b
    rw [Function.update_of_ne (hl.purpose_ne b hrequired), hr.purpose]
  · intro b
    rw [Function.update_of_ne (hl.key_ne b hrequired), hr.key]
  · have hne : Slot.keyCount ≠ Slot.requiredSignatures := by decide
    rw [Function.update_of_ne hne, hr.keyCount]
  · rw [Function.update_self]

theorem permitted_iff (hr : Represents crypto slots s) (caller : Address) :
    specPermitted crypto this slots caller = true ↔
      s.keyHasPurpose caller managementKey = true ∨ caller = this := by
  rw [specPermitted, hr.purpose, Bool.or_eq_true, beq_iff_eq (a := caller)]
  rfl

end Represents

/-! ## One call -/

/-- After the words `slots`, the specification says what the code does, and leaves all other
locations alone. -/
def Agrees (crypto : Crypto) (slots : Slots) (said : Option (Slots × α)) (did : Storage × α) :
    Prop :=
  ∃ slots', said = some (slots', did.2) ∧ Represents crypto slots' did.1 ∧
    ∀ l, ¬ Slot.Used crypto l → slots' l = slots l

/-- A function that one act applies to: it succeeds when the act says so, and then it leaves and
returns what the act writes and returns. -/
theorem agrees_of_iff {act : Act} (hr : Represents crypto slots s) (t : Storage)
    (hact : (behaviours crypto this slots msg).filter (·.applies) = [act])
    (hcode : ∀ s' result, codeCall this s msg = .ok (s', result) ↔
      act.iff = true ∧ s' = t ∧ result = act.returns)
    (hwrites : act.iff = true → Represents crypto (slots.write act.writes) t)
    (hused : ∀ w ∈ act.writes, Slot.Used crypto w.1) :
    Agrees crypto slots (specStep crypto this slots msg) (codeStep this s msg) := by
  have hsaid : specStep crypto this slots msg = some (act.outcome slots) := by
    rw [specStep, hact]
  rw [hsaid, codeStep, Act.outcome]
  by_cases hiff : act.iff = true
  · have hok := (hcode t act.returns).mpr ⟨hiff, rfl, rfl⟩
    rw [if_pos hiff, hok]
    refine ⟨_, rfl, hwrites hiff, fun l hl => Slots.write_of_not_mem ?_⟩
    rintro w hw rfl
    exact hl (hused w hw)
  · rw [if_neg hiff]
    cases hcall : codeCall this s msg with
    | error _ => exact ⟨slots, rfl, hr, fun _ _ => rfl⟩
    | ok r => exact absurd ((hcode r.1 r.2).mp hcall).1 hiff

theorem codeAdmin_eq_ok : codeAdmin this s msg c value = .ok (s', result) ↔
    msg.callValue = 0 ∧ (∃ events, c.apply this msg.caller s = .ok (s', events)) ∧
      result = value := by
  simp only [codeAdmin, except_bind_eq_ok, require_eq_ok, except_pure_eq_ok, Prod.mk.injEq,
    exists_const]
  constructor
  · rintro ⟨hvalue, ⟨_, events⟩, hok, rfl, rfl⟩
    exact ⟨hvalue, ⟨events, hok⟩, rfl⟩
  · rintro ⟨hvalue, ⟨events, hok⟩, rfl⟩
    exact ⟨hvalue, ⟨s', events⟩, hok, rfl, rfl⟩

theorem codeView_eq_ok : codeView s msg value = .ok (s', result) ↔
    msg.callValue = 0 ∧ s' = s ∧ result = [value] := by
  simp only [codeView, except_bind_eq_ok, require_eq_ok, except_pure_eq_ok, Prod.mk.injEq,
    exists_const]
  exact and_congr_right fun _ => and_congr eq_comm eq_comm

/-- `addKey` writes one entry and counts it. -/
theorem apply_addKey_iff : (∃ events, (AdminCall.addKey key purpose).apply this sender s =
      .ok (s', events)) ↔
    ((s.keyHasPurpose sender managementKey ∨ sender = this) ∧ key ≠ sender ∧
      (s.keys key).key ≠ key ∧ s.keyCount.toNat + 1 < 2 ^ 256) ∧
    s' = { s with toKeyHolder :=
             ⟨Function.update s.keys key ⟨purpose, key⟩, s.keyCount + 1⟩ } := by
  simp only [AdminCall.apply_addKey_eq_ok, KeyHolder.addKey_eq_ok, SafeMath.add_eq_ok]
  constructor
  · rintro ⟨_, ⟨keys, keyCount⟩, ⟨hperm, hsender, hnew, ⟨hlt, rfl⟩, rfl, _⟩, rfl⟩
    exact ⟨⟨hperm, hsender, hnew, hlt⟩, rfl⟩
  · rintro ⟨⟨hperm, hsender, hnew, hlt⟩, rfl⟩
    exact ⟨_, ⟨_, _⟩, ⟨hperm, hsender, hnew, ⟨hlt, rfl⟩, rfl, rfl⟩, rfl⟩

/-- `removeKey` blanks one entry and counts one less. -/
theorem apply_removeKey_iff : (∃ events, (AdminCall.removeKey key purpose).apply this sender s =
      .ok (s', events)) ↔
    ((s.keyHasPurpose sender managementKey ∨ sender = this) ∧ key ≠ sender ∧
      (s.keys key).purpose = purpose ∧ 1 ≤ s.keyCount) ∧
    s' = { s with toKeyHolder := ⟨Function.update s.keys key Key.blank, s.keyCount - 1⟩ } := by
  simp only [AdminCall.apply_removeKey_eq_ok, KeyHolder.removeKey_eq_ok, SafeMath.sub_eq_ok]
  constructor
  · rintro ⟨_, ⟨keys, keyCount⟩, ⟨hperm, hsender, hpurpose, ⟨hle, rfl⟩, rfl, _⟩, rfl⟩
    exact ⟨⟨hperm, hsender, hpurpose, hle⟩, rfl⟩
  · rintro ⟨⟨hperm, hsender, hpurpose, hle⟩, rfl⟩
    exact ⟨_, ⟨_, _⟩, ⟨hperm, hsender, hpurpose, ⟨hle, rfl⟩, rfl, rfl⟩, rfl⟩

theorem apply_setRequiredSignatures_iff : (∃ events,
      (AdminCall.setRequiredSignatures n).apply this sender s = .ok (s', events)) ↔
    ((s.keyHasPurpose sender managementKey ∨ sender = this) ∧ n ≠ s.requiredSignatures ∧ 0 < n ∧
      n ≤ s.keyCount) ∧ s' = { s with requiredSignatures := n } := by
  simp only [AdminCall.apply_setRequiredSignatures_eq_ok, ERC1077.setRequiredSignatures_eq_ok]
  constructor
  · rintro ⟨_, ⟨hperm, ⟨hne, hpos⟩, hle, rfl⟩, _⟩
    exact ⟨⟨hperm, hne, hpos, hle⟩, rfl⟩
  · rintro ⟨⟨hperm, hne, hpos, hle⟩, rfl⟩
    exact ⟨_, ⟨hperm, ⟨hne, hpos⟩, hle, rfl⟩, rfl⟩

/-- The locations that `addKey` and `removeKey` write to. -/
theorem used_entry (key : Address) {x y z : Uint256} : ∀ w ∈ [(Slot.purpose crypto key, x),
    (Slot.key crypto key, y), (Slot.keyCount, z)], Slot.Used crypto w.1 := by
  intro w hw
  simp only [List.mem_cons, List.not_mem_nil, or_false] at hw
  rcases hw with rfl | rfl | rfl
  · exact .purpose key
  · exact .key key
  · exact .keyCount

theorem agrees_addKey (hr : Represents crypto slots s) (hl : Layout crypto) :
    Agrees crypto slots (specStep crypto this slots ⟨caller, callValue, .addKey key purpose⟩)
      (codeStep this s ⟨caller, callValue, .addKey key purpose⟩) := by
  have hkey : slots (Slot.key crypto key) = (s.keys key).key.setWidth 256 := hr.key key
  refine agrees_of_iff hr { s with toKeyHolder :=
    ⟨Function.update s.keys key ⟨purpose, key⟩, s.keyCount + 1⟩ } rfl (fun s' result => ?_)
    (fun _ => ?_) (used_entry key)
  · rw [codeCall, codeAdmin_eq_ok, apply_addKey_iff]
    simp only [hkey, Bool.and_eq_true, beq_iff_eq, bne_iff_ne, decide_eq_true_eq,
      addressMask_setWidth, hr.keyCount, hr.permitted_iff, ne_eq, setWidth_inj]
    grind
  · have hwrite := hr.write_key hl key ⟨purpose, key⟩ (s.keyCount + 1)
    simp only [hkey, asAddress_setWidth, hr.keyCount]
    exact hwrite

theorem agrees_removeKey (hr : Represents crypto slots s) (hl : Layout crypto) :
    Agrees crypto slots (specStep crypto this slots ⟨caller, callValue, .removeKey key purpose⟩)
      (codeStep this s ⟨caller, callValue, .removeKey key purpose⟩) := by
  have hkey : slots (Slot.key crypto key) = (s.keys key).key.setWidth 256 := hr.key key
  refine agrees_of_iff hr { s with toKeyHolder :=
    ⟨Function.update s.keys key Key.blank, s.keyCount - 1⟩ } rfl (fun s' result => ?_)
    (fun _ => ?_) (used_entry key)
  · rw [codeCall, codeAdmin_eq_ok, apply_removeKey_iff]
    simp only [Bool.and_eq_true, beq_iff_eq, bne_iff_ne, decide_eq_true_eq, hr.keyCount,
      hr.purpose, hr.permitted_iff, ne_eq, ge_iff_le]
    grind
  · have hwrite := hr.write_key hl key Key.blank (s.keyCount - 1)
    simp only [hkey, asAddress_setWidth, hr.keyCount]
    exact hwrite

theorem agrees_setRequiredSignatures (hr : Represents crypto slots s) (hl : Layout crypto) :
    Agrees crypto slots
      (specStep crypto this slots ⟨caller, callValue, .setRequiredSignatures n⟩)
      (codeStep this s ⟨caller, callValue, .setRequiredSignatures n⟩) := by
  refine agrees_of_iff hr { s with requiredSignatures := n } rfl (fun s' result => ?_)
    (fun _ => hr.write_requiredSignatures hl n) ?_
  · rw [codeCall, codeAdmin_eq_ok, apply_setRequiredSignatures_iff]
    simp only [Bool.and_eq_true, beq_iff_eq, bne_iff_ne, decide_eq_true_eq, hr.keyCount,
      hr.requiredSignatures, hr.permitted_iff, ne_eq, gt_iff_lt]
    grind
  · intro w hw
    rw [List.mem_singleton.mp hw]
    exact .requiredSignatures

/-- A function that reads: the one act that applies to it returns what it reads. -/
theorem agrees_view (hr : Represents crypto slots s) (value : Uint256)
    (hact : (behaviours crypto this slots msg).filter (·.applies) =
      [⟨true, msg.callValue == 0, [], [value]⟩])
    (hcode : codeCall this s msg = codeView s msg value) :
    Agrees crypto slots (specStep crypto this slots msg) (codeStep this s msg) := by
  refine agrees_of_iff hr s hact (fun s' result => ?_) (fun _ => hr) nofun
  rw [hcode, codeView_eq_ok, beq_iff_eq]

theorem agrees_keyHasPurpose (hr : Represents crypto slots s) :
    Agrees crypto slots
      (specStep crypto this slots ⟨caller, callValue, .keyHasPurpose key purpose⟩)
      (codeStep this s ⟨caller, callValue, .keyHasPurpose key purpose⟩) := by
  have hpurpose : slots (Slot.purpose crypto key) = (s.keys key).purpose := hr.purpose key
  by_cases h : (s.keys key).purpose = purpose
  · refine agrees_view hr 1 ?_ ?_
    · simp [behaviours, hpurpose, h]
    · simp [codeCall, KeyHolder.keyHasPurpose, h]
  · refine agrees_view hr 0 ?_ ?_
    · simp [behaviours, hpurpose, h]
    · simp [codeCall, KeyHolder.keyHasPurpose, h]

theorem agrees_getKeyPurpose (hr : Represents crypto slots s) :
    Agrees crypto slots (specStep crypto this slots ⟨caller, callValue, .getKeyPurpose key⟩)
      (codeStep this s ⟨caller, callValue, .getKeyPurpose key⟩) := by
  refine agrees_view hr (s.getKeyPurpose key) ?_ rfl
  simp [behaviours, hr.purpose, KeyHolder.getKeyPurpose]

/-- The behaviours of `keyExist` leave out the words with more than an address in them; there are
none. -/
theorem agrees_keyExist (hr : Represents crypto slots s) :
    Agrees crypto slots (specStep crypto this slots ⟨caller, callValue, .keyExist key⟩)
      (codeStep this s ⟨caller, callValue, .keyExist key⟩) := by
  have hkey : slots (Slot.key crypto key) = (s.keys key).key.setWidth 256 := hr.key key
  have hzero : (s.keys key).key.setWidth 256 = (0 : Uint256) ↔ (s.keys key).key = 0 :=
    setWidth_inj (b := 0)
  by_cases h : (s.keys key).key = 0
  · refine agrees_view hr 0 ?_ ?_
    · simp [behaviours, hkey, h]
    · simp [codeCall, KeyHolder.keyExist, h]
  · have hkeyNe : (s.keys key).key ≠ 0#160 := h
    have hwordNe : (s.keys key).key.setWidth 256 ≠ 0#256 := mt hzero.mp h
    refine agrees_view hr 1 ?_ ?_
    · simp [behaviours, hkey, addressRestMask_setWidth, hwordNe]
    · simp [codeCall, KeyHolder.keyExist, hkeyNe]

/-- The specification says of every call what the code does. -/
theorem agrees_step (hr : Represents crypto slots s) (hl : Layout crypto) (msg : SpecMsg) :
    Agrees crypto slots (specStep crypto this slots msg) (codeStep this s msg) := by
  obtain ⟨caller, callValue, call⟩ := msg
  cases call with
  | setRequiredSignatures n => exact agrees_setRequiredSignatures hr hl
  | removeKey key purpose => exact agrees_removeKey hr hl
  | addKey key purpose => exact agrees_addKey hr hl
  | keyHasPurpose key purpose => exact agrees_keyHasPurpose hr
  | getKeyPurpose key => exact agrees_getKeyPurpose hr
  | keyExist key => exact agrees_keyExist hr

/-! ## Sequences of calls -/

theorem agrees_run (hr : Represents crypto slots s) (hl : Layout crypto) (msgs : List SpecMsg) :
    Agrees crypto slots (specRun crypto this slots msgs) (codeRun this s msgs) := by
  induction msgs generalizing slots s with
  | nil => exact ⟨slots, rfl, hr, fun _ _ => rfl⟩
  | cons msg msgs ih =>
    obtain ⟨slots₁, hstep, hr₁, hframe₁⟩ := agrees_step hr hl msg
    obtain ⟨slots₂, hrun, hr₂, hframe₂⟩ := ih hr₁
    refine ⟨slots₂, ?_, hr₂, fun l hused => (hframe₂ l hused).trans (hframe₁ l hused)⟩
    simp only [specRun, hstep, hrun, Option.bind_eq_bind, Option.bind_some, codeRun]
    rfl

open Classical in
/-- The words that represent a storage. -/
noncomputable def Storage.layOut (crypto : Crypto) (s : Storage) : Slots := fun l =>
  if h : ∃ a, Slot.purpose crypto a = l then (s.keys h.choose).purpose
  else if h : ∃ a, Slot.key crypto a = l then (s.keys h.choose).key.setWidth 256
  else if l = Slot.keyCount then s.keyCount
  else if l = Slot.requiredSignatures then s.requiredSignatures
  else 0

theorem represents_layOut (hl : Layout crypto) (s : Storage) :
    Represents crypto (s.layOut crypto) s := by
  have hcount : Slot.keyCount ≤ 3 := by decide
  have hrequired : Slot.requiredSignatures ≤ 3 := by decide
  have hpurpose {x : Uint256} (hx : x ≤ 3) : ¬ ∃ a, Slot.purpose crypto a = x := by
    rintro ⟨a, ha⟩
    exact hl.purpose_ne a hx ha
  have hkey {x : Uint256} (hx : x ≤ 3) : ¬ ∃ a, Slot.key crypto a = x := by
    rintro ⟨a, ha⟩
    exact hl.key_ne a hx ha
  constructor
  · intro a
    have h : ∃ b, Slot.purpose crypto b = Slot.purpose crypto a := ⟨a, rfl⟩
    rw [Storage.layOut, dif_pos h, hl.purpose_inj h.choose_spec]
  · intro a
    have hnot : ¬ ∃ b, Slot.purpose crypto b = Slot.key crypto a := by
      rintro ⟨b, hb⟩
      exact hl.purpose_ne_key b a hb
    have h : ∃ b, Slot.key crypto b = Slot.key crypto a := ⟨a, rfl⟩
    rw [Storage.layOut, dif_neg hnot, dif_pos h, hl.key_inj h.choose_spec]
  · rw [Storage.layOut, dif_neg (hpurpose hcount), dif_neg (hkey hcount), if_pos rfl]
  · have hne : Slot.requiredSignatures ≠ Slot.keyCount := by decide
    rw [Storage.layOut, dif_neg (hpurpose hrequired), dif_neg (hkey hrequired), if_neg hne,
      if_pos rfl]

end

namespace Sample

/-- The hashes of the locations of some keys, and for other keys values that do not collide. -/
def keyHash (key : Nat) : Nat :=
  if key = 0 then 0xad3228b676f7d3cd4284a5443f17f1962b36e491b30a40b2405849e597ba5fb5
  else if key = 1 then 0xada5013122d395ba3c54772283fb069b10426056ef8ca54750cb9bb552a59e7d
  else if key = 5 then 0x2b232c97452f0950c94e2539fdc7e69d21166113cf7a9bcb99b220a3fe5d720a
  else if key = 6 then 0x62103cf3131c85df57aad364d21cba02556d3092d6cb54c298c2e7726a7870bd
  else if key = 9 then 0x324fdf7bfe7bd2828491073f0b7868a9a19ee3eff384c2805040be3e426447f5
  else 2 * key + 4

theorem keyHash_inj (hm : m < 2 ^ 160) (hn : n < 2 ^ 160) (h : keyHash m = keyHash n) : m = n := by
  unfold keyHash at h
  split_ifs at h <;> omega

theorem keyHash_apart (hm : m < 2 ^ 160) (hn : n < 2 ^ 160) : keyHash m ≠ keyHash n + 1 := by
  intro h
  unfold keyHash at h
  split_ifs at h <;> omega

theorem keyHash_bounds (hn : n < 2 ^ 160) : 3 < keyHash n ∧ keyHash n + 1 < 2 ^ 256 := by
  unfold keyHash
  split_ifs <;> omega

/-- A hash that does not collide on the words of the table. -/
def specCrypto : Crypto where
  keccak256 bs := BitVec.ofNat 256 (keyHash (BigEndian.decode (bs.take 32)))
  ecrecover _ _ _ _ := 0
  toEthSignedMessageHash h := h
  recover _ _ := 0

theorem toNat_hashedLocation (a : Address) :
    (hashedLocation specCrypto a).toNat = keyHash a.toNat := by
  have hlt := a.isLt
  have htake : (packUint256 (a.setWidth 256) ++ packUint256 0).take 32 =
      packUint256 (a.setWidth 256) := List.take_left' length_packUint256
  have hdecode : BigEndian.decode (packUint256 (a.setWidth 256)) = (a.setWidth 256).toNat :=
    BigEndian.decode_encode_of_lt (a.setWidth 256).isLt
  have hwidth : (a.setWidth 256).toNat = a.toNat := by
    rw [BitVec.toNat_setWidth, Nat.mod_eq_of_lt (by omega)]
  have hbounds := keyHash_bounds hlt
  simp only [hashedLocation, specCrypto, htake, hdecode, hwidth, BitVec.toNat_ofNat]
  exact Nat.mod_eq_of_lt (by omega)

theorem toNat_hashedLocation_add_one (a : Address) :
    (hashedLocation specCrypto a + 1).toNat = keyHash a.toNat + 1 := by
  have hone : (1 : Uint256).toNat = 1 := rfl
  have hbounds := keyHash_bounds a.isLt
  rw [BitVec.toNat_add, toNat_hashedLocation, hone]
  exact Nat.mod_eq_of_lt hbounds.2

theorem layout_specCrypto : Layout specCrypto where
  injective a b h := by
    have h := congrArg BitVec.toNat h
    rw [toNat_hashedLocation, toNat_hashedLocation] at h
    exact BitVec.eq_of_toNat_eq (keyHash_inj a.isLt b.isLt h)
  apart a b h := by
    have h := congrArg BitVec.toNat h
    rw [toNat_hashedLocation, toNat_hashedLocation_add_one] at h
    exact keyHash_apart a.isLt b.isLt h
  above a := by
    have hthree : (3 : Uint256).toNat = 3 := rfl
    rw [BitVec.lt_def, toNat_hashedLocation, hthree]
    exact (keyHash_bounds a.isLt).1
  wraps a := by
    have hthree : (3 : Uint256).toNat = 3 := rfl
    rw [BitVec.lt_def, toNat_hashedLocation_add_one, hthree]
    exact Nat.lt_succ_of_lt (keyHash_bounds a.isLt).1

theorem represents_blank : Represents specCrypto (fun _ => 0) Storage.blank where
  purpose _ := rfl
  key _ := rfl
  keyCount := rfl
  requiredSignatures := rfl

/-- The wallet 1 registers the key 5, which registers and removes the key 6. The zero key is
refused. -/
def specMsgs : List SpecMsg :=
  [⟨1, 0, .addKey 5 1⟩, ⟨5, 0, .addKey 6 2⟩, ⟨9, 0, .keyExist 6⟩, ⟨5, 0, .removeKey 6 2⟩,
    ⟨9, 0, .keyExist 6⟩, ⟨5, 0, .addKey 0 1⟩]

end Sample

end UniversalLogin
