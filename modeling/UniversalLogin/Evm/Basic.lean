import Mathlib.Data.FinEnum
import Mathlib.Data.BitVec
import Mathlib.Data.Set.Card
import UniversalLogin.Lib.BigEndian

/-!
# Values, memory and calldata

The machine-level vocabulary of the contracts: fixed-width values, the hash functions as parameters,
`require` and checked arithmetic, and the zero-extended reads of memory and calldata.
-/

namespace UniversalLogin

abbrev Bytes := List UInt8
abbrev Address := BitVec 160
abbrev Uint256 := BitVec 256
abbrev Bytes32 := BitVec 256

/-- The hash and signature functions, which the contracts take from the EVM and from the ECDSA
library. Nothing is assumed of them here. -/
structure Crypto where
  keccak256 : Bytes → Bytes32
  ecrecover : Bytes32 → BitVec 8 → Bytes32 → Bytes32 → Address
  /-- `ECDSA.toEthSignedMessageHash` -/
  toEthSignedMessageHash : Bytes32 → Bytes32
  /-- `ECDSA.recover` -/
  recover : Bytes32 → Bytes → Address

/-! ## Reverting computations -/

def require (c : Prop) [Decidable c] (message : String) : Except String Unit :=
  if c then .ok () else .error message

@[simp] theorem except_bind_eq_ok {x : Except ε α} {f : α → Except ε β} {b : β} :
    (x >>= f) = .ok b ↔ ∃ a, x = .ok a ∧ f a = .ok b := by
  cases x <;> simp [Bind.bind, Except.bind]

@[simp] theorem except_map_eq_ok {x : Except ε α} {f : α → β} {b : β} :
    (f <$> x) = .ok b ↔ ∃ a, x = .ok a ∧ f a = b := by
  cases x <;> simp [Functor.map, Except.map]

@[simp] theorem except_pure_eq_ok {a b : α} :
    (pure a : Except ε α) = .ok b ↔ a = b := by
  simp [pure, Except.pure]

@[simp] theorem require_eq_ok {c : Prop} [Decidable c] {message : String} {u : Unit} :
    require c message = .ok u ↔ c := by
  by_cases h : c <;> simp [require, h]

/-! ## Checked arithmetic: an operation that would wrap reverts -/

namespace SafeMath

def add (a b : Uint256) : Except String Uint256 := do
  require (a.toNat + b.toNat < 2 ^ 256) ""
  return a + b

def sub (a b : Uint256) : Except String Uint256 := do
  require (b ≤ a) ""
  return a - b

def mul (a b : Uint256) : Except String Uint256 := do
  require (a.toNat * b.toNat < 2 ^ 256) ""
  return a * b

theorem add_eq_ok {a b c : Uint256} :
    add a b = .ok c ↔ a.toNat + b.toNat < 2 ^ 256 ∧ a + b = c := by
  simp [add]

theorem sub_eq_ok {a b c : Uint256} : sub a b = .ok c ↔ b ≤ a ∧ a - b = c := by
  simp [sub]

theorem mul_eq_ok {a b c : Uint256} :
    mul a b = .ok c ↔ a.toNat * b.toNat < 2 ^ 256 ∧ a * b = c := by
  simp [mul]

theorem toNat_sub {a b c : Uint256} (h : sub a b = .ok c) : c.toNat = a.toNat - b.toNat := by
  obtain ⟨hle, rfl⟩ := sub_eq_ok.mp h
  exact BitVec.toNat_sub_of_le hle

theorem toNat_mul {a b c : Uint256} (h : mul a b = .ok c) : c.toNat = a.toNat * b.toNat := by
  obtain ⟨hlt, rfl⟩ := mul_eq_ok.mp h
  rw [BitVec.toNat_mul, Nat.mod_eq_of_lt hlt]

theorem toNat_add_one {a c : Uint256} (h : add a 1 = .ok c) : c.toNat = a.toNat + 1 := by
  obtain ⟨hlt, rfl⟩ := add_eq_ok.mp h
  have : (1 : Uint256).toNat = 1 := rfl
  rw [BitVec.toNat_add]
  omega

theorem toNat_sub_one {a c : Uint256} (h : sub a 1 = .ok c) : c.toNat + 1 = a.toNat := by
  have : (1 : Uint256).toNat = 1 := rfl
  have hle := BitVec.le_def.mp (sub_eq_ok.mp h).1
  have := toNat_sub h
  omega

end SafeMath

/-! ## Packed values -/

def packAddress (a : Address) : Bytes := BigEndian.encode 20 a.toNat

def packUint256 (x : Uint256) : Bytes := BigEndian.encode 32 x.toNat

@[simp] theorem length_packAddress : (packAddress a).length = 20 := by simp [packAddress]

theorem packAddress_append_inj {a b : Address} (h : packAddress a ++ as = packAddress b ++ bs) :
    a = b ∧ as = bs := by
  have hwidth : (2 : Nat) ^ 160 = 256 ^ 20 := by norm_num
  obtain ⟨hab, hrest⟩ := BigEndian.encode_append_inj (hwidth ▸ a.isLt) (hwidth ▸ b.isLt) h
  exact ⟨BitVec.eq_of_toNat_eq hab, hrest⟩

theorem packUint256_append_inj {x y : Uint256} (h : packUint256 x ++ as = packUint256 y ++ bs) :
    x = y ∧ as = bs := by
  have hwidth : (2 : Nat) ^ 256 = 256 ^ 32 := by norm_num
  obtain ⟨hxy, hrest⟩ := BigEndian.encode_append_inj (hwidth ▸ x.isLt) (hwidth ▸ y.isLt) h
  exact ⟨BitVec.eq_of_toNat_eq hxy, hrest⟩

/-! ## Reads -/

/-- `len` bytes from position `pos`, zeros where the string has ended. -/
def slice (bs : Bytes) (pos len : Nat) : Bytes := ((bs.drop pos).take len).rightpad len 0

theorem slice_eq_take (h : pos + len ≤ bs.length) : slice bs pos len = (bs.drop pos).take len := by
  have hlen : ((bs.drop pos).take len).length = len := by simp; omega
  simp [slice, List.rightpad, hlen]

@[simp] theorem length_slice : (slice bs pos len).length = len := by
  simp [slice, List.rightpad]

theorem getElem_slice (hi : i < (slice bs pos len).length) :
    (slice bs pos len)[i] = bs.getD (pos + i) 0 := by
  rw [length_slice] at hi
  simp only [slice, List.rightpad, List.getElem_append, List.getD_eq_getElem?_getD]
  split
  · next hlt =>
    simp only [List.length_take, List.length_drop] at hlt
    simp [List.getElem?_eq_getElem (show pos + i < bs.length by omega)]
  · next hge =>
    simp only [List.length_take, List.length_drop] at hge
    simp [List.getElem?_eq_none (show bs.length ≤ pos + i by omega)]

theorem slice_add : slice bs pos (m + n) = slice bs pos m ++ slice bs (pos + m) n := by
  refine List.ext_getElem (by simp) fun i hi _ => ?_
  rw [getElem_slice hi, List.getElem_append]
  split
  · rw [getElem_slice]
  · next hge =>
    rw [length_slice] at hge
    rw [getElem_slice]
    congr 1
    rw [length_slice]
    omega

/-- The 32-byte word at position `pos`. -/
def wordAt (bs : Bytes) (pos : Nat) : Uint256 :=
  BitVec.ofNat 256 (BigEndian.decode (slice bs pos 32))

/-- A `bytes` value in memory: its length, its contents, and memory not yet written to. -/
def memory (bs : Bytes) : Bytes := BigEndian.encode 32 bs.length ++ bs

/-- `mload(add(bs, offset))` -/
def mload (bs : Bytes) (offset : Nat) : Uint256 := wordAt (memory bs) offset

theorem mload_contents (bs : Bytes) (pos : Nat) : mload bs (pos + 32) = wordAt bs pos := by
  have hdrop : (memory bs).drop (pos + 32) = bs.drop pos := by
    rw [memory, List.drop_append]
    simp
  simp [mload, wordAt, slice, hdrop]

end UniversalLogin
