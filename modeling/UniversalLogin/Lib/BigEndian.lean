import Mathlib.Data.List.Induction
import Mathlib.Tactic.Ring

/-!
# Big-endian byte strings

Fixed-width big-endian encodings of natural numbers and the number a byte string denotes. The two
maps are inverse to each other on numbers below `256 ^ len` and on strings of length `len`
(`decode_encode_of_lt`, `encode_decode`), so a concatenation of fixed-width fields determines every
field (`encode_append_inj`).
-/

namespace BigEndian

/-- The `len` low-order bytes of `n`, most significant byte first. -/
def encode : Nat → Nat → List UInt8
  | 0, _ => []
  | len + 1, n => encode len (n / 256) ++ [UInt8.ofNat n]

/-- The number denoted by a byte string, most significant byte first. -/
def decode (bs : List UInt8) : Nat :=
  bs.foldl (fun n b => n * 256 + b.toNat) 0

@[simp] theorem length_encode : (encode len n).length = len := by
  induction len generalizing n with
  | zero => rfl
  | succ len ih => simp [encode, ih]

@[simp] theorem decode_nil : decode [] = 0 := rfl

@[simp] theorem decode_append_singleton (bs : List UInt8) (b : UInt8) :
    decode (bs ++ [b]) = decode bs * 256 + b.toNat := by
  simp [decode]

theorem decode_append (as bs : List UInt8) :
    decode (as ++ bs) = decode as * 256 ^ bs.length + decode bs := by
  induction bs using List.reverseRecOn with
  | nil => simp
  | append_singleton bs b ih =>
    rw [← List.append_assoc, decode_append_singleton, ih, decode_append_singleton,
      List.length_append, List.length_singleton, pow_succ]
    ring

theorem decode_lt (bs : List UInt8) : decode bs < 256 ^ bs.length := by
  induction bs using List.reverseRecOn with
  | nil => simp
  | append_singleton bs b ih =>
    have hb : b.toNat < 256 := b.toNat_lt
    rw [decode_append_singleton, List.length_append, List.length_singleton, pow_succ]
    omega

theorem decode_encode : decode (encode len n) = n % 256 ^ len := by
  induction len generalizing n with
  | zero => simp [encode, Nat.mod_one]
  | succ len ih =>
    have hb : (UInt8.ofNat n).toNat = n % 256 := by simp
    rw [encode, decode_append_singleton, ih, hb, pow_succ', Nat.mod_mul]
    omega

theorem decode_encode_of_lt (h : n < 256 ^ len) : decode (encode len n) = n := by
  rw [decode_encode, Nat.mod_eq_of_lt h]

theorem encode_decode (bs : List UInt8) : encode bs.length (decode bs) = bs := by
  induction bs using List.reverseRecOn with
  | nil => rfl
  | append_singleton bs b ih =>
    have hb : b.toNat < 256 := b.toNat_lt
    have hdiv : (decode bs * 256 + b.toNat) / 256 = decode bs := by omega
    have hlow : UInt8.ofNat (decode bs * 256 + b.toNat) = b := by
      apply UInt8.toNat_inj.mp
      simp
    rw [List.length_append, List.length_singleton, decode_append_singleton, encode, hdiv, ih, hlow]

theorem encode_inj (hm : m < 256 ^ len) (hn : n < 256 ^ len)
    (h : encode len m = encode len n) : m = n := by
  rw [← decode_encode_of_lt hm, ← decode_encode_of_lt hn, h]

/-- A fixed-width field in front of a string can be read back. -/
theorem encode_append_inj (hm : m < 256 ^ len) (hn : n < 256 ^ len)
    (h : encode len m ++ as = encode len n ++ bs) : m = n ∧ as = bs := by
  obtain ⟨hfield, hrest⟩ := List.append_inj h (by simp)
  exact ⟨encode_inj hm hn hfield, hrest⟩

end BigEndian
