import UniversalLogin.Lib.BigEndian

/-!
# Hexadecimal digits

Strings of hexadecimal digits, in either letter case, as the bytes and as the number they denote.
Two digits make a byte; `decode` fails on other characters and on an odd number of digits, `toNat`
on other characters only. The two agree where both are defined (`toNat_of_decode`), and
concatenation of digit strings is concatenation of bytes (`decode_append`). `encode` writes bytes in
lower case.
-/

namespace Hex

/-- The value of a digit. -/
def digit (c : Char) : Option Nat :=
  if '0' ≤ c ∧ c ≤ '9' then some (c.toNat - 48)
  else if 'a' ≤ c ∧ c ≤ 'f' then some (c.toNat - 87)
  else if 'A' ≤ c ∧ c ≤ 'F' then some (c.toNat - 55)
  else none

theorem toNat_le {c d : Char} (h : c ≤ d) : c.toNat ≤ d.toNat :=
  UInt32.le_iff_toNat_le.mp (Char.le_def.mp h)

theorem digit_lt (h : digit c = some n) : n < 16 := by
  have h9 : '9'.toNat = 57 := rfl
  have hf : 'f'.toNat = 102 := rfl
  have hF : 'F'.toNat = 70 := rfl
  simp only [digit] at h
  split at h
  · next hc =>
    have := toNat_le hc.2
    cases h
    omega
  split at h
  · next hc =>
    have := toNat_le hc.2
    cases h
    omega
  split at h
  · next hc =>
    have := toNat_le hc.2
    cases h
    omega
  · cases h

def decode : List Char → Option (List UInt8)
  | [] => some []
  | [_] => none
  | c :: d :: cs => do
    let high ← digit c
    let low ← digit d
    let bs ← decode cs
    return UInt8.ofNat (16 * high + low) :: bs

/-- The number that digits denote, the most significant one first. -/
def toNat (cs : List Char) : Option Nat :=
  cs.foldlM (fun n c => (digit c).map (16 * n + ·)) 0

def lowerDigit (n : Nat) : Char := Char.ofNat (if n < 10 then n + 48 else n + 87)

def encode (bs : List UInt8) : List Char :=
  bs.flatMap fun b => [lowerDigit (b.toNat / 16), lowerDigit (b.toNat % 16)]

theorem decode_cons_cons : decode (c :: d :: cs) = some bs ↔
    ∃ high low rest, digit c = some high ∧ digit d = some low ∧ decode cs = some rest ∧
      bs = UInt8.ofNat (16 * high + low) :: rest := by
  simp only [decode, Option.bind_eq_bind, Option.bind_eq_some_iff, Option.pure_def,
    Option.some.injEq]
  grind

theorem length_of_decode (h : decode cs = some bs) : cs.length = 2 * bs.length := by
  induction cs using decode.induct generalizing bs with
  | case1 =>
    cases h
    rfl
  | case2 => cases h
  | case3 c d cs ih =>
    obtain ⟨high, low, rest, _, _, hrest, rfl⟩ := decode_cons_cons.mp h
    have := ih hrest
    simp
    omega

theorem decode_append (hc : decode cs = some bs) (hd : decode ds = some es) :
    decode (cs ++ ds) = some (bs ++ es) := by
  induction cs using decode.induct generalizing bs with
  | case1 =>
    cases hc
    exact hd
  | case2 => cases hc
  | case3 c d cs ih =>
    obtain ⟨high, low, rest, hhigh, hlow, hrest, rfl⟩ := decode_cons_cons.mp hc
    exact decode_cons_cons.mpr ⟨high, low, rest ++ es, hhigh, hlow, ih hrest, rfl⟩

theorem toNat_of_decode (h : decode cs = some bs) : toNat cs = some (BigEndian.decode bs) := by
  suffices ∀ n, cs.foldlM (fun n c => (digit c).map (16 * n + ·)) n =
      some (bs.foldl (fun n b => n * 256 + b.toNat) n) from this 0
  induction cs using decode.induct generalizing bs with
  | case1 =>
    cases h
    exact fun _ => rfl
  | case2 => cases h
  | case3 c d cs ih =>
    obtain ⟨high, low, rest, hhigh, hlow, hrest, rfl⟩ := decode_cons_cons.mp h
    intro n
    have hbyte : (UInt8.ofNat (16 * high + low)).toNat = 16 * high + low := by
      have := digit_lt hhigh
      have := digit_lt hlow
      rw [UInt8.toNat_ofNat']
      omega
    have hnext : 16 * (16 * n + high) + low = n * 256 + (16 * high + low) := by omega
    simp only [List.foldlM_cons, hhigh, hlow, Option.map_some, Option.bind_eq_bind,
      Option.bind_some, List.foldl_cons, hbyte, hnext]
    exact ih hrest _

theorem digit_lowerDigit (h : n < 16) : digit (lowerDigit n) = some n := by
  revert n
  decide

theorem decode_encode (bs : List UInt8) : decode (encode bs) = some bs := by
  induction bs with
  | nil => rfl
  | cons b bs ih =>
    have hb := b.toNat_lt
    refine decode_cons_cons.mpr ⟨b.toNat / 16, b.toNat % 16, bs, digit_lowerDigit (by omega),
      digit_lowerDigit (by omega), ih, ?_⟩
    rw [Nat.div_add_mod, UInt8.ofNat_toNat]

end Hex
