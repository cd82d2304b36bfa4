import Mathlib.Data.Nat.ModEq

/-!
# Fixed-width big-endian numbers

`encode width n` is the string of `width` bytes that spells `n` in base 256,
most significant byte first, and `decode` reads such a string back.  Both
the AVM (`itob`, the ARC-4 length and offset words) and Python
(`int.to_bytes(8, "big")`) write numbers this way.

`decode_encode` says what is lost: the value comes back modulo
`256 ^ width`.  Below that bound the encoding is injective (`encode_inj`).
-/

namespace Trelyan

/-- A byte string. -/
abbrev Bytes := List UInt8

namespace BigEndian

/-- The `width` big-endian bytes of `n`, modulo `256 ^ width`. -/
def encode : Nat → Nat → Bytes
  | 0, _ => []
  | width + 1, n => UInt8.ofNat (n / 256 ^ width) :: encode width n

/-- The number that a big-endian string spells. -/
def decode : Bytes → Nat
  | [] => 0
  | b :: bs => b.toNat * 256 ^ bs.length + decode bs

@[simp] theorem encode_length (width n : Nat) : (encode width n).length = width := by
  induction width with
  | zero => rfl
  | succ width ih => simp [encode, ih]

theorem decode_lt (bs : Bytes) : decode bs < 256 ^ bs.length := by
  induction bs with
  | nil => simp [decode]
  | cons b bs ih =>
    have hb : b.toNat < 256 := b.toNat_lt
    have hmul : (b.toNat + 1) * 256 ^ bs.length ≤ 256 * 256 ^ bs.length :=
      Nat.mul_le_mul_right _ hb
    rw [decode, List.length_cons, Nat.pow_succ]
    rw [Nat.add_mul] at hmul
    omega

/-- Reading back what was written gives the number modulo the width. -/
theorem decode_encode (width n : Nat) : decode (encode width n) = n % 256 ^ width := by
  induction width with
  | zero => simp [encode, decode, Nat.mod_one]
  | succ width ih =>
    have hbyte : (UInt8.ofNat (n / 256 ^ width)).toNat = n / 256 ^ width % 256 :=
      UInt8.toNat_ofNat'
    rw [encode, decode, ih, encode_length, hbyte, Nat.pow_succ, Nat.mod_mul,
      Nat.mul_comm, Nat.add_comm]

theorem decode_encode_of_lt {width n : Nat} (h : n < 256 ^ width) :
    decode (encode width n) = n := by
  rw [decode_encode, Nat.mod_eq_of_lt h]

/-- Below the bound of its width, a number is determined by its bytes. -/
theorem encode_inj {width n m : Nat} (hn : n < 256 ^ width) (hm : m < 256 ^ width)
    (h : encode width n = encode width m) : n = m := by
  rw [← decode_encode_of_lt hn, ← decode_encode_of_lt hm, h]

end BigEndian

end Trelyan
