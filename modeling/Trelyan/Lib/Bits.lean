import Mathlib.Data.Nat.Bitwise
import Mathlib.Data.List.Basic
import Trelyan.Lib.BigEndian

/-!
# Bit strings and the bit accumulator of a C codec

A codec that writes fields of any width goes through a 32-bit accumulator `acc` of which
the low `acc_len` bits are pending.  What lies above them is left over from earlier shifts
and is never cleared.

`Acc.pending` is the bit string that such a pair stands for.  Pushing a field appends to
it (`Acc.pending_push`), taking a field removes it from the front (`Acc.pending_pop`), and
both are stated over `ofNat`, the fixed-width bit string of a number.  `Packs` relates a
byte string to the bits that it holds, the last byte filled up with zeros.
-/

namespace Trelyan.Bits

/-! ## Bits of a number -/

/-- The low `w` bits of `n`, most significant first. -/
def ofNat : Nat → Nat → List Bool
  | 0, _ => []
  | w + 1, n => n.testBit w :: ofNat w n

@[simp] theorem ofNat_zero (n : Nat) : ofNat 0 n = [] := rfl

@[simp] theorem length_ofNat (w n : Nat) : (ofNat w n).length = w := by
  induction w with
  | zero => rfl
  | succ w ih => simp [ofNat, ih]

/-- Only the low `w` bits count. -/
theorem ofNat_eq_iff {w m n : Nat} :
    ofNat w m = ofNat w n ↔ ∀ i < w, m.testBit i = n.testBit i := by
  induction w with
  | zero => simp
  | succ w ih =>
    rw [ofNat, ofNat, List.cons.injEq, ih]
    constructor
    · intro ⟨htop, hlow⟩ i hi
      by_cases h : i = w
      · rw [h]
        exact htop
      · exact hlow i (by omega)
    · intro h
      exact ⟨h w (by omega), fun i hi => h i (by omega)⟩

theorem ofNat_mod (w n : Nat) : ofNat w (n % 2 ^ w) = ofNat w n := by
  rw [ofNat_eq_iff]
  intro i hi
  simp [Nat.testBit_mod_two_pow, hi]

theorem ofNat_eq_iff_mod {w m n : Nat} :
    ofNat w m = ofNat w n ↔ m % 2 ^ w = n % 2 ^ w := by
  constructor
  · intro h
    apply Nat.eq_of_testBit_eq
    intro i
    by_cases hi : i < w
    · simpa [Nat.testBit_mod_two_pow, hi] using ofNat_eq_iff.mp h i hi
    · simp [Nat.testBit_mod_two_pow, hi]
  · intro h
    rw [← ofNat_mod w m, h, ofNat_mod]

theorem ofNat_inj {w m n : Nat} (hm : m < 2 ^ w) (hn : n < 2 ^ w)
    (h : ofNat w m = ofNat w n) : m = n := by
  have hmod := ofNat_eq_iff_mod.mp h
  rwa [Nat.mod_eq_of_lt hm, Nat.mod_eq_of_lt hn] at hmod

/-- A string of two fields: the high one first. -/
theorem ofNat_add (a b n : Nat) : ofNat (a + b) n = ofNat a (n >>> b) ++ ofNat b n := by
  induction a with
  | zero => simp
  | succ a ih =>
    rw [show a + 1 + b = (a + b) + 1 by omega, ofNat, ofNat, ih, Nat.testBit_shiftRight,
      Nat.add_comm b a]
    rfl

theorem ofNat_eq_replicate {w n : Nat} :
    ofNat w n = List.replicate w false ↔ n % 2 ^ w = 0 := by
  have hzero : ofNat w 0 = List.replicate w false := by
    induction w with
    | zero => rfl
    | succ w ih => simp [ofNat, ih, List.replicate_succ]
  rw [← hzero, ofNat_eq_iff_mod, Nat.zero_mod]

/-- The number that a bit string spells. -/
def toNat : List Bool → Nat
  | [] => 0
  | b :: bits => 2 ^ bits.length * b.toNat + toNat bits

theorem toNat_lt (bits : List Bool) : toNat bits < 2 ^ bits.length := by
  induction bits with
  | nil => simp [toNat]
  | cons b bits ih =>
    have hb : b.toNat ≤ 1 := Bool.toNat_le b
    have hmul : 2 ^ bits.length * b.toNat ≤ 2 ^ bits.length := by
      simpa using Nat.mul_le_mul_left (2 ^ bits.length) hb
    rw [toNat, List.length_cons, Nat.pow_succ]
    omega

@[simp] theorem ofNat_toNat (bits : List Bool) : ofNat bits.length (toNat bits) = bits := by
  induction bits with
  | nil => rfl
  | cons b bits ih =>
    have hlow : ofNat bits.length (2 ^ bits.length * b.toNat + toNat bits) = bits := by
      rw [ofNat_eq_iff_mod.mpr (Nat.mul_add_mod ..), ih]
    rw [List.length_cons, ofNat, toNat, hlow, Nat.testBit_two_pow_mul_add _ (toNat_lt bits)]
    cases b <;> simp

theorem toNat_ofNat (w n : Nat) : toNat (ofNat w n) = n % 2 ^ w := by
  refine ofNat_inj (w := w) ?_ ?_ ?_
  · simpa using toNat_lt (ofNat w n)
  · exact Nat.mod_lt _ (Nat.two_pow_pos w)
  · have h := ofNat_toNat (ofNat w n)
    rw [length_ofNat] at h
    rw [h, ofNat_mod]

/-! ## The high bit of a word -/

/-- The high bit of a disjunction. -/
theorem high_or {x y : Nat} : 2 ^ 31 ≤ x ||| y ↔ 2 ^ 31 ≤ x ∨ 2 ^ 31 ≤ y := by
  constructor
  · intro hle
    by_contra hnot
    have hlt := Nat.or_lt_two_pow (n := 31) (x := x) (y := y) (by omega) (by omega)
    exact absurd hle (Nat.not_le_of_lt hlt)
  · intro hor
    rcases hor with h | h
    · exact le_trans h Nat.left_le_or
    · exact le_trans h Nat.right_le_or

theorem shift_31 (r : UInt32) : r >>> 31 = if 2 ^ 31 ≤ r.toNat then 1 else 0 := by
  have hlt := r.toNat_lt
  have hshift : (r >>> 31).toNat = r.toNat / 2 ^ 31 := by
    rw [UInt32.toNat_shiftRight]
    exact Nat.shiftRight_eq_div_pow _ 31
  rw [← UInt32.toNat_inj, hshift]
  split_ifs with h
  · show _ = 1
    omega
  · show _ = 0
    omega

/-! ## Bits of a byte string -/

/-- The bits of a byte string, each byte most significant bit first. -/
def ofBytes (bs : Bytes) : List Bool := bs.flatMap fun b => ofNat 8 b.toNat

@[simp] theorem ofBytes_nil : ofBytes [] = [] := rfl

@[simp] theorem ofBytes_cons (b : UInt8) (bs : Bytes) :
    ofBytes (b :: bs) = ofNat 8 b.toNat ++ ofBytes bs := rfl

@[simp] theorem ofBytes_append (bs cs : Bytes) : ofBytes (bs ++ cs) = ofBytes bs ++ ofBytes cs := by
  simp [ofBytes]

@[simp] theorem length_ofBytes (bs : Bytes) : (ofBytes bs).length = 8 * bs.length := by
  induction bs with
  | nil => rfl
  | cons b bs ih =>
    rw [ofBytes_cons, List.length_append, length_ofNat, ih, List.length_cons]
    omega

theorem ofBytes_inj {bs cs : Bytes} (h : ofBytes bs = ofBytes cs) : bs = cs := by
  induction bs generalizing cs with
  | nil =>
    have hlen := congrArg List.length h
    simp only [length_ofBytes, List.length_nil] at hlen
    exact (List.length_eq_zero_iff.mp (by omega)).symm
  | cons b bs ih =>
    cases cs with
    | nil => exact absurd (congrArg List.length h) (by simp)
    | cons c cs =>
      rw [ofBytes_cons, ofBytes_cons] at h
      obtain ⟨hhead, htail⟩ := List.append_inj h (by simp)
      have hbyte := ofNat_inj (w := 8) b.toNat_lt c.toNat_lt hhead
      rw [UInt8.toNat_inj.mp hbyte, ih htail]

/-! ## Packed bits -/

/-- The bytes hold `bits`, and the rest of the last byte is zero. -/
def Packs (bs : Bytes) (bits : List Bool) : Prop :=
  ∃ pad < 8, ofBytes bs = bits ++ List.replicate pad false

theorem Packs.length {bs : Bytes} {bits : List Bool} (h : Packs bs bits) :
    bs.length = (bits.length + 7) / 8 := by
  obtain ⟨pad, hpad, heq⟩ := h
  have hlen := congrArg List.length heq
  simp only [length_ofBytes, List.length_append, List.length_replicate] at hlen
  omega

/-- Only one byte string holds given bits. -/
theorem Packs.unique {bs cs : Bytes} {bits : List Bool} (hb : Packs bs bits)
    (hc : Packs cs bits) : bs = cs := by
  have hlen : bs.length = cs.length := hb.length.trans hc.length.symm
  obtain ⟨p, _, hp⟩ := hb
  obtain ⟨r, _, hr⟩ := hc
  have hbits := congrArg List.length hp
  have hbits' := congrArg List.length hr
  simp only [length_ofBytes, List.length_append, List.length_replicate] at hbits hbits'
  apply ofBytes_inj
  rw [hp, hr, show p = r by omega]

/-- An encoder that fails only on bad values and in small buffers writes the same bytes into all
others. -/
theorem Packs.encoder_eq {enc : Nat → Option Bytes} {valid : Prop} {bits : List Bool}
    (hiff : ∀ n out, enc n = some out ↔ valid ∧ out.length ≤ n ∧ Packs out bits) {k : Nat}
    {out : Bytes} (h : enc k = some out) (n : Nat) :
    enc n = if out.length ≤ n then some out else none := by
  obtain ⟨hvalid, _, hpacks⟩ := (hiff k out).mp h
  by_cases hle : out.length ≤ n
  · rw [if_pos hle]
    exact (hiff n out).mpr ⟨hvalid, hle, hpacks⟩
  · rw [if_neg hle, Option.eq_none_iff_forall_ne_some]
    intro out' h'
    obtain ⟨_, hle', hpacks'⟩ := (hiff n out').mp h'
    rw [hpacks'.unique hpacks] at hle'
    exact hle hle'

theorem Packs.nil : Packs [] [] := ⟨0, by omega, rfl⟩

/-- A full byte in front. -/
theorem Packs.cons {b : UInt8} {bs : Bytes} {front bits : List Bool}
    (hb : ofNat 8 b.toNat = front) (h : Packs bs bits) : Packs (b :: bs) (front ++ bits) := by
  obtain ⟨pad, hpad, heq⟩ := h
  exact ⟨pad, hpad, by rw [ofBytes_cons, hb, heq, List.append_assoc]⟩

theorem Packs.append {bs cs : Bytes} {bits : List Bool} (h : Packs cs bits) :
    Packs (bs ++ cs) (ofBytes bs ++ bits) := by
  obtain ⟨pad, hpad, heq⟩ := h
  exact ⟨pad, hpad, by rw [ofBytes_append, heq, List.append_assoc]⟩

/-! ## The accumulator -/

/-- A 32-bit word of which the low `accLen` bits are pending. -/
structure Acc where
  acc : UInt32
  accLen : Nat

namespace Acc

/-- The pending bits. -/
def pending (a : Acc) : List Bool := ofNat a.accLen a.acc.toNat

/-- `acc = 0; acc_len = 0`. -/
def empty : Acc := ⟨0, 0⟩

/-- `acc = (acc << k) | w; acc_len += k`. -/
def push (k : Nat) (w : UInt32) (a : Acc) : Acc :=
  ⟨(a.acc <<< UInt32.ofNat k) ||| w, a.accLen + k⟩

/-- `acc_len -= k; w = (acc >> acc_len) & ((1 << k) - 1)`: the new state, and `w`. -/
def pop (k : Nat) (a : Acc) : Acc × UInt32 :=
  let accLen := a.accLen - k
  (⟨a.acc, accLen⟩, (a.acc >>> UInt32.ofNat accLen) &&& ((1 <<< UInt32.ofNat k) - 1))

/-- `while (acc_len >= 8) { acc_len -= 8; *buf ++ = (uint8_t)(acc >> acc_len); }`: the bytes
written, and the `acc_len` left. -/
def drain (acc : UInt32) : Nat → Bytes × Nat
  | accLen + 8 =>
    let (bs, left) := drain acc accLen
    ((acc >>> UInt32.ofNat accLen).toUInt8 :: bs, left)
  | accLen => ([], accLen)

/-- `if (acc_len > 0) *buf = (uint8_t)(acc << (8 - acc_len));`. -/
def flush (a : Acc) : Bytes :=
  if a.accLen > 0 then [(a.acc <<< UInt32.ofNat (8 - a.accLen)).toUInt8] else []

/-- `acc & ((1 << acc_len) - 1)`: what is pending when a reader has finished. -/
def leftover (a : Acc) : UInt32 := a.acc &&& ((1 <<< UInt32.ofNat a.accLen) - 1)

@[simp] theorem length_pending (a : Acc) : a.pending.length = a.accLen := length_ofNat _ _

@[simp] theorem pending_empty : empty.pending = [] := rfl

@[simp] theorem push_accLen (k : Nat) (w : UInt32) (a : Acc) :
    (a.push k w).accLen = a.accLen + k := rfl

@[simp] theorem pop_accLen (k : Nat) (a : Acc) : (a.pop k).1.accLen = a.accLen - k := rfl

theorem toNat_shift {k : Nat} (hk : k < 32) : (UInt32.ofNat k).toNat % 32 = k := by
  rw [UInt32.toNat_ofNat']
  omega

/-- What a left shift does to the bits that stay inside the word. -/
theorem testBit_shl {acc : UInt32} {k i : Nat} (hk : k < 32) (hi : i < 32) :
    (acc <<< UInt32.ofNat k).toNat.testBit i = (decide (k ≤ i) && acc.toNat.testBit (i - k)) := by
  rw [UInt32.toNat_shiftLeft, toNat_shift hk, Nat.testBit_mod_two_pow, Nat.testBit_shiftLeft]
  simp [hi]

theorem toNat_shr {acc : UInt32} {k : Nat} (hk : k < 32) :
    (acc >>> UInt32.ofNat k).toNat = acc.toNat >>> k := by
  rw [UInt32.toNat_shiftRight, toNat_shift hk]

/-- A pushed field is appended, as long as nothing falls off the top. -/
theorem pending_push {k : Nat} {w : UInt32} {a : Acc} (hw : w.toNat < 2 ^ k) (hk : k < 32)
    (hfit : a.accLen + k ≤ 32) : (a.push k w).pending = a.pending ++ ofNat k w.toNat := by
  unfold pending push
  dsimp only
  rw [ofNat_add]
  have hbit : ∀ i < a.accLen + k, ((a.acc <<< UInt32.ofNat k) ||| w).toNat.testBit i =
      ((decide (k ≤ i) && a.acc.toNat.testBit (i - k)) || w.toNat.testBit i) := by
    intro i hi
    rw [UInt32.toNat_or, Nat.testBit_or, testBit_shl hk (by omega)]
  congr 1
  · rw [ofNat_eq_iff]
    intro i hi
    have hhigh : w.toNat.testBit (k + i) = false :=
      Nat.testBit_lt_two_pow (lt_of_lt_of_le hw (Nat.pow_le_pow_right (by omega) (by omega)))
    rw [Nat.testBit_shiftRight, hbit (k + i) (by omega), hhigh]
    simp
  · rw [ofNat_eq_iff]
    intro i hi
    rw [hbit i (by omega)]
    simp [show ¬ k ≤ i by omega]

/-- A byte read in: `acc = (acc << 8) | *buf ++`. -/
theorem pending_push_byte {b : UInt8} {a : Acc} (hfit : a.accLen + 8 ≤ 32) :
    (a.push 8 b.toUInt32).pending = a.pending ++ ofNat 8 b.toNat := by
  have hb : b.toUInt32.toNat = b.toNat := UInt8.toNat_toUInt32 b
  rw [pending_push (by rw [hb]; exact b.toNat_lt) (by omega) hfit, hb]

theorem toNat_and_mask {w : UInt32} {k : Nat} (hk : k < 32) :
    (w &&& ((1 <<< UInt32.ofNat k) - 1)).toNat = w.toNat % 2 ^ k := by
  have hone : ((1 : UInt32) <<< UInt32.ofNat k).toNat = 2 ^ k := by
    rw [UInt32.toNat_shiftLeft, toNat_shift hk]
    show 1 <<< k % 2 ^ 32 = 2 ^ k
    rw [Nat.one_shiftLeft]
    exact Nat.mod_eq_of_lt (Nat.pow_lt_pow_right (by omega) hk)
  have hmask : ((1 : UInt32) <<< UInt32.ofNat k - 1).toNat = 2 ^ k - 1 := by
    rw [UInt32.toNat_sub_of_le, hone]
    · rfl
    · rw [UInt32.le_iff_toNat_le, hone]
      exact Nat.one_le_two_pow
  rw [UInt32.toNat_and, hmask, Nat.and_two_pow_sub_one_eq_mod]

theorem pop_toNat {k : Nat} {a : Acc} (hk : k < 32) (hlen : a.accLen < 32) :
    (a.pop k).2.toNat = (a.acc.toNat >>> (a.accLen - k)) % 2 ^ k := by
  show ((a.acc >>> UInt32.ofNat (a.accLen - k)) &&& _).toNat = _
  rw [toNat_and_mask hk, toNat_shr (by omega)]

/-- The check on the last byte: everything pending is zero. -/
theorem leftover_eq_zero {a : Acc} (hlen : a.accLen < 32) :
    a.leftover = 0 ↔ a.pending = List.replicate a.accLen false := by
  unfold pending leftover
  rw [ofNat_eq_replicate, ← UInt32.toNat_inj, toNat_and_mask hlen]
  rfl

/-- The field taken is the front of what was pending. -/
theorem pending_pop {k : Nat} {a : Acc} (hk : k < 32) (hlen : a.accLen < 32)
    (hle : k ≤ a.accLen) : a.pending = ofNat k (a.pop k).2.toNat ++ (a.pop k).1.pending := by
  rw [pop_toNat hk hlen, ofNat_mod]
  unfold pending pop
  dsimp only
  rw [← ofNat_add, Nat.add_sub_cancel' hle]

theorem pop_lt {k : Nat} {a : Acc} (hk : k < 32) (hlen : a.accLen < 32) :
    (a.pop k).2.toNat < 2 ^ k := by
  rw [pop_toNat hk hlen]
  exact Nat.mod_lt _ (Nat.two_pow_pos k)

theorem drain_of_lt {acc : UInt32} {accLen : Nat} (h : accLen < 8) :
    drain acc accLen = ([], accLen) := by
  unfold drain
  split
  · omega
  · rfl

/-- The bytes written are the front of what was pending, and less than a byte is left. -/
theorem drain_spec {acc : UInt32} {accLen : Nat} (h : accLen ≤ 32) :
    (drain acc accLen).2 < 8 ∧
      ofNat accLen acc.toNat =
        ofBytes (drain acc accLen).1 ++ ofNat (drain acc accLen).2 acc.toNat := by
  induction accLen using Nat.strong_induction_on with
  | h accLen ih =>
    by_cases hlt : accLen < 8
    · rw [drain_of_lt hlt]
      exact ⟨hlt, by simp⟩
    · obtain ⟨rest, rfl⟩ : ∃ rest, accLen = rest + 8 := ⟨accLen - 8, by omega⟩
      obtain ⟨hleft, hbits⟩ := ih rest (by omega) (by omega)
      have hbyte : ofNat 8 (acc >>> UInt32.ofNat rest).toUInt8.toNat =
          ofNat 8 (acc.toNat >>> rest) := by
        rw [UInt32.toNat_toUInt8, toNat_shr (by omega)]
        exact ofNat_mod 8 _
      rw [drain]
      dsimp only
      refine ⟨hleft, ?_⟩
      rw [ofBytes_cons, hbyte, List.append_assoc, ← hbits, Nat.add_comm rest 8, ofNat_add]

/-- The last byte holds what is pending, filled up with zeros. -/
theorem packs_flush {a : Acc} (h : a.accLen < 8) : Packs a.flush a.pending := by
  unfold flush
  split_ifs with hpos
  · refine ⟨8 - a.accLen, by omega, ?_⟩
    have hbyte : ofNat 8 ((a.acc <<< UInt32.ofNat (8 - a.accLen)).toUInt8).toNat =
        ofNat 8 (a.acc <<< UInt32.ofNat (8 - a.accLen)).toNat := by
      rw [UInt32.toNat_toUInt8]
      exact ofNat_mod 8 _
    have hzero : ofNat (8 - a.accLen) (a.acc <<< UInt32.ofNat (8 - a.accLen)).toNat =
        List.replicate (8 - a.accLen) false := by
      rw [ofNat_eq_replicate]
      apply Nat.eq_of_testBit_eq
      intro i
      rw [Nat.testBit_mod_two_pow, Nat.zero_testBit]
      by_cases hi : i < 8 - a.accLen
      · rw [testBit_shl (by omega) (by omega)]
        simp [show ¬ 8 - a.accLen ≤ i by omega]
      · simp [hi]
    rw [ofBytes_cons, ofBytes_nil, List.append_nil, hbyte,
      show 8 = a.accLen + (8 - a.accLen) by omega, ofNat_add]
    rw [show a.accLen + (8 - a.accLen) - a.accLen = 8 - a.accLen by omega, hzero]
    congr 1
    unfold pending
    rw [ofNat_eq_iff]
    intro i hi
    rw [Nat.testBit_shiftRight, testBit_shl (by omega) (by omega)]
    simp
  · have hzero : a.accLen = 0 := by omega
    refine ⟨0, by omega, ?_⟩
    unfold pending
    rw [hzero]
    rfl

end Acc

end Trelyan.Bits
