import Mathlib.Algebra.Order.Ring.Int
import Mathlib.Data.Nat.Bitwise
import Trelyan.Lib.BitCode
import Trelyan.Falcon.Rejection

/-!
# The fixed-width codecs of `codec.c`

`modq_encode` and `modq_decode` write a public key, 14 bits for a coefficient.
`trim_i8_*` and `trim_i16_*` write signed coefficients of any width, in a private key and in
a signature of the constant-time form.

Each decoder accepts the encodings and nothing else (`modqDecode_iff`, `trimDecode_iff`):
there is one byte string for one vector of coefficients, so that no key and no signature
value can be rewritten without changing what it says.
-/

namespace Trelyan.Falcon.Codec

open Bits

/-- The bytes that `n` fields of `bits` bits fill: `((n * bits) + 7) >> 3`. -/
def fixedLen (logn bits : Nat) : Nat := (2 ^ logn * bits + 7) / 8

/-! ## Coefficients modulo `q` -/

/-- `Zf(modq_encode)`: `none` for the size 0. -/
def modqEncode (maxOutLen logn : Nat) (x : List UInt16) : Option Bytes :=
  if x.any (fun c => c ≥ 12289) then none
  else if fixedLen logn 14 > maxOutLen then none
  else some (encodeFields 14 .empty (x.map (·.toUInt32)))

/-- `Zf(modq_decode)`: the coefficients, and the `in_len` bytes that it reads. -/
def modqDecode (logn : Nat) (input : Bytes) : Option (List UInt16 × Nat) :=
  if fixedLen logn 14 > input.length then none
  else (Reference.modqDecode logn (input.take (fixedLen logn 14))).map fun x =>
    (x.map (·.toUInt16), fixedLen logn 14)

/-- A word of 14 bits below `q`. -/
def modqField : Field 14 UInt32 where
  Valid w := w < 12289
  word w := w
  read w := if w ≥ 12289 then none else some w
  word_lt := by
    intro w hw
    have h : w.toNat < 12289 := hw
    omega
  read_eq_some := by
    intro w c _
    by_cases h : w ≥ 12289
    · have hn : ¬ w < 12289 := by simpa using h
      rw [if_pos h]
      constructor
      · intro hc
        cases hc
      · intro ⟨hc, heq⟩
        exact absurd (heq ▸ hc) hn
    · have hn : w < 12289 := by simpa using h
      rw [if_neg h, Option.some.injEq]
      exact ⟨fun hc => ⟨hc ▸ hn, hc.symm⟩, fun hc => hc.2.symm⟩

/-- The accumulator of `modq_decode`. -/
def modqAcc (acc accLen : UInt32) : Acc := ⟨acc, accLen.toNat⟩

theorem modqAcc_leftover (acc accLen : UInt32) :
    (modqAcc acc accLen).leftover = acc &&& ((1 <<< accLen) - 1) := by
  unfold modqAcc Acc.leftover
  rw [UInt32.ofNat_toNat]

theorem modqAcc_load {acc accLen : UInt32} (h : accLen.toNat < 14) (b : UInt8) :
    (modqAcc acc accLen).push 8 b.toUInt32 =
      modqAcc ((acc <<< 8) ||| b.toUInt32) (accLen + 8) := by
  have hlen : (accLen + 8).toNat = accLen.toNat + 8 := by
    rw [UInt32.toNat_add, show (8 : UInt32).toNat = 8 from rfl]
    omega
  unfold modqAcc Acc.push
  rw [hlen]
  rfl

theorem modqAcc_pop {acc accLen : UInt32} (h : accLen ≥ 14) :
    (modqAcc acc accLen).pop 14 =
      (modqAcc acc (accLen - 14), (acc >>> (accLen - 14)) &&& 0x3FFF) := by
  have hsub : (accLen - 14).toNat = accLen.toNat - 14 := UInt32.toNat_sub_of_le _ _ h
  unfold modqAcc Acc.pop
  dsimp only
  rw [← hsub, UInt32.ofNat_toNat]
  rfl

/-- The inner loop never takes two words of 14 bits from one byte. -/
theorem takeFields_modq {r : Nat} {a : Acc} (ha : a.accLen < 28) :
    takeFields 14 modqField.read (r + 1) a =
      if a.accLen ≥ 14 then
        (modqField.read (a.pop 14).2).map fun c => ([c], (a.pop 14).1)
      else some ([], a) := by
  rw [takeFields]
  split_ifs with h
  · have hstop : takeFields 14 modqField.read r (a.pop 14).1 = some ([], (a.pop 14).1) := by
      cases r with
      | zero => rfl
      | succ r =>
        rw [takeFields, if_neg]
        rw [Acc.pop_accLen]
        omega
    rw [hstop]
    cases modqField.read (a.pop 14).2 <;> rfl
  · rfl

/-- `modqLoop` is the general loop, with its check on the bits that are left. -/
theorem modqLoop_eq {n : Nat} {x : List UInt32} {acc accLen : UInt32} {buf : Bytes}
    (hacc : accLen.toNat < 14) (hx : x.length ≤ n) :
    Reference.modqLoop n x acc accLen buf =
      (decodeFields 14 modqField.read (n - x.length) (modqAcc acc accLen) buf).bind fun t =>
        if t.2.1.leftover ≠ 0 then none else some (x ++ t.1) := by
  induction buf generalizing x acc accLen with
  | nil =>
    by_cases hmore : x.length < n
    · obtain ⟨r, hr⟩ : ∃ r, n - x.length = r + 1 := ⟨n - x.length - 1, by omega⟩
      rw [Reference.modqLoop, if_pos hmore, hr]
      rfl
    · rw [Reference.modqLoop, if_neg hmore, show n - x.length = 0 by omega, decodeFields,
        Option.bind_some, modqAcc_leftover, List.append_nil]
  | cons b buf ih =>
    by_cases hmore : x.length < n
    · obtain ⟨r, hr⟩ : ∃ r, n - x.length = r + 1 := ⟨n - x.length - 1, by omega⟩
      have hlen : (accLen + 8).toNat = accLen.toNat + 8 := by
        rw [UInt32.toNat_add, show (8 : UInt32).toNat = 8 from rfl]
        omega
      rw [Reference.modqLoop, if_pos hmore, hr, decodeFields, modqAcc_load hacc,
        takeFields_modq (by show (accLen + 8).toNat < 28; omega)]
      dsimp only
      generalize (acc <<< 8) ||| b.toUInt32 = acc'
      by_cases hfull : accLen + 8 ≥ 14
      · have hfull' : (modqAcc acc' (accLen + 8)).accLen ≥ 14 := hfull
        have hsub : (accLen + 8 - 14).toNat = accLen.toNat + 8 - 14 := by
          rw [UInt32.toNat_sub_of_le _ _ hfull, hlen]
          rfl
        rw [if_pos hfull, if_pos hfull', modqAcc_pop hfull]
        generalize (acc' >>> (accLen + 8 - 14)) &&& 0x3FFF = w
        show _ = Option.bind (Option.bind (Option.map _ (if _ then none else some _)) _) _
        split_ifs with hbig
        · rfl
        · rw [ih (by omega) (by rw [List.length_append, List.length_singleton]; omega),
            List.length_append, List.length_singleton,
            show n - (x.length + 1) = r + 1 - 1 by omega]
          simp only [Option.map_some, Option.bind_some, List.length_singleton]
          cases decodeFields 14 modqField.read (r + 1 - 1) (modqAcc acc' (accLen + 8 - 14)) buf with
          | none => rfl
          | some t => simp [List.append_assoc]
      · have hpart : ¬ (modqAcc acc' (accLen + 8)).accLen ≥ 14 := hfull
        have hlt : (accLen + 8).toNat < 14 := Nat.lt_of_not_ge hfull
        rw [if_neg hfull, if_neg hpart, ih hlt hx, hr, Option.bind_some, List.length_nil,
          Nat.sub_zero]
        cases decodeFields 14 modqField.read (r + 1) (modqAcc acc' (accLen + 8)) buf <;> rfl
    · rw [Reference.modqLoop, if_neg hmore, show n - x.length = 0 by omega, decodeFields,
        Option.bind_some, modqAcc_leftover, List.append_nil]

/-- The bits of a vector of coefficients modulo `q`. -/
def modqBits (x : List UInt16) : List Bool := x.flatMap fun c => ofNat 14 c.toNat

theorem modqEncode_eq_some {maxOutLen logn : Nat} {x : List UInt16} {out : Bytes} :
    modqEncode maxOutLen logn x = some out ↔
      (∀ c ∈ x, c < 12289) ∧ fixedLen logn 14 ≤ maxOutLen ∧ Packs out (modqBits x) := by
  have hany : x.any (fun c => c ≥ 12289) = true ↔ ¬ ∀ c ∈ x, c < 12289 := by simp
  unfold modqEncode
  split_ifs with hbig hlen
  · simp [hany.mp hbig]
  · simp [show ¬ fixedLen logn 14 ≤ maxOutLen by omega]
  · have hall : ∀ c ∈ x, c < 12289 := not_not.mp (mt hany.mpr hbig)
    have hpacks : Packs (encodeFields 14 .empty (x.map (·.toUInt32))) (modqBits x) := by
      have h := @packs_encodeFields 14 (by omega) (x.map (·.toUInt32)) .empty
        (by show 0 < 8; omega) ?_
      · simpa [modqBits, List.flatMap_map] using h
      · intro w hw
        obtain ⟨c, hc, hcw⟩ := List.mem_map.mp hw
        have hlt : c.toNat < 12289 := hall c hc
        rw [← hcw, UInt16.toNat_toUInt32]
        omega
    rw [Option.some.injEq]
    constructor
    · intro h
      exact ⟨hall, by omega, h ▸ hpacks⟩
    · intro ⟨_, _, h⟩
      exact hpacks.unique h

theorem length_modqBits (x : List UInt16) : (modqBits x).length = x.length * 14 := by
  unfold modqBits
  rw [List.length_flatMap, List.map_congr_left fun c _ => length_ofNat 14 c.toNat,
    List.map_const', List.sum_replicate_nat]

theorem modqBits_toUInt16 {y : List UInt32} (hy : ∀ w ∈ y, w < 12289) :
    modqBits (y.map (·.toUInt16)) = y.flatMap modqField.bitsOf := by
  unfold modqBits
  rw [List.flatMap_map]
  refine List.flatMap_congr fun w hw => ?_
  have hlt : w.toNat < 12289 := hy w hw
  show ofNat 14 w.toUInt16.toNat = ofNat 14 w.toNat
  rw [UInt32.toNat_toUInt16, Nat.mod_eq_of_lt (by omega)]

/-- What `modq_decode` accepts, in a buffer of the exact length. -/
theorem reference_modqDecode_eq_some {logn : Nat} {buf : Bytes} {y : List UInt32}
    (hbuf : buf.length = fixedLen logn 14) :
    Reference.modqDecode logn buf = some y ↔
      y.length = 2 ^ logn ∧ (∀ w ∈ y, w < 12289) ∧ Packs buf (y.flatMap modqField.bitsOf) := by
  have hlen : (2 ^ logn * 14 + 7) / 8 = buf.length := hbuf.symm
  have h := @decodeChecked_eq_some 14 _ modqField (by omega) (by omega) (2 ^ logn)
    (Nat.two_pow_pos logn) buf hlen.le y
  rw [List.take_of_length_le hlen.ge] at h
  rw [Reference.modqDecode, if_pos hlen, modqLoop_eq (by decide) (by simp)]
  exact h

/-- `modq_decode` reads exactly the encodings of `modq_encode`, as what was encoded. -/
theorem modqDecode_iff {logn : Nat} {input : Bytes} {x : List UInt16} {inLen : Nat} :
    modqDecode logn input = some (x, inLen) ↔
      x.length = 2 ^ logn ∧ inLen ≤ input.length ∧
        modqEncode inLen logn x = some (input.take inLen) := by
  unfold modqDecode
  split_ifs with hshort
  · constructor
    · intro h
      cases h
    · intro ⟨_, hin, hencode⟩
      have hmax := (modqEncode_eq_some.mp hencode).2.1
      omega
  · have htake : (input.take (fixedLen logn 14)).length = fixedLen logn 14 := by
      rw [List.length_take]
      omega
    rw [Option.map_eq_some_iff]
    constructor
    · intro ⟨y, hy, heq⟩
      rw [Prod.mk.injEq] at heq
      obtain ⟨hx, hinLen⟩ := heq
      subst hx hinLen
      obtain ⟨hlen, hsmall, hpacks⟩ := (reference_modqDecode_eq_some htake).mp hy
      refine ⟨by rw [List.length_map, hlen], by omega, ?_⟩
      rw [modqEncode_eq_some, modqBits_toUInt16 hsmall]
      refine ⟨?_, le_refl _, hpacks⟩
      intro c hc
      obtain ⟨w, hw, hcw⟩ := List.mem_map.mp hc
      have hlt : w.toNat < 12289 := hsmall w hw
      rw [← hcw]
      show w.toUInt16.toNat < 12289
      rw [UInt32.toNat_toUInt16]
      omega
    · intro ⟨hlen, hin, hencode⟩
      obtain ⟨hsmall, _, hpacks⟩ := modqEncode_eq_some.mp hencode
      have hinLen : inLen = fixedLen logn 14 := by
        have h := hpacks.length
        rw [List.length_take_of_le hin, length_modqBits, hlen] at h
        exact h
      have hback : (x.map (·.toUInt32)).map (·.toUInt16) = x := by
        rw [List.map_map]
        simp [Function.comp_def]
      have hwords : ∀ w ∈ x.map (·.toUInt32), w < 12289 := by
        intro w hw
        obtain ⟨c, hc, hcw⟩ := List.mem_map.mp hw
        have hlt : c.toNat < 12289 := hsmall c hc
        rw [← hcw]
        show c.toUInt32.toNat < 12289
        rwa [UInt16.toNat_toUInt32]
      rw [← hback, modqBits_toUInt16 hwords] at hpacks
      subst hinLen
      refine ⟨x.map (·.toUInt32), ?_, by rw [hback]⟩
      exact (reference_modqDecode_eq_some htake).mpr
        ⟨by rw [List.length_map, hlen], hwords, hpacks⟩

/-! ## Signed coefficients -/

/-- A signed integer type of C, as far as the codecs use it. -/
structure IntType (α : Type) where
  width : Nat
  toInt : α → Int
  /-- The conversion to the unsigned type of the same width, widened. -/
  toWord : α → UInt32
  /-- The conversion from `int32_t`. -/
  ofInt32 : Int32 → α
  width_le : width ≤ 16
  toInt_inj : ∀ {c d}, toInt c = toInt d → c = d
  toWord_toNat : ∀ c, ((toWord c).toNat : Int) = toInt c % 2 ^ width
  toInt_ofInt32 : ∀ z : Int32, -2 ^ (width - 1) ≤ z.toInt → z.toInt < 2 ^ (width - 1) →
    toInt (ofInt32 z) = z.toInt

/-- `int16_t`. -/
def int16 : IntType Int16 where
  width := 16
  toInt := Int16.toInt
  toWord c := c.toUInt16.toUInt32
  ofInt32 := Int32.toInt16
  width_le := by omega
  toInt_inj := Int16.toInt_inj.mp
  toWord_toNat := by
    intro c
    have hlt := c.toUInt16.toNat_lt
    have heq : c.toInt = if 2 * c.toUInt16.toNat < 2 ^ 16 then (c.toUInt16.toNat : Int)
        else (c.toUInt16.toNat : Int) - (2 ^ 16 : Nat) := BitVec.toInt_eq_toNat_cond ..
    rw [UInt16.toNat_toUInt32, heq]
    split_ifs <;> omega
  toInt_ofInt32 := by
    intro z hlo hhi
    rw [Int32.toInt_toInt16]
    exact Int.bmod_eq_of_le (by omega) (by omega)

/-- `int8_t`. -/
def int8 : IntType Int8 where
  width := 8
  toInt := Int8.toInt
  toWord c := c.toUInt8.toUInt32
  ofInt32 := Int32.toInt8
  width_le := by omega
  toInt_inj := Int8.toInt_inj.mp
  toWord_toNat := by
    intro c
    have hlt := c.toUInt8.toNat_lt
    have heq : c.toInt = if 2 * c.toUInt8.toNat < 2 ^ 8 then (c.toUInt8.toNat : Int)
        else (c.toUInt8.toNat : Int) - (2 ^ 8 : Nat) := BitVec.toInt_eq_toNat_cond ..
    rw [UInt8.toNat_toUInt32, heq]
    split_ifs <;> omega
  toInt_ofInt32 := by
    intro z hlo hhi
    rw [Int32.toInt_toInt8]
    exact Int.bmod_eq_of_le (by omega) (by omega)

variable {α : Type}

/-- `((uintN_t)x[u] & mask)`. -/
def trimWord (T : IntType α) (bits : Nat) (c : α) : UInt32 :=
  T.toWord c &&& ((1 <<< UInt32.ofNat bits) - 1)

/-- `trim_i16_encode` and `trim_i8_encode`. -/
def trimEncode (T : IntType α) (maxOutLen logn bits : Nat) (x : List α) : Option Bytes :=
  let maxv : Int := (1 <<< (bits - 1) : Nat) - 1
  let minv : Int := -maxv
  if x.any (fun c => T.toInt c < minv || T.toInt c > maxv) then none
  else if fixedLen logn bits > maxOutLen then none
  else some (encodeFields bits .empty (x.map (trimWord T bits)))

/-- The word `w` of a field, sign-extended; `-2^(bits-1)` is forbidden. -/
def trimExtend (bits : Nat) (w : UInt32) : Option Int32 :=
  let mask2 : UInt32 := 1 <<< UInt32.ofNat (bits - 1)
  let w := w ||| -(w &&& mask2)
  if w = -mask2 then none else some w.toInt32

/-- `trim_i16_decode` and `trim_i8_decode`: the coefficients, and the `in_len` bytes read. -/
def trimDecode (T : IntType α) (logn bits : Nat) (input : Bytes) : Option (List α × Nat) :=
  if fixedLen logn bits > input.length then none
  else
    (decodeChecked bits (fun w => (trimExtend bits w).map T.ofInt32) (2 ^ logn) input).map
      fun x => (x, fixedLen logn bits)

/-- `Zf(trim_i16_encode)`. -/
def trimI16Encode (maxOutLen logn bits : Nat) (x : List Int16) : Option Bytes :=
  trimEncode int16 maxOutLen logn bits x

/-- `Zf(trim_i16_decode)`. -/
def trimI16Decode (logn bits : Nat) (input : Bytes) : Option (List Int16 × Nat) :=
  trimDecode int16 logn bits input

/-- `Zf(trim_i8_encode)`. -/
def trimI8Encode (maxOutLen logn bits : Nat) (x : List Int8) : Option Bytes :=
  trimEncode int8 maxOutLen logn bits x

/-- `Zf(trim_i8_decode)`. -/
def trimI8Decode (logn bits : Nat) (input : Bytes) : Option (List Int8 × Nat) :=
  trimDecode int8 logn bits input

/-- The sign bit of a field, copied into all the bits above it. -/
theorem or_sign {k w : Nat} (hk : k < 32) (hlo : 2 ^ k ≤ w) (hhi : w < 2 ^ (k + 1)) :
    w ||| (2 ^ 32 - 2 ^ k) = 2 ^ 32 - 2 ^ (k + 1) + w := by
  have hpow : 2 ^ 32 = 2 ^ k * 2 ^ (32 - k) := by
    rw [← Nat.pow_add, Nat.add_sub_cancel' (by omega)]
  have hone : 1 ≤ 2 ^ (32 - k) := Nat.one_le_two_pow
  have htwo : 2 ^ (k + 1) ≤ 2 ^ 32 := Nat.pow_le_pow_right (by omega) (by omega)
  obtain ⟨l, rfl⟩ : ∃ l, w = 2 ^ k * 1 + l := ⟨w - 2 ^ k, by omega⟩
  have hl : l < 2 ^ k := by
    rw [Nat.pow_succ] at hhi
    omega
  have hmask : 2 ^ 32 - 2 ^ k = 2 ^ k * (2 ^ (32 - k) - 1) + 0 := by
    rw [Nat.mul_sub, ← hpow]
    omega
  have hsum : 2 ^ 32 - 2 ^ (k + 1) + (2 ^ k * 1 + l) = 2 ^ k * (2 ^ (32 - k) - 1) + l := by
    rw [Nat.mul_sub, ← hpow, Nat.pow_succ] at *
    omega
  rw [hsum]
  apply Nat.eq_of_testBit_eq
  intro i
  rw [Nat.testBit_or, hmask, Nat.testBit_two_pow_mul_add _ hl, Nat.testBit_two_pow_mul_add _ hl,
    Nat.testBit_two_pow_mul_add _ (Nat.two_pow_pos k)]
  by_cases hi : i < k
  · simp [hi]
  · simp only [hi, if_false]
    by_cases hzero : i - k = 0
    · rw [hzero]
      have h : (2 ^ (32 - k) - 1).testBit 0 = true := by
        rw [Nat.testBit_two_pow_sub_one, decide_eq_true_iff]
        omega
      rw [h]
      simp
    · have h : (1 : Nat).testBit (i - k) = false :=
        Nat.testBit_lt_two_pow (Nat.one_lt_two_pow hzero)
      rw [h, Bool.false_or]

/-- The word that a field of `bits` bits is extended to. -/
theorem trimExtend_word {bits : Nat} (hpos : 0 < bits) (hbits : bits ≤ 16) {w : UInt32}
    (hw : w.toNat < 2 ^ bits) :
    (w ||| -(w &&& (1 <<< UInt32.ofNat (bits - 1)))).toNat =
      if w.toNat < 2 ^ (bits - 1) then w.toNat else 2 ^ 32 - 2 ^ bits + w.toNat := by
  obtain ⟨k, rfl⟩ : ∃ k, bits = k + 1 := ⟨bits - 1, by omega⟩
  rw [Nat.add_sub_cancel]
  have hk32 : 2 ^ k < 2 ^ 32 := Nat.pow_lt_pow_right (by omega) (by omega)
  have hmask : ((1 : UInt32) <<< UInt32.ofNat k).toNat = 2 ^ k := by
    rw [UInt32.toNat_shiftLeft, Acc.toNat_shift (by omega)]
    show 1 <<< k % 2 ^ 32 = 2 ^ k
    rw [Nat.one_shiftLeft]
    exact Nat.mod_eq_of_lt hk32
  rw [UInt32.toNat_or, UInt32.toNat_neg, UInt32.toNat_and, hmask, Nat.and_two_pow]
  by_cases hlow : w.toNat < 2 ^ k
  · rw [if_pos hlow, Nat.testBit_lt_two_pow hlow]
    simp
  · have hbit : w.toNat.testBit k = true := by
      have hlt : w.toNat - 2 ^ k < 2 ^ k := by
        rw [Nat.pow_succ] at hw
        omega
      have h := Nat.testBit_two_pow_mul_add 1 hlt k
      rw [Nat.mul_one, Nat.add_sub_cancel' (Nat.le_of_not_lt hlow)] at h
      rw [h]
      simp
    rw [if_neg hlow, hbit, Bool.toNat_true, Nat.one_mul]
    have hneg : (UInt32.size - 2 ^ k) % UInt32.size = 2 ^ 32 - 2 ^ k :=
      Nat.mod_eq_of_lt (Nat.sub_lt (by decide) (Nat.two_pow_pos k))
    exact (congrArg (w.toNat ||| ·) hneg).trans (or_sign (by omega) (Nat.le_of_not_lt hlow) hw)

/-- Two's complement, without its smallest value. -/
theorem trimExtend_eq_some {bits : Nat} (hpos : 0 < bits) (hbits : bits ≤ 16) {w : UInt32}
    (hw : w.toNat < 2 ^ bits) {z : Int32} :
    trimExtend bits w = some z ↔
      w.toNat ≠ 2 ^ (bits - 1) ∧
        z.toInt = if w.toNat < 2 ^ (bits - 1) then (w.toNat : Int)
          else (w.toNat : Int) - 2 ^ bits := by
  have hword := trimExtend_word hpos hbits hw
  have htwo : 2 ^ bits = 2 * 2 ^ (bits - 1) := by
    rw [← Nat.pow_succ', Nat.succ_eq_add_one, Nat.sub_add_cancel hpos]
  have hcast : (2 : Int) ^ bits = ((2 ^ bits : Nat) : Int) := by push_cast; rfl
  have hsmall : 2 ^ bits ≤ 2 ^ 16 := Nat.pow_le_pow_right (by omega) hbits
  have hmask : (-((1 : UInt32) <<< UInt32.ofNat (bits - 1))).toNat = 2 ^ 32 - 2 ^ (bits - 1) := by
    rw [UInt32.toNat_neg, UInt32.toNat_shiftLeft, Acc.toNat_shift (by omega)]
    show (2 ^ 32 - 1 <<< (bits - 1) % 2 ^ 32) % 2 ^ 32 = _
    rw [Nat.one_shiftLeft]
    have hpow := Nat.two_pow_pos (bits - 1)
    rw [Nat.mod_eq_of_lt (a := 2 ^ (bits - 1)) (by omega), Nat.mod_eq_of_lt (by omega)]
  have hint : ∀ v : UInt32, v.toInt32.toInt = if 2 * v.toNat < 2 ^ 32 then (v.toNat : Int)
      else (v.toNat : Int) - (2 ^ 32 : Nat) := fun v => BitVec.toInt_eq_toNat_cond ..
  unfold trimExtend
  dsimp only
  generalize w ||| -(w &&& (1 <<< UInt32.ofNat (bits - 1))) = v at hword ⊢
  have hforbidden : v = -(1 <<< UInt32.ofNat (bits - 1)) ↔ w.toNat = 2 ^ (bits - 1) := by
    rw [← UInt32.toNat_inj, hmask, hword]
    split_ifs <;> omega
  have hvalue : v.toInt32.toInt = if w.toNat < 2 ^ (bits - 1) then (w.toNat : Int)
      else (w.toNat : Int) - 2 ^ bits := by
    rw [hint, hword, hcast]
    split_ifs <;> omega
  by_cases h : v = -(1 <<< UInt32.ofNat (bits - 1))
  · rw [if_pos h]
    simp [hforbidden.mp h]
  · rw [if_neg h, Option.some.injEq, ← hvalue, ← Int32.toInt_inj]
    exact ⟨fun hz => ⟨mt hforbidden.mpr h, hz.symm⟩, fun hz => hz.2.symm⟩

theorem trimWord_toNat {T : IntType α} {bits : Nat} (hbits : bits ≤ T.width) (c : α) :
    ((trimWord T bits c).toNat : Int) = T.toInt c % 2 ^ bits := by
  have hwidth := T.width_le
  have hdvd : (2 : Int) ^ bits ∣ 2 ^ T.width := pow_dvd_pow 2 hbits
  unfold trimWord
  rw [Acc.toNat_and_mask (by omega)]
  push_cast
  rw [T.toWord_toNat, Int.emod_emod_of_dvd _ hdvd]

theorem trim_read_eq_some {T : IntType α} {bits : Nat} (hpos : 0 < bits) (hbits : bits ≤ T.width)
    {w : UInt32} (hw : w.toNat < 2 ^ bits) {c : α} :
    (trimExtend bits w).map T.ofInt32 = some c ↔
      (-2 ^ (bits - 1) < T.toInt c ∧ T.toInt c < 2 ^ (bits - 1)) ∧ trimWord T bits c = w := by
  have hwidth := T.width_le
  have htwo : (2 : Int) ^ bits = 2 * 2 ^ (bits - 1) := by
    rw [← pow_succ', Nat.sub_add_cancel hpos]
  have hhalf : (2 : Int) ^ (bits - 1) ≤ 2 ^ (T.width - 1) :=
    pow_le_pow_right₀ (by omega) (by omega)
  have hcast : ((2 ^ (bits - 1) : Nat) : Int) = 2 ^ (bits - 1) := by push_cast; rfl
  have hwi : (w.toNat : Int) < 2 ^ bits := by exact_mod_cast hw
  have hword : trimWord T bits c = w ↔ T.toInt c % 2 ^ bits = w.toNat := by
    rw [← UInt32.toNat_inj, ← trimWord_toNat hbits c]
    exact Int.ofNat_inj.symm
  rw [Option.map_eq_some_iff, hword]
  constructor
  · intro ⟨z, hz, hzc⟩
    obtain ⟨hne, hzi⟩ := (trimExtend_eq_some hpos (by omega) hw).mp hz
    have hto : T.toInt c = z.toInt := by
      rw [← hzc]
      apply T.toInt_ofInt32 <;> split_ifs at hzi <;> omega
    rw [hto, hzi]
    refine ⟨by split_ifs at hzi ⊢ <;> omega, ?_⟩
    split_ifs with hlow
    · exact Int.emod_eq_of_lt (by omega) hwi
    · rw [Int.sub_emod_right]
      exact Int.emod_eq_of_lt (by omega) hwi
  · intro ⟨⟨hlo, hhi⟩, hmod⟩
    have htop : (2 : Int) ^ (T.width - 1) ≤ 2 ^ 15 := pow_le_pow_right₀ (by omega) (by omega)
    have hz : (Int32.ofInt (T.toInt c)).toInt = T.toInt c := by
      rw [Int32.toInt_ofInt]
      exact Int.bmod_eq_of_le (by rw [Int32.size]; omega) (by rw [Int32.size]; omega)
    refine ⟨Int32.ofInt (T.toInt c), (trimExtend_eq_some hpos (by omega) hw).mpr ?_, ?_⟩
    · rw [hz]
      by_cases hneg : T.toInt c < 0
      · have hval : T.toInt c % 2 ^ bits = T.toInt c + 2 ^ bits := by
          rw [← Int.add_emod_right]
          exact Int.emod_eq_of_lt (by omega) (by omega)
        refine ⟨by omega, ?_⟩
        rw [if_neg (by omega)]
        omega
      · have hval : T.toInt c % 2 ^ bits = T.toInt c :=
          Int.emod_eq_of_lt (by omega) (by omega)
        refine ⟨by omega, ?_⟩
        rw [if_pos (by omega)]
        omega
    · apply T.toInt_inj
      rw [T.toInt_ofInt32 _ (by omega) (by omega), hz]

/-- A field of `bits` bits: the values between `-2^(bits-1)` and `2^(bits-1)`. -/
def trimField (T : IntType α) (bits : Nat) (hpos : 0 < bits) (hbits : bits ≤ T.width) :
    Field bits α where
  Valid c := -2 ^ (bits - 1) < T.toInt c ∧ T.toInt c < 2 ^ (bits - 1)
  word := trimWord T bits
  read w := (trimExtend bits w).map T.ofInt32
  word_lt := by
    intro c _
    have hwidth := T.width_le
    unfold trimWord
    rw [Acc.toNat_and_mask (by omega)]
    exact Nat.mod_lt _ (Nat.two_pow_pos bits)
  read_eq_some := fun hw => trim_read_eq_some hpos hbits hw

theorem trimEncode_eq_some {T : IntType α} {maxOutLen logn bits : Nat} (hpos : 0 < bits)
    (hbits : bits ≤ T.width) {x : List α} {out : Bytes} :
    trimEncode T maxOutLen logn bits x = some out ↔
      (∀ c ∈ x, (trimField T bits hpos hbits).Valid c) ∧ fixedLen logn bits ≤ maxOutLen ∧
        Packs out (x.flatMap (trimField T bits hpos hbits).bitsOf) := by
  have hwidth := T.width_le
  have hmax : (((1 <<< (bits - 1) : Nat) : Int)) = 2 ^ (bits - 1) := by
    rw [Nat.one_shiftLeft]
    push_cast
    rfl
  have hany : x.any (fun c => T.toInt c < -(((1 <<< (bits - 1) : Nat) : Int) - 1) ||
      T.toInt c > ((1 <<< (bits - 1) : Nat) : Int) - 1) = true ↔
        ¬ ∀ c ∈ x, (trimField T bits hpos hbits).Valid c := by
    rw [hmax, List.any_eq_true]
    constructor
    · intro ⟨c, hc, hout⟩ hall
      obtain ⟨hlo, hhi⟩ : -2 ^ (bits - 1) < T.toInt c ∧ T.toInt c < 2 ^ (bits - 1) := hall c hc
      rw [Bool.or_eq_true, decide_eq_true_iff, decide_eq_true_iff] at hout
      omega
    · intro hnot
      rw [not_forall] at hnot
      obtain ⟨c, hc⟩ := hnot
      rw [Classical.not_imp] at hc
      have hval : ¬ (-2 ^ (bits - 1) < T.toInt c ∧ T.toInt c < 2 ^ (bits - 1)) := hc.2
      refine ⟨c, hc.1, ?_⟩
      rw [Bool.or_eq_true, decide_eq_true_iff, decide_eq_true_iff]
      omega
  unfold trimEncode
  dsimp only
  split_ifs with hbig hlen
  · simp [hany.mp hbig]
  · simp [show ¬ fixedLen logn bits ≤ maxOutLen by omega]
  · have hall : ∀ c ∈ x, (trimField T bits hpos hbits).Valid c := not_not.mp (mt hany.mpr hbig)
    have hpacks : Packs (encodeFields bits .empty (x.map (trimWord T bits)))
        (x.flatMap (trimField T bits hpos hbits).bitsOf) :=
      (trimField T bits hpos hbits).packs_encode (by omega) hall
    rw [Option.some.injEq]
    constructor
    · intro h
      exact ⟨hall, by omega, h ▸ hpacks⟩
    · intro ⟨_, _, h⟩
      exact hpacks.unique h

theorem length_trimEncode {T : IntType α} {maxOutLen logn bits : Nat} (hpos : 0 < bits)
    (hbits : bits ≤ T.width) {x : List α} {out : Bytes} (hlen : x.length = 2 ^ logn)
    (h : trimEncode T maxOutLen logn bits x = some out) : out.length = fixedLen logn bits := by
  obtain ⟨_, _, hpacks⟩ := (trimEncode_eq_some hpos hbits).mp h
  rw [hpacks.length, Field.length_flatMap_bitsOf, hlen]
  rfl

/-- A decoder of trimmed coefficients reads exactly the encodings, as what was encoded. -/
theorem trimDecode_iff {T : IntType α} {logn bits : Nat} (hpos : 0 < bits)
    (hbits : bits ≤ T.width) {input : Bytes} {x : List α} {inLen : Nat} :
    trimDecode T logn bits input = some (x, inLen) ↔
      x.length = 2 ^ logn ∧ inLen ≤ input.length ∧
        trimEncode T inLen logn bits x = some (input.take inLen) := by
  have hwidth := T.width_le
  unfold trimDecode
  rw [trimEncode_eq_some hpos hbits]
  split_ifs with hshort
  · constructor
    · intro h
      cases h
    · intro ⟨_, hin, _, hmax, _⟩
      omega
  · have hdecode := @decodeChecked_eq_some bits α (trimField T bits hpos hbits) hpos (by omega)
      (2 ^ logn) (Nat.two_pow_pos logn) input (by show fixedLen logn bits ≤ _; omega)
    rw [Option.map_eq_some_iff]
    constructor
    · intro ⟨y, hy, heq⟩
      rw [Prod.mk.injEq] at heq
      obtain ⟨hx, hinLen⟩ := heq
      subst hx hinLen
      obtain ⟨hlen, hvalid, hpacks⟩ := hdecode.mp hy
      exact ⟨hlen, by omega, hvalid, le_refl _, hpacks⟩
    · intro ⟨hlen, hin, hvalid, _, hpacks⟩
      have hinLen : inLen = fixedLen logn bits := by
        have h := hpacks.length
        rw [List.length_take_of_le hin, Field.length_flatMap_bitsOf, hlen] at h
        exact h
      subst hinLen
      exact ⟨x, hdecode.mpr ⟨hlen, hvalid, hpacks⟩, rfl⟩

/-- `modq_decode` reads `x` exactly from the one encoding of `x`. -/
theorem modq_roundTrip {logn : Nat} {input : Bytes} {x : List UInt16} {inLen : Nat} :
    modqDecode logn input = some (x, inLen) ↔
      x.length = 2 ^ logn ∧ Fronts (modqEncode · logn x) input inLen := by
  rw [modqDecode_iff]
  refine and_congr_right fun hx => ?_
  have hiff : ∀ n out, modqEncode n logn x = some out ↔
      (∀ c ∈ x, c < 12289) ∧ out.length ≤ n ∧ Packs out (modqBits x) := by
    intro n out
    rw [modqEncode_eq_some]
    refine and_congr_right fun _ => and_congr_left fun hpacks => ?_
    rw [hpacks.length, length_modqBits, hx, fixedLen]
  exact (fronts_iff hiff).symm

/-- So do the decoders of trimmed coefficients. -/
theorem trim_roundTrip {T : IntType α} {logn bits : Nat} (hpos : 0 < bits)
    (hbits : bits ≤ T.width) {input : Bytes} {x : List α} {inLen : Nat} :
    trimDecode T logn bits input = some (x, inLen) ↔
      x.length = 2 ^ logn ∧ Fronts (trimEncode T · logn bits x) input inLen := by
  rw [trimDecode_iff hpos hbits]
  refine and_congr_right fun hx => ?_
  have hiff : ∀ n out, trimEncode T n logn bits x = some out ↔
      (∀ c ∈ x, (trimField T bits hpos hbits).Valid c) ∧ out.length ≤ n ∧
        Packs out (x.flatMap (trimField T bits hpos hbits).bitsOf) := by
    intro n out
    rw [trimEncode_eq_some hpos hbits]
    refine and_congr_right fun _ => and_congr_left fun hpacks => ?_
    rw [hpacks.length, Field.length_flatMap_bitsOf, hx]
    rfl
  exact (fronts_iff hiff).symm

theorem trim_roundTrip_two :
    trimDecode int8 1 5 [0x0F, 0xC0] = some ([1, -1], 2) ∧
      Fronts (trimEncode int8 · 1 5 [1, -1]) [0x0F, 0xC0] 2 :=
  have h : trimDecode int8 1 5 [0x0F, 0xC0] = some ([1, -1], 2) := by decide
  ⟨h, ((trim_roundTrip (by decide) (by decide)).mp h).2⟩

end Trelyan.Falcon.Codec
