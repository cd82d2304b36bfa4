import Trelyan.Falcon.Modq

/-!
# Arithmetic modulo small primes in `keygen.c`

The functions `modp_*` work modulo a prime `p` of 31 bits.  Montgomery multiplication leaves a
factor `1 / R` for `R = 2^31`, and needs `p0i`, which is `-1 / p` modulo `R`
(`modpNinv31_spec`).  `Modulus` is all that they rely on: no proof uses that `p` is prime.

`modpMul_eq` puts the functions together as the callers do: into Montgomery form with
`modp_R2`, and back by the product.
-/

namespace Trelyan.Falcon.Keygen

/-! ## The functions -/

/-- `modp_ninv31`. -/
def modpNinv31 (p : UInt32) : UInt32 :=
  let y := 2 - p
  let y := y * (2 - p * y)
  let y := y * (2 - p * y)
  let y := y * (2 - p * y)
  let y := y * (2 - p * y)
  (0x7FFFFFFF : UInt32) &&& -y

/-- `modp_R`. -/
def modpR (p : UInt32) : UInt32 := ((1 : UInt32) <<< 31) - p

/-- `modp_add`. -/
def modpAdd (a b p : UInt32) : UInt32 :=
  let d := a + b - p
  d + (p &&& -(d >>> 31))

/-- `modp_montymul`. -/
def modpMontymul (a b p p0i : UInt32) : UInt32 :=
  let z := a.toUInt64 * b.toUInt64
  let w := ((z * p0i.toUInt64) &&& 0x7FFFFFFF) * p.toUInt64
  let d := ((z + w) >>> 31).toUInt32 - p
  d + (p &&& -(d >>> 31))

/-- `modp_R2`. -/
def modpR2 (p p0i : UInt32) : UInt32 :=
  let z := modpR p
  let z := modpAdd z z p
  let z := modpMontymul z z p p0i
  let z := modpMontymul z z p p0i
  let z := modpMontymul z z p p0i
  let z := modpMontymul z z p p0i
  let z := modpMontymul z z p p0i
  (z + (p &&& -(z &&& 1))) >>> 1

/-! ## The modulus -/

/-- An odd modulus of 31 bits, and its inverse modulo `2^31`. -/
structure Modulus (p p0i : UInt32) : Prop where
  low : 2 ^ 30 < p.toNat
  high : p.toNat < 2 ^ 31
  inverse : 2 ^ 31 ∣ p.toNat * p0i.toNat + 1

/-- One step doubles the number of bits. -/
theorem newton_step {m p y : Int} (h : m ∣ p * y - 1) : m * m ∣ p * (y * (2 - p * y)) - 1 := by
  obtain ⟨c, hc⟩ := h
  refine ⟨-(c * c), ?_⟩
  linear_combination (-(p * y) + 1 - m * c) * hc

theorem toNat_mul_modEq (a b : UInt32) :
    ((a * b).toNat : Int) ≡ a.toNat * b.toNat [ZMOD 2 ^ 32] := by
  rw [UInt32.toNat_mul, Int.natCast_mod, Nat.cast_mul]
  exact Int.mod_modEq _ _

theorem toNat_sub_modEq (a b : UInt32) :
    ((a - b).toNat : Int) ≡ a.toNat - b.toNat [ZMOD 2 ^ 32] := by
  have hlt := b.toNat_lt
  rw [UInt32.toNat_sub, Int.ModEq]
  omega

/-- The words compute modulo `2^32`. -/
theorem newton_word {k : Nat} (hk : 2 * k ≤ 32) {p y : UInt32}
    (h : (2 : Int) ^ k ∣ p.toNat * y.toNat - 1) :
    (2 : Int) ^ (2 * k) ∣ p.toNat * (y * (2 - p * y)).toNat - 1 := by
  have hsq := newton_step h
  rw [← pow_add, ← two_mul] at hsq
  have hword : ((y * (2 - p * y)).toNat : Int) ≡
      y.toNat * (2 - p.toNat * y.toNat) [ZMOD 2 ^ 32] :=
    (toNat_mul_modEq _ _).trans (((toNat_sub_modEq _ _).trans
      ((toNat_mul_modEq p y).sub_left _)).mul_left _)
  have hsmall := ((hword.of_dvd (pow_dvd_pow 2 hk)).mul_left p.toNat).sub_right 1
  exact (Int.ModEq.dvd_iff hsmall).mpr hsq

/-- `modp_ninv31` computes `-1 / p` for any odd `p`. -/
theorem modpNinv31_spec {p : UInt32} (hodd : p.toNat % 2 = 1) :
    2 ^ 31 ∣ p.toNat * (modpNinv31 p).toNat + 1 := by
  -- `2 - p` is the inverse modulo 4
  have h0 : (2 : Int) ^ 2 ∣ p.toNat * (2 - p).toNat - 1 := by
    obtain ⟨c, hc⟩ : ∃ c : Int, (p.toNat : Int) = 2 * c + 1 := ⟨p.toNat / 2, by omega⟩
    have hsub := ((toNat_sub_modEq 2 p).of_dvd (show (2 : Int) ^ 2 ∣ 2 ^ 32 by decide)).mul_left
      (p.toNat : Int) |>.sub_right 1
    refine (Int.ModEq.dvd_iff hsub).mpr ⟨-(c * c), ?_⟩
    rw [hc, show ((2 : UInt32).toNat : Int) = 2 from rfl]
    ring
  unfold modpNinv31
  have hstep := newton_word (k := 16) (by omega) (newton_word (k := 8) (by omega)
    (newton_word (k := 4) (by omega) (newton_word (k := 2) (by omega) h0)))
  dsimp only
  generalize (_ * (2 - p * _) : UInt32) = y at hstep ⊢
  have hmask : ((0x7FFFFFFF : UInt32) &&& -y).toNat = (0 - y).toNat % 2 ^ 31 := by
    rw [UInt32.zero_sub, UInt32.and_comm, UInt32.toNat_and]
    exact Nat.and_two_pow_sub_one_eq_mod _ 31
  have hneg := ((toNat_sub_modEq 0 y).of_dvd (show (2 : Int) ^ 31 ∣ 2 ^ 32 by decide))
  have hlow : (((0 - y).toNat % 2 ^ 31 : Nat) : Int) ≡ (0 - y).toNat [ZMOD 2 ^ 31] := by
    rw [Int.natCast_mod]
    exact Int.mod_modEq _ _
  have hall := ((hlow.trans hneg).mul_left (p.toNat : Int)).add_right 1
  rw [hmask]
  have hint : (2 : Int) ^ 31 ∣ p.toNat * ((0 - y).toNat % 2 ^ 31 : Nat) + 1 := by
    refine (Int.ModEq.dvd_iff hall).mpr ?_
    obtain ⟨c, hc⟩ := hstep
    refine ⟨-(2 * c), ?_⟩
    rw [show ((0 : UInt32).toNat : Int) = 0 from rfl]
    linear_combination -hc
  exact_mod_cast hint

/-! ## Residues -/

/-- The residue of a word. -/
def zp (p w : UInt32) : ZMod p.toNat := w.toNat

/-- `R`, modulo `p`. -/
def montR (p : UInt32) : ZMod p.toNat := (2 ^ 31 : Nat)

theorem montR_eq (p : UInt32) : montR p = 2 ^ 31 := by
  unfold montR
  rw [Nat.cast_pow, Nat.cast_ofNat]

section

variable {p p0i : UInt32} (hp : Modulus p p0i)
include hp

theorem Modulus.odd : p.toNat % 2 = 1 := by
  obtain ⟨c, hc⟩ := hp.inverse
  by_contra heven
  obtain ⟨d, hd⟩ : ∃ d, p.toNat = 2 * d := ⟨p.toNat / 2, by omega⟩
  rw [hd, Nat.mul_assoc] at hc
  omega

/-- The inverse of `2`. -/
theorem Modulus.two_inv : (2 : ZMod p.toNat) * ((p.toNat + 1) / 2 : Nat) = 1 := by
  have hodd := hp.odd
  have hcast : ((2 * ((p.toNat + 1) / 2) : Nat) : ZMod p.toNat) = ((p.toNat + 1 : Nat)) := by
    rw [show 2 * ((p.toNat + 1) / 2) = p.toNat + 1 by omega]
  rw [Nat.cast_mul, Nat.cast_add, ZMod.natCast_self, zero_add, Nat.cast_one] at hcast
  exact hcast

theorem Modulus.two_pow_cancel (n : Nat) {a b : ZMod p.toNat} (h : 2 ^ n * a = 2 ^ n * b) :
    a = b := by
  have hinv : (2 : ZMod p.toNat) ^ n * (((p.toNat + 1) / 2 : Nat) : ZMod p.toNat) ^ n = 1 := by
    rw [← mul_pow, hp.two_inv, one_pow]
  have hmul := congrArg ((((p.toNat + 1) / 2 : Nat) : ZMod p.toNat) ^ n * ·) h
  rwa [← mul_assoc, ← mul_assoc, mul_comm (_ ^ n) (2 ^ n), hinv, one_mul, one_mul] at hmul

theorem Modulus.montR_cancel {a b : ZMod p.toNat} (h : a * montR p = b * montR p) : a = b := by
  rw [montR_eq, mul_comm, mul_comm b] at h
  exact hp.two_pow_cancel 31 h

omit hp in
theorem cast_eq_of_mod {m n : Nat} (h : m % p.toNat = n % p.toNat) : (m : ZMod p.toNat) = n :=
  (ZMod.natCast_eq_natCast_iff' m n p.toNat).mpr h

omit hp in
/-- `d += p & -(d >> 31)`. -/
theorem addMask_toNat (p d : UInt32) :
    (d + (p &&& -(d >>> 31))).toNat =
      if d.toNat < 2 ^ 31 then d.toNat else (d.toNat + p.toNat) % 2 ^ 32 := by
  rw [Bits.shift_31]
  by_cases hlow : d.toNat < 2 ^ 31
  · rw [if_neg (by omega), if_pos hlow]
    simp
  · rw [if_pos (by omega), if_neg hlow, UInt32.toNat_add]
    rw [UInt32.and_neg_one]

theorem modpAdd_spec {a b : UInt32} (ha : a.toNat < p.toNat) (hb : b.toNat < p.toNat) :
    (modpAdd a b p).toNat < p.toNat ∧ zp p (modpAdd a b p) = zp p a + zp p b := by
  have hhigh := hp.high
  have h : (modpAdd a b p).toNat = if a.toNat + b.toNat < p.toNat then a.toNat + b.toNat
      else a.toNat + b.toNat - p.toNat := by
    unfold modpAdd
    dsimp only
    rw [addMask_toNat, UInt32.toNat_sub, UInt32.toNat_add]
    split_ifs <;> omega
  refine ⟨by split_ifs at h <;> omega, ?_⟩
  unfold zp
  rw [← Nat.cast_add]
  apply cast_eq_of_mod
  split_ifs at h with hlt
  · rw [h]
  · rw [h, ← Nat.mod_eq_sub_mod (by omega)]

theorem modpMontymul_toNat {a b : UInt32} (ha : a.toNat < p.toNat) (hb : b.toNat < p.toNat) :
    (modpMontymul a b p p0i).toNat =
      if Montgomery.redc (2 ^ 31) p.toNat p0i.toNat (a.toNat * b.toNat) < p.toNat then
        Montgomery.redc (2 ^ 31) p.toNat p0i.toNat (a.toNat * b.toNat)
      else Montgomery.redc (2 ^ 31) p.toNat p0i.toNat (a.toNat * b.toNat) - p.toNat := by
  have hhigh := hp.high
  have hprod : a.toNat * b.toNat < 2 ^ 31 * p.toNat :=
    Nat.mul_lt_mul_of_lt_of_le (by omega) (by omega) (by omega)
  have hlt := Montgomery.redc_lt (R := 2 ^ 31) (q := p.toNat) (w := p0i.toNat)
    (Nat.two_pow_pos 31) hprod
  have hz : (a.toUInt64 * b.toUInt64).toNat = a.toNat * b.toNat := by
    rw [UInt64.toNat_mul, UInt32.toNat_toUInt64, UInt32.toNat_toUInt64]
    exact Nat.mod_eq_of_lt (by omega)
  have hlow : ((a.toUInt64 * b.toUInt64 * p0i.toUInt64) &&& 0x7FFFFFFF).toNat =
      a.toNat * b.toNat * p0i.toNat % 2 ^ 31 := by
    rw [UInt64.toNat_and, UInt64.toNat_mul, hz, UInt32.toNat_toUInt64]
    show a.toNat * b.toNat * p0i.toNat % 2 ^ 64 &&& 2 ^ 31 - 1 = _
    rw [Nat.and_two_pow_sub_one_eq_mod]
    exact Nat.mod_mod_of_dvd _ (pow_dvd_pow 2 (by omega))
  have hm : a.toNat * b.toNat * p0i.toNat % 2 ^ 31 * p.toNat ≤ (2 ^ 31 - 1) * p.toNat :=
    Nat.mul_le_mul_right _ (by omega)
  have hw : (((a.toUInt64 * b.toUInt64 * p0i.toUInt64) &&& 0x7FFFFFFF) * p.toUInt64).toNat =
      a.toNat * b.toNat * p0i.toNat % 2 ^ 31 * p.toNat := by
    rw [UInt64.toNat_mul, hlow, UInt32.toNat_toUInt64]
    exact Nat.mod_eq_of_lt (by omega)
  have hsum : ((a.toUInt64 * b.toUInt64 + ((a.toUInt64 * b.toUInt64 * p0i.toUInt64) &&&
      0x7FFFFFFF) * p.toUInt64) >>> 31).toUInt32.toNat =
        Montgomery.redc (2 ^ 31) p.toNat p0i.toNat (a.toNat * b.toNat) := by
    rw [UInt64.toNat_toUInt32, UInt64.toNat_shiftRight, UInt64.toNat_add, hz, hw]
    have hfit : a.toNat * b.toNat + a.toNat * b.toNat * p0i.toNat % 2 ^ 31 * p.toNat < 2 ^ 64 := by
      omega
    show ((_ + _) % 2 ^ 64) >>> 31 % 2 ^ 32 = _
    rw [Nat.mod_eq_of_lt hfit, Nat.shiftRight_eq_div_pow]
    exact Nat.mod_eq_of_lt (by
      show Montgomery.redc (2 ^ 31) p.toNat p0i.toNat (a.toNat * b.toNat) < 2 ^ 32
      omega)
  unfold modpMontymul
  dsimp only
  generalize Montgomery.redc (2 ^ 31) p.toNat p0i.toNat (a.toNat * b.toNat) = r at hlt hsum
  rw [addMask_toNat, UInt32.toNat_sub, hsum]
  split_ifs <;> omega

theorem modpMontymul_spec {a b : UInt32} (ha : a.toNat < p.toNat) (hb : b.toNat < p.toNat) :
    (modpMontymul a b p p0i).toNat < p.toNat ∧
      zp p (modpMontymul a b p p0i) * montR p = zp p a * zp p b := by
  have hhigh := hp.high
  have hprod : a.toNat * b.toNat < 2 ^ 31 * p.toNat :=
    Nat.mul_lt_mul_of_lt_of_le (by omega) (by omega) (by omega)
  have hlt := Montgomery.redc_lt (R := 2 ^ 31) (q := p.toNat) (w := p0i.toNat)
    (Nat.two_pow_pos 31) hprod
  have hcast := Montgomery.redc_cast hp.inverse (a.toNat * b.toNat)
  have hval := modpMontymul_toNat hp ha hb
  generalize Montgomery.redc (2 ^ 31) p.toNat p0i.toNat (a.toNat * b.toNat) = r at hlt hcast hval
  have hsmall : (modpMontymul a b p p0i).toNat < p.toNat := by
    split_ifs at hval <;> omega
  have hmod : (modpMontymul a b p p0i).toNat % p.toNat = r % p.toNat := by
    split_ifs at hval with h
    · rw [hval]
    · rw [hval, ← Nat.mod_eq_sub_mod (by omega)]
  refine ⟨hsmall, ?_⟩
  unfold zp montR
  rw [cast_eq_of_mod hmod, ← Nat.cast_mul]
  exact_mod_cast hcast

theorem modpR_spec : (modpR p).toNat < p.toNat ∧ zp p (modpR p) = montR p := by
  have hlow := hp.low
  have hhigh := hp.high
  have h : (modpR p).toNat = 2 ^ 31 - p.toNat := by
    unfold modpR
    rw [UInt32.toNat_sub, show ((1 : UInt32) <<< 31).toNat = 2 ^ 31 from rfl]
    omega
  refine ⟨by omega, ?_⟩
  unfold zp montR
  rw [h, Nat.cast_sub hhigh.le, ZMod.natCast_self, sub_zero]

/-- `(z + (p & -(z & 1))) >> 1` halves modulo `p`. -/
theorem halve_spec {z : UInt32} (hz : z.toNat < p.toNat) :
    ((z + (p &&& -(z &&& 1))) >>> 1).toNat < p.toNat ∧
      2 * zp p ((z + (p &&& -(z &&& 1))) >>> 1) = zp p z := by
  have hodd := hp.odd
  have hhigh := hp.high
  have hbit : (z &&& 1).toNat = z.toNat % 2 := by
    rw [UInt32.toNat_and]
    exact Nat.and_two_pow_sub_one_eq_mod _ 1
  have h : 2 * ((z + (p &&& -(z &&& 1))) >>> 1).toNat = z.toNat + z.toNat % 2 * p.toNat := by
    rw [UInt32.toNat_shiftRight]
    show 2 * ((z + (p &&& -(z &&& 1))).toNat >>> 1) = _
    rw [Nat.shiftRight_eq_div_pow]
    rcases Nat.mod_two_eq_zero_or_one z.toNat with heven | hone
    · have hzero : z &&& 1 = 0 := UInt32.toNat_inj.mp (hbit.trans heven)
      rw [hzero, UInt32.neg_zero, UInt32.and_zero, UInt32.add_zero, heven]
      omega
    · have hset : z &&& 1 = 1 := UInt32.toNat_inj.mp (hbit.trans hone)
      rw [hset, UInt32.and_neg_one, UInt32.toNat_add, hone]
      omega
  refine ⟨?_, ?_⟩
  · rcases Nat.mod_two_eq_zero_or_one z.toNat with heven | hone
    · rw [heven] at h
      omega
    · rw [hone] at h
      omega
  · unfold zp
    have hcast := congrArg (Nat.cast (R := ZMod p.toNat)) h
    rw [Nat.cast_mul, Nat.cast_add, Nat.cast_mul, ZMod.natCast_self, mul_zero, add_zero] at hcast
    exact hcast

/-- After `k` squarings of `2 R`. -/
theorem squarings_spec (k : Nat) {z : UInt32} (hz : z.toNat < p.toNat)
    (hval : zp p z = 2 * montR p) :
    ((List.range k).foldl (fun z _ => modpMontymul z z p p0i) z).toNat < p.toNat ∧
      zp p ((List.range k).foldl (fun z _ => modpMontymul z z p p0i) z) =
        2 ^ 2 ^ k * montR p := by
  induction k with
  | zero =>
    rw [pow_zero, pow_one]
    exact ⟨hz, hval⟩
  | succ k ih =>
    rw [List.range_succ, List.foldl_append]
    obtain ⟨hlt, hmul⟩ := modpMontymul_spec hp ih.1 ih.1
    refine ⟨hlt, hp.montR_cancel (hmul.trans ?_)⟩
    rw [ih.2, pow_succ 2 k, pow_mul]
    ring

/-- `modp_R2` computes `R^2`: five squarings of `2 R` give `2^32 R`. -/
theorem modpR2_spec :
    (modpR2 p p0i).toNat < p.toNat ∧ zp p (modpR2 p p0i) = montR p * montR p := by
  obtain ⟨hR, hRval⟩ := modpR_spec hp
  obtain ⟨hdouble, hdoubleVal⟩ := modpAdd_spec hp hR hR
  obtain ⟨hlt, hval⟩ := squarings_spec hp 5 hdouble (by rw [hdoubleVal, hRval, two_mul])
  obtain ⟨hsmall, hhalf⟩ := halve_spec hp hlt
  refine ⟨hsmall, hp.two_pow_cancel 1 ?_⟩
  rw [pow_one]
  refine hhalf.trans (hval.trans ?_)
  rw [montR_eq]
  ring

end

/-- Multiplying modulo `p`: `modp_montymul` by `R^2` brings one factor into Montgomery form, and
the product takes it out again. -/
theorem modpMul_eq {p a b : UInt32} (hlow : 2 ^ 30 < p.toNat) (hhigh : p.toNat < 2 ^ 31)
    (hodd : p.toNat % 2 = 1) (ha : a.toNat < p.toNat) (hb : b.toNat < p.toNat) :
    (modpMontymul (modpMontymul a (modpR2 p (modpNinv31 p)) p (modpNinv31 p)) b p
      (modpNinv31 p)).toNat = a.toNat * b.toNat % p.toNat := by
  have hp : Modulus p (modpNinv31 p) := ⟨hlow, hhigh, modpNinv31_spec hodd⟩
  obtain ⟨hR2, hR2val⟩ := modpR2_spec hp
  obtain ⟨hform, hformVal⟩ := modpMontymul_spec hp ha hR2
  obtain ⟨hlt, hval⟩ := modpMontymul_spec hp hform hb
  rw [hR2val, ← mul_assoc] at hformVal
  rw [hp.montR_cancel hformVal] at hval
  have heq : zp p (modpMontymul (modpMontymul a (modpR2 p (modpNinv31 p)) p (modpNinv31 p)) b p
      (modpNinv31 p)) = zp p a * zp p b := by
    refine hp.montR_cancel (hval.trans ?_)
    ring
  unfold zp at heq
  rw [← Nat.cast_mul] at heq
  have hmod := (ZMod.natCast_eq_natCast_iff' _ _ p.toNat).mp heq
  rwa [Nat.mod_eq_of_lt hlt] at hmod

theorem modpMul_small :
    (modpMontymul (modpMontymul 2147473408 (modpR2 2147473409 (modpNinv31 2147473409)) 2147473409
      (modpNinv31 2147473409)) 2147473407 2147473409 (modpNinv31 2147473409)).toNat = 2 :=
  modpMul_eq (by decide) (by decide) (by decide) (by decide) (by decide)

end Trelyan.Falcon.Keygen
