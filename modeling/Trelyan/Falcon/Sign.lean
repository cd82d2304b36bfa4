import Trelyan.Falcon.PrivateKey
import Trelyan.Falcon.Sizes

/-!
# Signing

`falcon_sign_dyn_finish` and what it does with a lattice point.  The point itself comes from
floating-point code: the model is over any attempts (`Attempt`), each of which leaves two
arrays of rounded values.  From there on everything is integer arithmetic: the norm test of
`do_sign_dyn`, the loop of `sign_dyn` until an attempt is short, and the loop over the padded
format until the encoding fits.

A point of the lattice of the key gives a solution of the verifier's equation
(`OnLattice.equation`), so what is signed is accepted under the public key of the pair, in
each format (`falconSign_verifies`).
-/

namespace Trelyan.Falcon.Sign

open Finset
open Trelyan.Falcon.Core (errSize)
open Verify (Xof errBadarg sigCompressed sigPadded sigCt sigPaddedSize sigCtSize maxSigBits
  hashToPoint)
open Vrfy (Zq isShortHalf ints modQ ringMul residues coeff hat l2bound)

/-! ## The functions -/

/-- What an attempt leaves in the arrays `t0` and `t1` of `n` entries, after `fpr_rint`. -/
structure Attempt (n : Nat) where
  t0 : List Int64
  t1 : List Int64
  length_t0 : t0.length = n
  length_t1 : t1.length = n

/-- `z = (int32_t)hm[u] - (int32_t)fpr_rint(t0[u]); sqn += (uint32_t)(z * z); ng |= sqn;`. -/
def firstStep (t : UInt32 × UInt32) (p : UInt16 × Int64) : UInt32 × UInt32 :=
  let z := p.1.toUInt32.toInt32 - p.2.toInt32
  let sqn := t.1 + (z * z).toUInt32
  (sqn, t.2 ||| sqn)

/-- The loop over the first half, and `sqn |= -(ng >> 31)`. -/
def firstNorm (hm : List UInt16) (t0 : List Int64) : UInt32 :=
  let t := (hm.zip t0).foldl firstStep (0, 0)
  t.1 ||| -(t.2 >>> 31)

/-- `do_sign_dyn`, from the rounded lattice point on. -/
def doSignDyn (logn : Nat) (hm : List UInt16) (a : Attempt hm.length) : Option (List Int16) :=
  let s2tmp := a.t1.map fun t => (-t).toInt16
  if isShortHalf logn (firstNorm hm a.t0) s2tmp then some s2tmp else none

/-- `Zf(sign_dyn)`: the value, and the number of the next attempt. -/
def signDyn (logn : Nat) (hm : List UInt16) (attempts : Nat → Attempt hm.length) :
    Nat → Nat → Option (List Int16 × Nat)
  | 0, _ => none
  | fuel + 1, k =>
    match doSignDyn logn hm (attempts k) with
    | some sv => some (sv, k + 1)
    | none => signDyn logn hm attempts fuel (k + 1)

/-- `FALCON_TMPSIZE_SIGNDYN(logn)`. -/
def tmpsizeSigndyn (logn : Nat) : Nat := 78 * 2 ^ logn + 7

/-- The first `switch (sig_type)`. -/
def checkSigLen (sigType : Int) (logn sigLen : Nat) : Except Int Unit :=
  if sigType = sigCompressed then .ok ()
  else if sigType = sigPadded then
    if sigLen < sigPaddedSize logn then .error errSize else .ok ()
  else if sigType = sigCt then
    if sigLen < sigCtSize logn then .error errSize else .ok ()
  else .error errBadarg

/-- The second `switch (sig_type)`: the signature, or `none` for `continue`. -/
def encodeSig (sigType : Int) (logn sigLen : Nat) (nonce : Bytes) (sv : List Int16) :
    Option (Except Int Bytes) :=
  if sigType = sigPadded then
    let tu := sigPaddedSize logn
    (Codec.compEncode (tu - 41) sv).map fun out =>
      .ok (UInt8.ofNat (0x30 + logn) :: nonce ++ (out ++ List.replicate (tu - (41 + out.length)) 0))
  else if sigType = sigCt then
    match Codec.trimI16Encode (sigLen - 41) logn (maxSigBits.getD logn 0) sv with
    | none => some (.error errSize)
    | some out => some (.ok (UInt8.ofNat (0x50 + logn) :: nonce ++ out))
  else
    match Codec.compEncode (sigLen - 41) sv with
    | none => some (.error errSize)
    | some out => some (.ok (UInt8.ofNat (0x30 + logn) :: nonce ++ out))

/-- "Compute and encode signature": the loop of `falcon_sign_dyn_finish`. -/
def signLoop (s : Nat → UInt8) (attempts : (hm : List UInt16) → Nat → Attempt hm.length)
    (sigType : Int) (logn sigLen : Nat) (nonce : Bytes) : Nat → Nat → Option (Except Int Bytes)
  | 0, _ => none
  | fuel + 1, k =>
    (hashToPoint fuel (sigType = sigCt) logn s).bind fun hm =>
      (signDyn logn hm (attempts hm) fuel k).bind fun t =>
        match encodeSig sigType logn sigLen nonce t.1 with
        | some r => some r
        | none => signLoop s attempts sigType logn sigLen nonce fuel t.2

/-- The attempts, for the bytes that the generator has absorbed, the completed key and the
hashed message. -/
abbrev Sampler :=
  Bytes → List Int8 × List Int8 × List Int8 × List Int8 → (hm : List UInt16) → Nat →
    Attempt hm.length

/-- `falcon_sign_dyn_finish`; `rng` and `hashData` are what the two contexts have absorbed. -/
def falconSignDynFinish (xof : Xof) (sampler : Sampler) (fuel : Nat) (rng : Bytes) (sigLen : Nat)
    (sigType : Int) (privkey hashData nonce : Bytes) (tmpLen : Nat) :
    Option (Except Int Bytes) :=
  match PrivateKey.privkeyDegree privkey with
  | .error r => some (.error r)
  | .ok logn =>
    if tmpLen < tmpsizeSigndyn logn then some (.error errSize)
    else if sigLen < 41 then some (.error errSize)
    else
      match checkSigLen sigType logn sigLen with
      | .error r => some (.error r)
      | .ok () =>
        match PrivateKey.completeElements logn privkey with
        | .error r => some (.error r)
        | .ok key => signLoop (xof hashData) (sampler rng key) sigType logn sigLen nonce fuel 0

/-! ## The norm test -/

/-- The integers of an array. -/
def longs (t : List Int64) (k : Nat) : Int := (t.getD k 0).toInt

/-- The entries of `s1`. -/
def first (hm : List UInt16) (t0 : List Int64) (k : Nat) : Int := (hm.getD k 0).toNat - longs t0 k

/-- The values that the integer arithmetic of an attempt can hold: `z * z` does not overflow,
and `-t1` has 16 bits. -/
structure InRange (n : Nat) (hm : List UInt16) (a : Attempt hm.length) : Prop where
  length_hm : hm.length = n
  square : ∀ k < n, (first hm a.t0 k).natAbs ≤ 46340
  narrow : ∀ k < n, -32768 ≤ -longs a.t1 k ∧ -longs a.t1 k ≤ 32767

/-- The square of an entry, in 32 bits. -/
theorem first_toNat {w : UInt16} {t : Int64} (h : ((w.toNat : Int) - t.toInt).natAbs ≤ 46340) :
    (((w.toUInt32.toInt32 - t.toInt32) * (w.toUInt32.toInt32 - t.toInt32)).toUInt32.toNat : Int) =
      ((w.toNat : Int) - t.toInt) ^ 2 ∧ ((w.toNat : Int) - t.toInt) ^ 2 < 2 ^ 31 := by
  have hw := w.toNat_lt
  have hword : w.toUInt32.toInt32.toInt = w.toNat := by
    have hcond : w.toUInt32.toInt32.toInt = if 2 * w.toUInt32.toNat < 2 ^ 32 then
        (w.toUInt32.toNat : Int) else (w.toUInt32.toNat : Int) - (2 ^ 32 : Nat) :=
      BitVec.toInt_eq_toNat_cond ..
    rw [hcond, UInt16.toNat_toUInt32, if_pos (by omega)]
  have hdiff : (w.toUInt32.toInt32 - t.toInt32).toInt = (w.toNat : Int) - t.toInt := by
    rw [Int32.toInt_sub, hword, Int64.toInt_toInt32, Int.sub_bmod_bmod]
    exact Int.bmod_eq_of_le (by omega) (by omega)
  have hlt : ((w.toNat : Int) - t.toInt) ^ 2 < 2 ^ 31 := by
    rw [← Int.natAbs_sq]
    exact_mod_cast lt_of_le_of_lt (Nat.pow_le_pow_left h 2) (by omega : 46340 ^ 2 < 2 ^ 31)
  refine ⟨?_, hlt⟩
  rw [← hdiff] at hlt ⊢
  exact Vrfy.mul_self_toNat hlt

theorem firstNorm_spec {n : Nat} {hm : List UInt16} {t0 : List Int64} (hhm : hm.length = n)
    (ht0 : t0.length = n) (hrange : ∀ k < n, (first hm t0 k).natAbs ≤ 46340) :
    Vrfy.NormInv ((hm.zip t0).foldl firstStep (0, 0)) (∑ k ∈ range n, first hm t0 k ^ 2) := by
  have hloop : ∀ (hm : List UInt16) (t0 : List Int64) (t : UInt32 × UInt32) (sum : Int),
      hm.length = t0.length → (∀ k < hm.length, (first hm t0 k).natAbs ≤ 46340) →
      Vrfy.NormInv t sum → 0 ≤ sum →
      Vrfy.NormInv ((hm.zip t0).foldl firstStep t)
        (sum + ∑ k ∈ range hm.length, first hm t0 k ^ 2) := by
    intro hm
    induction hm with
    | nil =>
      intro t0 t sum _ _ h _
      simpa using h
    | cons w hm ih =>
      intro t0 t sum hlen hrange h hsum
      cases t0 with
      | nil => simp at hlen
      | cons v t0 =>
        obtain ⟨hsq, hlt⟩ := first_toNat (w := w) (t := v) (hrange 0 (Nat.succ_pos _))
        have hnonneg := sq_nonneg ((w.toNat : Int) - v.toInt)
        have hstep := h.add hsum (w := ((w.toUInt32.toInt32 - v.toInt32) *
          (w.toUInt32.toInt32 - v.toInt32)).toUInt32) (by omega)
        have hrest := ih t0 _ _ (by simpa using hlen) (fun k hk => hrange (k + 1) (by
          rw [List.length_cons]
          omega)) hstep (by omega)
        rw [hsq] at hrest
        rw [List.zip_cons_cons, List.foldl_cons, List.length_cons, sum_range_succ',
          add_comm (∑ _ ∈ _, _), ← add_assoc]
        exact hrest
  have hstart : Vrfy.NormInv (0, 0) 0 :=
    ⟨fun _ => ⟨rfl, by decide⟩, fun h => absurd h (by decide)⟩
  have h := hloop hm t0 (0, 0) 0 (hhm.trans ht0.symm) (by rwa [hhm]) hstart (le_refl _)
  rwa [zero_add, hhm] at h

/-- The value of an attempt that is taken is short, whatever the integer arithmetic made of the
first half. -/
theorem doSignDyn_short {logn : Nat} {hm : List UInt16} {a : Attempt hm.length} {sv : List Int16}
    (h : doSignDyn logn hm a = some sv) :
    sv.length = hm.length ∧
      ∑ k ∈ range hm.length, ints sv k ^ 2 ≤ (l2bound.getD logn 0).toNat := by
  unfold doSignDyn at h
  dsimp only at h
  split_ifs at h with hshort
  have hlen : (a.t1.map fun t => (-t).toInt16).length = hm.length := by
    rw [List.length_map, a.length_t1]
  rw [Vrfy.isShortHalf_iff, Vrfy.sqNorm_eq_sum, hlen] at hshort
  rw [← Option.some.inj h]
  exact ⟨hlen, by omega⟩

/-- An attempt is taken if the exact norm is within the bound. -/
theorem doSignDyn_iff {logn : Nat} {hm : List UInt16} {a : Attempt hm.length}
    (hrange : InRange (2 ^ logn) hm a) {sv : List Int16} :
    doSignDyn logn hm a = some sv ↔
      sv.length = 2 ^ logn ∧ (∀ k < 2 ^ logn, ints sv k = -longs a.t1 k) ∧
        ∑ k ∈ range (2 ^ logn), first hm a.t0 k ^ 2 + ∑ k ∈ range (2 ^ logn), ints sv k ^ 2 ≤
          (l2bound.getD logn 0).toNat := by
  obtain ⟨hhm, hsquare, hnarrow⟩ := hrange
  have ht0 := a.length_t0.trans hhm
  have ht1 := a.length_t1.trans hhm
  have hbound := Vrfy.l2bound_lt logn
  obtain ⟨hexact, hover⟩ := (firstNorm_spec hhm ht0 hsquare).saturated
  have hlen : (a.t1.map fun t => (-t).toInt16).length = 2 ^ logn := by rw [List.length_map, ht1]
  have hentry : ∀ k < 2 ^ logn, ints (a.t1.map fun t => (-t).toInt16) k = -longs a.t1 k := by
    intro k hk
    have hkt : k < a.t1.length := by rw [ht1]; exact hk
    obtain ⟨hlo, hhi⟩ := hnarrow k hk
    rw [longs, List.getD_eq_getElem _ _ hkt] at hlo hhi ⊢
    rw [ints, List.getD_eq_getElem _ _ (by rwa [List.length_map]), List.getElem_map,
      Int64.toInt_toInt16, Int64.toInt_neg]
    have hwide : Int.bmod (-a.t1[k].toInt) (2 ^ 64) = -a.t1[k].toInt :=
      Int.bmod_eq_of_le (by omega) (by omega)
    rw [hwide]
    exact Int.bmod_eq_of_le (by omega) (by omega)
  have htest := @Vrfy.isShortHalf_iff logn (firstNorm hm a.t0) (a.t1.map fun t => (-t).toInt16)
  rw [Vrfy.sqNorm_eq_sum, hlen] at htest
  have hnonneg : 0 ≤ ∑ k ∈ range (2 ^ logn), ints (a.t1.map fun t => (-t).toInt16) k ^ 2 :=
    sum_nonneg fun k _ => sq_nonneg _
  have hsum : ((firstNorm hm a.t0).toNat : Int) +
      ∑ k ∈ range (2 ^ logn), ints (a.t1.map fun t => (-t).toInt16) k ^ 2 ≤
        (l2bound.getD logn 0).toNat ↔
      ∑ k ∈ range (2 ^ logn), first hm a.t0 k ^ 2 +
        ∑ k ∈ range (2 ^ logn), ints (a.t1.map fun t => (-t).toInt16) k ^ 2 ≤
          (l2bound.getD logn 0).toNat := by
    unfold firstNorm
    dsimp only
    by_cases hsmall : ∑ k ∈ range (2 ^ logn), first hm a.t0 k ^ 2 < 2 ^ 31
    · rw [hexact hsmall]
    · have hmax := hover (by omega)
      omega
  rw [hsum] at htest
  unfold doSignDyn
  dsimp only
  constructor
  · intro h
    split_ifs at h with hshort
    rw [← Option.some.inj h]
    exact ⟨hlen, hentry, htest.mp hshort⟩
  · rintro ⟨hsv, hval, hle⟩
    have hsame : a.t1.map (fun t => (-t).toInt16) = sv := by
      apply List.ext_getElem (hlen.trans hsv.symm)
      intro k hk hk'
      have hkn : k < 2 ^ logn := by rw [← hsv]; exact hk'
      have heq := (hentry k hkn).trans (hval k hkn).symm
      rw [ints, ints, List.getD_eq_getElem _ _ hk, List.getD_eq_getElem _ _ hk'] at heq
      exact Int16.toInt_inj.mp heq
    rw [hsame] at htest ⊢
    rw [if_pos (htest.mpr hle)]

/-! ## The lattice -/

/-- The integers of an array of bytes. -/
def bytesInt (s : List Int8) (k : Nat) : Int := (s.getD k 0).toInt

/-- The attempt leaves a point of the lattice with the basis `[[g, -f], [G, -F]]`. -/
def OnLattice (n : Nat) (f g F G : List Int8) {m : Nat} (a : Attempt m) : Prop :=
  ∃ z0 z1 : Nat → Int, ∀ k < n,
    longs a.t0 k = Ntt.mulMod n z0 (bytesInt g) k + Ntt.mulMod n z1 (bytesInt G) k ∧
      longs a.t1 k = -(Ntt.mulMod n z0 (bytesInt f) k + Ntt.mulMod n z1 (bytesInt F) k)

section Lattice

variable {logn m : Nat} {f g F G : List Int8}

theorem hat_linear (hlogn : logn ≤ 10) (c c' : Zq) {u v : Nat → Zq} {p : Nat}
    (hp : p < 2 ^ logn) :
    hat logn (fun i => c * u i + c' * v i) p = c * hat logn u p + c' * hat logn v p :=
  Ntt.forwardFn_linear (Vrfy.gm_roots_pow hlogn) c c' hp

/-- Multiplying over the integers, and then modulo `q`. -/
theorem cast_mulMod {u v : Nat → Int} (k : Nat) :
    ((Ntt.mulMod (2 ^ logn) u v k : Int) : Zq) = ringMul logn (modQ u) (modQ v) k :=
  Ntt.map_mulMod (Int.castRingHom Zq) (Nat.two_pow_pos logn).ne' k

/-- A lattice point `(t0, t1)` solves `t0 + t1 h = 0`. -/
theorem OnLattice.equation {a : Attempt m} (hlogn : logn ≤ 10)
    (hlat : OnLattice (2 ^ logn) f g F G a) {h : List UInt16} {pk : Bytes}
    (hpublic : PrivateKey.PublicOf logn f g pk h) (hG : PrivateKey.Completes logn f g F G) :
    ∀ k < 2 ^ logn, modQ (longs a.t0) k + ringMul logn (modQ (longs a.t1)) (coeff h) k = 0 := by
  obtain ⟨z0, z1, hpoint⟩ := hlat
  have ht0 : ∀ k < 2 ^ logn, modQ (longs a.t0) k =
      1 * ringMul logn (modQ z0) (residues g) k + 1 * ringMul logn (modQ z1) (residues G) k := by
    intro k hk
    rw [modQ, (hpoint k hk).1, Int.cast_add, cast_mulMod, cast_mulMod, one_mul, one_mul]
    rfl
  have ht1 : ∀ k < 2 ^ logn, modQ (longs a.t1) k =
      -1 * ringMul logn (modQ z0) (residues f) k + -1 * ringMul logn (modQ z1) (residues F) k := by
    intro k hk
    rw [modQ, (hpoint k hk).2, Int.cast_neg, Int.cast_add, cast_mulMod, cast_mulMod, neg_add,
      neg_one_mul, neg_one_mul]
    rfl
  have hzero : ∀ p < 2 ^ logn,
      hat logn (fun k => 1 * modQ (longs a.t0) k +
        1 * ringMul logn (modQ (longs a.t1)) (coeff h) k) p =
          hat logn (fun k => 0 * modQ z0 k + 0 * modQ z1 k) p := by
    intro p hp
    have hf := (Vrfy.invertible_iff hlogn).mp hpublic.invertible p hp
    have hhf := Vrfy.hat_congr hpublic.equation hp
    have hGf := Vrfy.hat_congr hG.equation hp
    rw [Vrfy.hat_ringMul hlogn hp] at hhf hGf
    rw [Vrfy.hat_ringMul hlogn hp] at hGf
    rw [hat_linear hlogn _ _ hp, hat_linear hlogn _ _ hp, Vrfy.hat_ringMul hlogn hp,
      Vrfy.hat_congr ht0 hp, Vrfy.hat_congr ht1 hp, hat_linear hlogn _ _ hp,
      hat_linear hlogn _ _ hp, Vrfy.hat_ringMul hlogn hp, Vrfy.hat_ringMul hlogn hp,
      Vrfy.hat_ringMul hlogn hp, Vrfy.hat_ringMul hlogn hp]
    apply mul_right_cancel₀ hf
    linear_combination (-(hat logn (modQ z0) p) * hat logn (residues f) p -
      hat logn (modQ z1) p * hat logn (residues F) p) * hhf + hat logn (modQ z1) p * hGf
  intro k hk
  have h0 := Vrfy.hat_inj hlogn hzero hk
  simpa using h0

/-- What is taken solves the equation of the verifier. -/
theorem shortSolution_of_sign (hlogn : logn ≤ 10) {hm : List UInt16} {a : Attempt hm.length}
    {c : Nat → Zq} (hc : Vrfy.IsPoly (2 ^ logn) hm c) (hrange : InRange (2 ^ logn) hm a)
    (hlat : OnLattice (2 ^ logn) f g F G a) {h : List UInt16} {pk : Bytes}
    (hpublic : PrivateKey.PublicOf logn f g pk h) (hG : PrivateKey.Completes logn f g F G)
    {sv : List Int16} (hsign : doSignDyn logn hm a = some sv) :
    Vrfy.ShortSolution logn c (coeff h) (first hm a.t0) (ints sv) := by
  obtain ⟨_, hval, hle⟩ := (doSignDyn_iff hrange).mp hsign
  refine ⟨fun k hk => ?_, hle⟩
  have hneg : ∀ p < 2 ^ logn, hat logn (ringMul logn (modQ (ints sv)) (coeff h)) p =
      hat logn (fun k => -1 * ringMul logn (modQ (longs a.t1)) (coeff h) k +
        0 * modQ (longs a.t1) k) p := by
    intro p hp
    have hsv : ∀ k < 2 ^ logn, modQ (ints sv) k =
        -1 * modQ (longs a.t1) k + 0 * modQ (longs a.t1) k := by
      intro k hk
      rw [modQ, hval k hk, Int.cast_neg, zero_mul, add_zero, neg_one_mul]
      rfl
    rw [hat_linear hlogn _ _ hp, Vrfy.hat_ringMul hlogn hp, Vrfy.hat_ringMul hlogn hp,
      Vrfy.hat_congr hsv hp, hat_linear hlogn _ _ hp]
    ring
  have hprod := Vrfy.hat_inj hlogn hneg hk
  have hzero := hlat.equation hlogn hpublic hG k hk
  have hpoint : ((hm.getD k 0).toNat : Zq) = c k := hc.value k hk
  have hfirst : modQ (first hm a.t0) k = c k - modQ (longs a.t0) k := by
    unfold modQ first
    rw [Int.cast_sub, Int.cast_natCast, hpoint]
  rw [hprod, hfirst]
  linear_combination -hzero

end Lattice

/-! ## The loops -/

/-- `sign_dyn` takes the first short attempt. -/
theorem signDyn_iff {logn : Nat} {hm : List UInt16} {attempts : Nat → Attempt hm.length}
    {k k' : Nat} {sv : List Int16} :
    (∃ fuel, signDyn logn hm attempts fuel k = some (sv, k')) ↔
      ∃ j, k' = k + j + 1 ∧ doSignDyn logn hm (attempts (k + j)) = some sv ∧
        ∀ i < j, doSignDyn logn hm (attempts (k + i)) = none := by
  constructor
  · intro ⟨fuel, h⟩
    induction fuel generalizing k with
    | zero => cases h
    | succ fuel ih =>
      rw [signDyn] at h
      cases hk : doSignDyn logn hm (attempts k) with
      | some sv' =>
        rw [hk] at h
        cases h
        exact ⟨0, rfl, hk, fun i hi => absurd hi (Nat.not_lt_zero i)⟩
      | none =>
        rw [hk] at h
        obtain ⟨j, hj, hsv, hbefore⟩ := ih h
        refine ⟨j + 1, by omega, by rwa [← Nat.add_assoc, Nat.add_right_comm], fun i hi => ?_⟩
        cases i with
        | zero => exact hk
        | succ i =>
          rw [← Nat.add_assoc, Nat.add_right_comm]
          exact hbefore i (by omega)
  · intro ⟨j, hj, hsv, hbefore⟩
    refine ⟨j + 1, ?_⟩
    induction j generalizing k with
    | zero =>
      rw [Nat.add_zero] at hsv
      rw [signDyn, hsv, hj]
    | succ j ih =>
      have hk : doSignDyn logn hm (attempts k) = none := hbefore 0 (by omega)
      rw [signDyn, hk]
      refine ih (by omega) (by rwa [Nat.add_right_comm, Nat.add_assoc]) fun i hi => ?_
      rw [Nat.add_right_comm, Nat.add_assoc]
      exact hbefore (i + 1) (by omega)

/-- More fuel does not change the result. -/
theorem signDyn_mono {logn : Nat} {hm : List UInt16} {attempts : Nat → Attempt hm.length}
    {fuel k : Nat} {r : List Int16 × Nat} (m : Nat) (h : signDyn logn hm attempts fuel k = some r) :
    signDyn logn hm attempts (fuel + m) k = some r := by
  induction fuel generalizing k with
  | zero => cases h
  | succ fuel ih =>
    rw [Nat.add_right_comm, signDyn]
    rw [signDyn] at h
    cases hk : doSignDyn logn hm (attempts k) with
    | some sv =>
      rw [hk] at h
      exact h
    | none =>
      rw [hk] at h
      exact ih h

/-- What the loop of `falcon_sign_dyn_finish` returns is the encoding of a short attempt. -/
theorem signLoop_spec {s : Nat → UInt8} {attempts : (hm : List UInt16) → Nat → Attempt hm.length}
    {sigType : Int} {logn sigLen : Nat} {nonce : Bytes} {fuel k : Nat} {r : Except Int Bytes}
    (h : signLoop s attempts sigType logn sigLen nonce fuel k = some r) :
    ∃ hm sv j, (∃ fuel, hashToPoint fuel (sigType = sigCt) logn s = some hm) ∧
      doSignDyn logn hm (attempts hm j) = some sv ∧
      encodeSig sigType logn sigLen nonce sv = some r := by
  induction fuel generalizing k with
  | zero => cases h
  | succ fuel ih =>
    rw [signLoop] at h
    obtain ⟨hm, hpoint, hrest⟩ := Option.bind_eq_some_iff.mp h
    obtain ⟨t, ht, hcode⟩ := Option.bind_eq_some_iff.mp hrest
    cases hencode : encodeSig sigType logn sigLen nonce t.1 with
    | none =>
      rw [hencode] at hcode
      exact ih hcode
    | some r' =>
      rw [hencode] at hcode
      cases hcode
      obtain ⟨j, _, hsv, _⟩ := signDyn_iff.mp ⟨fuel, ht⟩
      exact ⟨hm, t.1, k + j, ⟨fuel, hpoint⟩, hsv, hencode⟩

/-! ## What is signed is accepted -/

/-- What the floating-point code is to compute with a private key: every attempt leaves a point
of its lattice whose difference to the hashed message fits the integer types. -/
def Sound (sampler : Sampler) (privkey : Bytes) : Prop :=
  ∀ logn f g F G, PrivateKey.privkeyDegree privkey = .ok logn →
    PrivateKey.completeElements logn privkey = .ok (f, g, F, G) →
    ∀ rng hm k, hm.length = 2 ^ logn → (∀ w ∈ hm, Vrfy.Reduced w) →
    OnLattice (2 ^ logn) f g F G (sampler rng (f, g, F, G) hm k) ∧
      InRange (2 ^ logn) hm (sampler rng (f, g, F, G) hm k)

/-- The encoders write the same bytes in a buffer of the exact size. -/
theorem encodeValue_of_compEncode {maxOutLen logn : Nat} {sv : List Int16} {out : Bytes}
    (h : Codec.compEncode maxOutLen sv = some out) :
    Verify.encodeValue false out.length logn sv = some out ∧ out.length ≤ maxOutLen := by
  obtain ⟨hvalid, hmax, hpacks⟩ := Codec.compEncode_eq_some.mp h
  exact ⟨Codec.compEncode_eq_some.mpr ⟨hvalid, le_refl _, hpacks⟩, hmax⟩

theorem encodeValue_of_trimI16Encode {maxOutLen logn : Nat} (hpos : 1 ≤ logn) (hlogn : logn ≤ 10)
    {sv : List Int16} {out : Bytes} (hlen : sv.length = 2 ^ logn)
    (h : Codec.trimI16Encode maxOutLen logn (maxSigBits.getD logn 0) sv = some out) :
    Verify.encodeValue true out.length logn sv = some out ∧
      out.length = Codec.fixedLen logn (maxSigBits.getD logn 0) := by
  obtain ⟨hbits, hle⟩ := Verify.maxSigBits_bounds logn hlogn hpos
  have hwidth : maxSigBits.getD logn 0 ≤ Codec.int16.width := show _ ≤ 16 by omega
  have hfixed := Codec.length_trimEncode (T := Codec.int16) hbits hwidth hlen h
  obtain ⟨hvalid, _, hpacks⟩ := (Codec.trimEncode_eq_some (T := Codec.int16) hbits hwidth).mp h
  exact ⟨(Codec.trimEncode_eq_some (T := Codec.int16) hbits hwidth).mpr
    ⟨hvalid, le_of_eq hfixed.symm, hpacks⟩, hfixed⟩

theorem encodesValue_salted {t : Int} {ct : Bool} {logn : Nat} (header : UInt8)
    {nonce out pad : Bytes} {sv : List Int16} (hnonce : nonce.length = 40)
    (hlen : sv.length = 2 ^ logn) (hencode : Verify.encodeValue ct out.length logn sv = some out)
    (hpad : pad = [] ∨
      (Verify.padded t logn (41 + (out ++ pad).length) = true ∧ ∀ b ∈ pad, b = 0)) :
    Verify.EncodesValue t ct logn (header :: nonce ++ (out ++ pad)) sv := by
  obtain ⟨hlength, -, -, hdrop⟩ := Verify.salted_parts header hnonce (out ++ pad)
  refine ⟨hlen, out.length, ?_, ?_, ?_⟩
  · rw [hlength, List.length_append]
    omega
  · rw [hdrop, List.take_left' rfl]
    exact hencode
  · rw [← List.drop_drop, hlength, hdrop, List.drop_left' rfl]
    rcases hpad with hpad | hpad
    · rw [hpad, List.append_nil]
      exact Or.inl rfl
    · exact Or.inr hpad

theorem header_nibbles : ∀ logn ≤ 10,
    (UInt8.ofNat (0x30 + logn) &&& 0xF0 = 0x30 ∧
        (UInt8.ofNat (0x30 + logn) &&& 0x0F).toNat = logn) ∧
      (UInt8.ofNat (0x50 + logn) &&& 0xF0 = 0x50 ∧
        (UInt8.ofNat (0x50 + logn) &&& 0x0F).toNat = logn) := by
  decide

theorem size_spec : ∀ logn ≤ 10, 1 ≤ logn → 41 ≤ sigPaddedSize logn ∧
    sigCtSize logn = 41 + Codec.fixedLen logn (maxSigBits.getD logn 0) := by
  decide

/-- The verifier finds the format of the signer, from the type or from the header byte. -/
theorem checkFormat_signed {sigType t : Int} {logn sigLen : Nat} {header : UInt8}
    (htype : (sigType = sigCompressed ∧ header &&& 0xF0 = 0x30) ∨
      (sigType = sigPadded ∧ header &&& 0xF0 = 0x30 ∧ sigLen = sigPaddedSize logn) ∨
      (sigType = sigCt ∧ header &&& 0xF0 = 0x50 ∧ sigLen = sigCtSize logn))
    (ht : t = 0 ∨ t = sigType) :
    Verify.checkFormat t logn header sigLen = .ok (sigType = sigCt) := by
  rcases htype with ⟨rfl, hhigh⟩ | ⟨rfl, hhigh, hsize⟩ | ⟨rfl, hhigh, hsize⟩ <;>
    rcases ht with rfl | rfl <;>
      simp [Verify.checkFormat, sigCompressed, sigPadded, sigCt, *]

/-- The signature has the form that the verifier expects, for its type or any type. -/
structure WellFormed (t : Int) (ct : Bool) (logn : Nat) (nonce sig : Bytes) (sv : List Int16) :
    Prop where
  salted : 41 ≤ sig.length
  degree : (sig.headD 0 &&& 0x0F).toNat = logn
  format : Verify.checkFormat t logn (sig.headD 0) sig.length = .ok ct
  nonce : (sig.drop 1).take 40 = nonce
  value : Verify.EncodesValue t ct logn sig sv

theorem encodeSig_wellFormed {sigType t : Int} {logn sigLen : Nat} {nonce sig : Bytes}
    {sv : List Int16} (hpos : 1 ≤ logn) (hlogn : logn ≤ 10) (hnonce : nonce.length = 40)
    (hlen : sv.length = 2 ^ logn) (hchecked : checkSigLen sigType logn sigLen = .ok ())
    (h : encodeSig sigType logn sigLen nonce sv = some (.ok sig)) (ht : t = 0 ∨ t = sigType) :
    WellFormed t (sigType = sigCt) logn nonce sig sv := by
  obtain ⟨⟨hhigh, hlow⟩, hhighCt, hlowCt⟩ := header_nibbles logn hlogn
  obtain ⟨hpadded, hct⟩ := size_spec logn hlogn hpos
  unfold encodeSig at h
  dsimp only at h
  split_ifs at h with hpaddedType hctType
  · subst hpaddedType
    obtain ⟨out, hout, hsig⟩ := Option.map_eq_some_iff.mp h
    obtain ⟨hencode, hmax⟩ := encodeValue_of_compEncode hout
    obtain ⟨hlength, hhead, hsalt, -⟩ := Verify.salted_parts (UInt8.ofNat (0x30 + logn)) hnonce
      (out ++ List.replicate (sigPaddedSize logn - (41 + out.length)) 0)
    have htotal : 41 + (out ++ List.replicate (sigPaddedSize logn - (41 + out.length))
        (0 : UInt8)).length = sigPaddedSize logn := by
      rw [List.length_append, List.length_replicate]
      omega
    have hvalue := encodesValue_salted (t := t) (UInt8.ofNat (0x30 + logn)) hnonce hlen
      hencode (Or.inr ⟨by
        rw [htotal]
        rcases ht with rfl | rfl <;> simp [Verify.padded], fun b hb => List.eq_of_mem_replicate hb⟩)
    rw [Except.ok.inj hsig] at hlength hhead hsalt hvalue
    refine ⟨by omega, by rw [hhead, hlow], ?_, hsalt, hvalue⟩
    rw [hhead]
    exact checkFormat_signed (Or.inr (Or.inl ⟨rfl, hhigh, hlength.trans htotal⟩)) ht
  · subst hctType
    cases hout : Codec.trimI16Encode (sigLen - 41) logn (maxSigBits.getD logn 0) sv with
    | none =>
      rw [hout] at h
      cases h
    | some out =>
      rw [hout] at h
      obtain ⟨hencode, hfixed⟩ := encodeValue_of_trimI16Encode hpos hlogn hlen hout
      obtain ⟨hlength, hhead, hsalt, -⟩ :=
        Verify.salted_parts (UInt8.ofNat (0x50 + logn)) hnonce out
      have hvalue := encodesValue_salted (t := t) (UInt8.ofNat (0x50 + logn)) hnonce hlen
        hencode (Or.inl rfl)
      rw [List.append_nil] at hvalue
      rw [Except.ok.inj (Option.some.inj h)] at hlength hhead hsalt hvalue
      refine ⟨by omega, by rw [hhead, hlowCt], ?_, hsalt, hvalue⟩
      rw [hhead]
      exact checkFormat_signed (Or.inr (Or.inr ⟨rfl, hhighCt, by omega⟩)) ht
  · have htype : sigType = sigCompressed := by
      unfold checkSigLen at hchecked
      split_ifs at hchecked with hcompressed
      exact hcompressed
    subst htype
    cases hout : Codec.compEncode (sigLen - 41) sv with
    | none =>
      rw [hout] at h
      cases h
    | some out =>
      rw [hout] at h
      obtain ⟨hencode, -⟩ := encodeValue_of_compEncode hout
      obtain ⟨hlength, hhead, hsalt, -⟩ :=
        Verify.salted_parts (UInt8.ofNat (0x30 + logn)) hnonce out
      have hvalue := encodesValue_salted (t := t) (UInt8.ofNat (0x30 + logn)) hnonce hlen
        hencode (Or.inl rfl)
      rw [List.append_nil] at hvalue
      rw [Except.ok.inj (Option.some.inj h)] at hlength hhead hsalt hvalue
      refine ⟨by omega, by rw [hhead, hlow], ?_, hsalt, hvalue⟩
      rw [hhead]
      exact checkFormat_signed (Or.inl ⟨rfl, hhigh⟩) ht

/-- The checks that a call passes which returns a signature. -/
theorem falconSignDynFinish_ok {xof : Xof} {sampler : Sampler} {fuel : Nat} {rng : Bytes}
    {sigLen : Nat} {sigType : Int} {privkey hashData nonce : Bytes} {tmpLen : Nat} {sig : Bytes} :
    falconSignDynFinish xof sampler fuel rng sigLen sigType privkey hashData nonce tmpLen =
        some (.ok sig) ↔
      ∃ logn key, PrivateKey.privkeyDegree privkey = .ok logn ∧
        PrivateKey.completeElements logn privkey = .ok key ∧ tmpsizeSigndyn logn ≤ tmpLen ∧
        41 ≤ sigLen ∧ checkSigLen sigType logn sigLen = .ok () ∧
        signLoop (xof hashData) (sampler rng key) sigType logn sigLen nonce fuel 0 =
          some (.ok sig) := by
  unfold falconSignDynFinish
  constructor
  · intro h
    cases hdegree : PrivateKey.privkeyDegree privkey with
    | error r =>
      rw [hdegree] at h
      cases h
    | ok logn =>
      rw [hdegree] at h
      dsimp only at h
      split_ifs at h with htmp hlen
      · cases h
      · cases h
      · cases hcheck : checkSigLen sigType logn sigLen with
        | error r =>
          rw [hcheck] at h
          cases h
        | ok u =>
          rw [hcheck] at h
          dsimp only at h
          cases hkey : PrivateKey.completeElements logn privkey with
          | error r =>
            rw [hkey] at h
            cases h
          | ok key =>
            rw [hkey] at h
            exact ⟨logn, key, rfl, hkey, by omega, by omega, hcheck, h⟩
  · intro ⟨logn, key, hdegree, hkey, htmp, hlen, hcheck, hloop⟩
    rw [hdegree]
    dsimp only
    rw [if_neg (by omega), if_neg (by omega), hcheck]
    dsimp only
    rw [hkey]
    exact hloop

theorem encodeSig_error {sigType : Int} {logn sigLen : Nat} {nonce : Bytes} {sv : List Int16}
    {r : Int} (h : encodeSig sigType logn sigLen nonce sv = some (.error r)) : r ≠ 0 := by
  unfold encodeSig at h
  dsimp only at h
  split_ifs at h
  · obtain ⟨out, -, hsig⟩ := Option.map_eq_some_iff.mp h
    cases hsig
  · split at h <;> cases h
    decide
  · split at h <;> cases h
    decide

/-- The code of a failure is not 0. -/
theorem falconSignDynFinish_error {xof : Xof} {sampler : Sampler} {fuel : Nat} {rng : Bytes}
    {sigLen : Nat} {sigType : Int} {privkey hashData nonce : Bytes} {tmpLen : Nat} {r : Int}
    (h : falconSignDynFinish xof sampler fuel rng sigLen sigType privkey hashData nonce tmpLen =
      some (.error r)) : r ≠ 0 := by
  unfold falconSignDynFinish at h
  split at h
  case h_1 r' hdegree =>
    cases h
    rw [PrivateKey.privkeyDegree_error hdegree]
    decide
  case h_2 logn hdegree =>
    split_ifs at h
    · cases h
      decide
    · cases h
      decide
    · split at h
      case h_1 r' hcheck =>
        cases h
        unfold checkSigLen at hcheck
        split_ifs at hcheck <;> cases hcheck <;> decide
      case h_2 =>
        split at h
        case h_1 r' hkey =>
          cases h
          rw [PrivateKey.completeElements_error hkey]
          decide
        case h_2 key hkey =>
          obtain ⟨_, sv, _, _, _, hencode⟩ := signLoop_spec h
          exact encodeSig_error hencode

/-- What `falcon_sign_dyn_finish` returns is accepted under the public key of the pair.  In the
constant-time format the fixed number of samples has to be enough. -/
theorem falconSign_verifies {xof : Xof} {sampler : Sampler} {fuel : Nat} {rng : Bytes}
    {sigLen : Nat} {sigType : Int} {privkey nonce data : Bytes} {tmpLen : Nat}
    {sig pubkey : Bytes} {pubkeyLen tmpLen' tmpLen'' : Nat} (hsound : Sound sampler privkey)
    (hnonce : nonce.length = 40)
    (hpubkey : PrivateKey.makePublic privkey pubkeyLen tmpLen' = .ok pubkey)
    (hsign : falconSignDynFinish xof sampler fuel rng sigLen sigType privkey (nonce ++ data) nonce
      tmpLen = some (.ok sig))
    (henough : sigType = sigCt → ∀ logn ≤ 10, PrivateKey.privkeyDegree privkey = .ok logn →
      2 ^ logn ≤ ((HashToPoint.samples (xof (nonce ++ data)) 0 (HashToPoint.taken logn)).filter
        HashToPoint.accepted).length)
    {t : Int} (ht : t = 0 ∨ t = sigType) (htmp : Verify.tmpsizeVerify 10 ≤ tmpLen'') :
    ∃ fuel, Verify.falconVerify xof fuel sig t pubkey data tmpLen'' = some 0 := by
  obtain ⟨logn, ⟨f, g, F, G⟩, hdegree, hkey, -, -, hcheck, hloop⟩ := falconSignDynFinish_ok.mp hsign
  obtain ⟨hpos, hlogn, hsk, hG⟩ := PrivateKey.loadPrivkey_iff.mp ⟨hdegree, hkey⟩
  have helements := (PrivateKey.decodePrivkey_iff.mpr ⟨hpos, hlogn, hsk⟩).2
  obtain ⟨h, hpublic⟩ := PrivateKey.publicOf_of_makePublic hpubkey hdegree helements
  obtain ⟨hm, sv, j, hpoint, hattempt, hencode⟩ := signLoop_spec hloop
  have hct : decide (sigType = sigCt) = true → 2 ^ logn ≤ ((HashToPoint.samples
      (xof (nonce ++ data)) 0 (HashToPoint.taken logn)).filter HashToPoint.accepted).length :=
    fun hct => henough (of_decide_eq_true hct) logn hlogn hdegree
  have hhash := (Verify.hashToPoint_iff hlogn hct).mp hpoint
  obtain ⟨hlat, hrange⟩ := hsound logn f g F G hdegree hkey rng hm j hhash.isPoly.length
    hhash.isPoly.ok_of_mem
  have hsolution := shortSolution_of_sign hlogn hhash.isPoly hrange hlat hpublic hG hattempt
  have hsv := ((doSignDyn_iff hrange).mp hattempt).1
  obtain ⟨hsalted, hdeg, hformat, hsalt, hvalue⟩ :=
    encodeSig_wellFormed hpos hlogn hnonce hsv hcheck hencode ht
  refine (Verify.falconVerify_iff ?_).mpr ⟨logn, decide (sigType = sigCt), h, sv, hpos, hlogn,
    hsalted, hdeg, hformat, hpublic.key, ?_, hvalue, ?_⟩
  · intro logn' _ hsame hct'
    rw [hdeg] at hsame
    subst hsame
    rw [hformat, Except.ok.injEq] at hct'
    rw [hsalt]
    exact hct hct'
  · have hle : 8 * 2 ^ logn ≤ 8 * 2 ^ 10 :=
      Nat.mul_le_mul_left 8 (Nat.pow_le_pow_right (by omega) hlogn)
    unfold Verify.tmpsizeVerify at htmp ⊢
    omega
  · rw [hsalt]
    exact ⟨hm, hhash, _, hsolution⟩

end Trelyan.Falcon.Sign
