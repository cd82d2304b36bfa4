import Mathlib.Data.Int.Lemmas
import Mathlib.Data.ZMod.ValMinAbs
import Trelyan.Falcon.Short
import Trelyan.Falcon.Transform

/-!
# The verifier proper of `vrfy.c`

`verify_raw` gets the hashed message `c0`, the signature value `s2` and the transformed
public key.  It accepts exactly if `s1 + s2 h = c0` has a solution `s1` for which the vector
`(s1, s2)` is short (`verifyRaw_iff`): the equation is modulo `q` and `X^n + 1`, the norm is
over the integers.

The other functions of the file solve the same equation for another unknown.
`compute_public` divides `g / f`, `complete_private` finds `G`, and `verify_recover` finds a
key under which a given signature is good.
-/

namespace Trelyan.Falcon.Vrfy

open Finset

/-! ## The functions -/

/-- `w = (uint32_t)s2[u]; w += Q & -(w >> 31); tt[u] = (uint16_t)w;`. -/
def reduceS (z : Int16) : UInt16 := (addQ z.toInt32.toUInt32).toUInt16

/-- `w -= (int32_t)(Q & -(((Q >> 1) - (uint32_t)w) >> 31));`, into the range -q/2..q/2. -/
def normalize (w : UInt16) : Int16 :=
  let w := w.toUInt32
  (w.toInt32 - ((12289 : UInt32) &&& -((((12289 : UInt32) >>> 1) - w) >>> 31)).toInt32).toInt16

/-- `s2 * h`, for `h` transformed and in Montgomery form. -/
def mulNtt (logn : Nat) (s2 : List Int16) (h : List UInt16) : List UInt16 :=
  mqINTT logn (mqPolyMontymulNtt (mqNTT logn (s2.map reduceS)) h)

/-- `Zf(verify_raw)`. -/
def verifyRaw (logn : Nat) (c0 : List UInt16) (s2 : List Int16) (h : List UInt16) : Bool :=
  let tt := mqPolySub (mulNtt logn s2 h) c0
  isShort logn (tt.map normalize) s2

/-- `falcon_det1024_s1_coeffs`, for any degree: `none` for the code BADSIG. -/
def s1Coeffs (logn : Nat) (h c : List UInt16) (s2 : List Int16) : Option (List Int16) :=
  let tt := mulNtt logn s2 (toNttMonty logn h)
  let s1 := (List.zipWith (fun v w => (mqSub v.toUInt32 w.toUInt32).toUInt16) c tt).map normalize
  if isShort logn s1 s2 then some s1 else none

/-! ## Integer vectors -/

/-- The integers of an array. -/
def ints (s : List Int16) (k : Nat) : Int := (s.getD k 0).toInt

/-- Integers modulo `q`. -/
def modQ (s : Nat → Int) (k : Nat) : Zq := s k

/-- `s1 + s2 h = c` modulo `q` and `X^n + 1`, and `(s1, s2)` is within the bound. -/
structure ShortSolution (logn : Nat) (c h : Nat → Zq) (s1 s2 : Nat → Int) : Prop where
  equation : ∀ k < 2 ^ logn, modQ s1 k + ringMul logn (modQ s2) h k = c k
  short : ∑ k ∈ range (2 ^ logn), s1 k ^ 2 + ∑ k ∈ range (2 ^ logn), s2 k ^ 2 ≤
    (l2bound.getD logn 0).toNat

theorem sqNorm_eq_sum (s : List Int16) : sqNorm s = ∑ k ∈ range s.length, ints s k ^ 2 := by
  induction s with
  | nil => rfl
  | cons z s ih =>
    rw [sqNorm_cons, List.length_cons, sum_range_succ', ih, add_comm]
    rfl

/-- Coefficients that reducing once brings below `q`. -/
def Small (z : Int16) : Prop := -12289 < z.toInt ∧ z.toInt < 12289

/-- Coefficients that the decoders produce: small ones, one for each degree. -/
structure SmallPoly (logn : Nat) (s : List Int16) : Prop where
  length : s.length = 2 ^ logn
  small : ∀ z ∈ s, Small z

theorem SmallPoly.represents {logn : Nat} {s : List Int16} (hs : SmallPoly logn s) :
    Ntt.Represents (fun z : Int16 => (z.toInt : Zq)) Small (2 ^ logn) s (modQ (ints s)) :=
  Ntt.Represents.self hs.length hs.small

/-- One reduction is enough. -/
theorem addQ_spec {z : Int16} (hz : Small z) :
    (addQ z.toInt32.toUInt32).toNat < 12289 ∧ zq (addQ z.toInt32.toUInt32) = z.toInt := by
  have h := mqConvSmall_spec (x := z.toInt32) (by rw [Int16.toInt_toInt32]; exact hz.1)
    (by rw [Int16.toInt_toInt32]; exact hz.2)
  rwa [Int16.toInt_toInt32] at h

theorem isPoly_reduceS {logn : Nat} {s : List Int16} (hs : SmallPoly logn s) :
    IsPoly (2 ^ logn) (s.map reduceS) (modQ (ints s)) :=
  hs.represents.map (F := id) fun _ hz => zq16_of_zq (addQ_spec hz)

/-- The representative of a residue that is closest to zero. -/
theorem normalize_toInt {w : UInt16} (hw : Reduced w) :
    (normalize w).toInt = (zq16 w).valMinAbs := by
  have hw' : w.toNat < 12289 := hw
  have hval : (zq16 w).val = w.toNat := ZMod.val_cast_of_lt hw'
  have hword : w.toUInt32.toNat = w.toNat := UInt16.toNat_toUInt32 w
  have hint : w.toUInt32.toInt32.toInt = w.toNat := by
    have h : w.toUInt32.toInt32.toInt = if 2 * w.toUInt32.toNat < 2 ^ 32 then
        (w.toUInt32.toNat : Int) else (w.toUInt32.toNat : Int) - (2 ^ 32 : Nat) :=
      BitVec.toInt_eq_toNat_cond ..
    rw [h, hword, if_pos (by omega)]
  have hdiff : (((12289 : UInt32) >>> 1) - w.toUInt32).toNat =
      (2 ^ 32 - w.toNat + 6144) % 2 ^ 32 := by
    rw [UInt32.toNat_sub, hword]
    rfl
  rw [ZMod.valMinAbs_def_pos, hval]
  unfold normalize
  dsimp only
  rw [Bits.shift_31, Int32.toInt_toInt16, Int32.toInt_sub, hint]
  by_cases hlow : w.toNat ≤ 12289 / 2
  · rw [if_neg (show ¬ 2 ^ 31 ≤ _ by omega), if_pos hlow]
    show Int.bmod (Int.bmod ((w.toNat : Int) - 0) (2 ^ 32)) (2 ^ 16) = _
    rw [Int.bmod_eq_of_le (n := (w.toNat : Int) - 0) (by omega) (by omega)]
    exact (Int.bmod_eq_of_le (by omega) (by omega)).trans (by omega)
  · rw [if_pos (show 2 ^ 31 ≤ _ by omega), if_neg hlow]
    show Int.bmod (Int.bmod ((w.toNat : Int) - 12289) (2 ^ 32)) (2 ^ 16) = _
    rw [Int.bmod_eq_of_le (n := (w.toNat : Int) - 12289) (by omega) (by omega)]
    exact Int.bmod_eq_of_le (by omega) (by omega)

theorem ints_normalize {n : Nat} {a : List UInt16} {f : Nat → Zq} (ha : IsPoly n a f) {k : Nat}
    (hk : k < n) : ints (a.map normalize) k = (f k).valMinAbs := by
  have hlt : k < a.length := by rw [ha.length]; exact hk
  have hmem : a.getD k default ∈ a := by
    rw [List.getD_eq_getElem _ _ hlt]
    exact List.getElem_mem hlt
  rw [← ha.value k hk, ← normalize_toInt (ha.admissible k hk), ints,
    List.getD_eq_getElem _ _ (by rwa [List.length_map]), List.getD_eq_getElem _ _ hlt,
    List.getElem_map]

variable {logn : Nat} {c0 h : List UInt16} {s2 : List Int16} {c f : Nat → Zq}

theorem sqNorm_normalize {n : Nat} {a : List UInt16} {f : Nat → Zq} (ha : IsPoly n a f) :
    sqNorm (a.map normalize) = ∑ k ∈ range n, (f k).valMinAbs ^ 2 := by
  rw [sqNorm_eq_sum, List.length_map, ha.length]
  exact sum_congr rfl fun k hk => by rw [ints_normalize ha (mem_range.mp hk)]

/-- No representative is closer to zero. -/
theorem valMinAbs_sq_le {x : Zq} {y : Int} (h : (y : Zq) = x) : x.valMinAbs ^ 2 ≤ y ^ 2 := by
  have hle := ZMod.natAbs_min_of_le_div_two 12289 x.valMinAbs y (by rw [ZMod.coe_valMinAbs, h])
    (ZMod.natAbs_valMinAbs_le x)
  exact Int.natAbs_le_iff_sq_le.mp hle

/-! ## Verification -/

theorem mulNtt_spec (hlogn : logn ≤ 10) (hs : SmallPoly logn s2) (hh : IsPoly (2 ^ logn) h f) :
    IsPoly (2 ^ logn) (mulNtt logn s2 (toNttMonty logn h)) (ringMul logn (modQ (ints s2)) f) :=
  mqINTT_montymul hlogn (isPoly_reduceS hs) hh

/-- The entries closest to zero decide whether there is a short solution. -/
theorem exists_shortSolution_iff {s : Nat → Int} :
    (∃ s1, ShortSolution logn c f s1 s) ↔
      ∑ k ∈ range (2 ^ logn), (c k - ringMul logn (modQ s) f k).valMinAbs ^ 2 +
        ∑ k ∈ range (2 ^ logn), s k ^ 2 ≤ (l2bound.getD logn 0).toNat := by
  constructor
  · intro ⟨s1, heq, hle⟩
    refine le_trans (add_le_add_left (sum_le_sum fun k hk => valMinAbs_sq_le ?_) _) hle
    rw [← heq k (mem_range.mp hk), add_sub_cancel_right]
    rfl
  · intro hle
    refine ⟨fun k => (c k - ringMul logn (modQ s) f k).valMinAbs, fun k _ => ?_, hle⟩
    rw [modQ, ZMod.coe_valMinAbs, sub_add_cancel]

/-- `verify_raw` accepts exactly if there is a short solution. -/
theorem verifyRaw_iff (hlogn : logn ≤ 10) (hc : IsPoly (2 ^ logn) c0 c) (hs : SmallPoly logn s2)
    (hh : IsPoly (2 ^ logn) h f) :
    verifyRaw logn c0 s2 (toNttMonty logn h) = true ↔
      ∃ s1, ShortSolution logn c f s1 (ints s2) := by
  have hdiff := polySub_spec (mulNtt_spec hlogn hs hh) hc
  have hlen := hs.length
  -- the array holds `-s1`
  have hneg : ∀ k, (ringMul logn (modQ (ints s2)) f k - c k).valMinAbs ^ 2 =
      (c k - ringMul logn (modQ (ints s2)) f k).valMinAbs ^ 2 := by
    intro k
    rw [← Int.natAbs_sq, ← neg_sub, ZMod.natAbs_valMinAbs_neg, Int.natAbs_sq]
  unfold verifyRaw
  dsimp only
  rw [isShort_iff (by rw [List.length_map, hdiff.length, hlen]), sqNorm_normalize hdiff,
    sqNorm_eq_sum, hlen, exists_shortSolution_iff]
  simp only [hneg]

/-- `falcon_det1024_s1_coeffs` succeeds exactly if there is a short solution. -/
theorem s1Coeffs_isSome (hlogn : logn ≤ 10) (hc : IsPoly (2 ^ logn) c0 c)
    (hs : SmallPoly logn s2) (hh : IsPoly (2 ^ logn) h f) :
    (∃ s1, s1Coeffs logn h c0 s2 = some s1) ↔ ∃ s1, ShortSolution logn c f s1 (ints s2) := by
  have hdiff : IsPoly _ (List.zipWith (fun v w => (mqSub v.toUInt32 w.toUInt32).toUInt16) c0
    (mulNtt logn s2 (toNttMonty logn h))) _ := polySub_spec hc (mulNtt_spec hlogn hs hh)
  have hlen := hs.length
  unfold s1Coeffs
  dsimp only
  generalize List.zipWith (fun v w => (mqSub v.toUInt32 w.toUInt32).toUInt16) c0
    (mulNtt logn s2 (toNttMonty logn h)) = a at hdiff
  have hshort := @isShort_iff logn (a.map normalize) s2
    (by rw [List.length_map, hdiff.length, hlen])
  rw [sqNorm_normalize hdiff, sqNorm_eq_sum, hlen] at hshort
  rw [exists_shortSolution_iff, ← hshort]
  constructor
  · intro ⟨s1, hsome⟩
    split_ifs at hsome with htest
    exact htest
  · intro htest
    exact ⟨_, if_pos htest⟩

/-- `falcon_det1024_s1_coeffs` returns the short solution with the smallest entries. -/
theorem s1Coeffs_iff (hlogn : logn ≤ 10) (hc : IsPoly (2 ^ logn) c0 c) (hs : SmallPoly logn s2)
    (hh : IsPoly (2 ^ logn) h f) {s1 : List Int16} :
    s1Coeffs logn h c0 s2 = some s1 ↔
      s1.length = 2 ^ logn ∧ (∀ z ∈ s1, -6144 ≤ z.toInt ∧ z.toInt ≤ 6144) ∧
        ShortSolution logn c f (ints s1) (ints s2) := by
  have hdiff : IsPoly _ (List.zipWith (fun v w => (mqSub v.toUInt32 w.toUInt32).toUInt16) c0
    (mulNtt logn s2 (toNttMonty logn h))) _ := polySub_spec hc (mulNtt_spec hlogn hs hh)
  have hlen := hs.length
  unfold s1Coeffs
  dsimp only
  generalize List.zipWith (fun v w => (mqSub v.toUInt32 w.toUInt32).toUInt16) c0
    (mulNtt logn s2 (toNttMonty logn h)) = a at hdiff
  have halen : (a.map normalize).length = 2 ^ logn := by rw [List.length_map, hdiff.length]
  have hshort := @isShort_iff logn (a.map normalize) s2 (by rw [halen, hlen])
  rw [sqNorm_eq_sum, sqNorm_eq_sum, halen, hlen] at hshort
  constructor
  · intro hsome
    split_ifs at hsome with htest
    rw [Option.some.injEq] at hsome
    subst hsome
    refine ⟨halen, ?_, ?_, hshort.mp htest⟩
    · intro z hz
      obtain ⟨w, hw, hwz⟩ := List.mem_map.mp hz
      have hmin := ZMod.natAbs_valMinAbs_le (zq16 w)
      rw [← hwz, normalize_toInt (hdiff.ok_of_mem w hw)]
      omega
    · intro k hk
      rw [modQ, ints_normalize hdiff hk, ZMod.coe_valMinAbs, sub_add_cancel]
  · intro ⟨hs1len, hs1, heq, hle⟩
    have hsame : a.map normalize = s1 := by
      apply List.ext_getElem (by rw [halen, hs1len])
      intro k hk hk1
      have hkn : k < 2 ^ logn := by rw [← halen]; exact hk
      have hbound := hs1 s1[k] (List.getElem_mem hk1)
      have hints : ints s1 k = s1[k].toInt := by
        rw [ints, List.getD_eq_getElem _ _ hk1]
      have hints' : ints (a.map normalize) k = (a.map normalize)[k].toInt := by
        rw [ints, List.getD_eq_getElem _ _ hk]
      rw [← Int16.toInt_inj, ← hints, ← hints', ints_normalize hdiff hkn, ZMod.valMinAbs_spec]
      refine ⟨?_, ?_⟩
      · rw [← heq k hkn, add_sub_cancel_right]
        rfl
      · rw [hints, Set.mem_Ioc]
        push_cast
        omega
    rw [hsame] at hshort ⊢
    rw [if_pos (hshort.mpr hle)]

theorem smallPoly_two : SmallPoly 1 [3, -1] := ⟨rfl, by simp [Small]⟩

theorem s1Coeffs_two :
    s1Coeffs 1 [5, 7] [11, 13] [3, -1] = some [-11, -3] ∧
      ShortSolution 1 (coeff [11, 13]) (coeff [5, 7]) (ints [-11, -3]) (ints [3, -1]) :=
  have h : s1Coeffs 1 [5, 7] [11, 13] [3, -1] = some [-11, -3] := by decide +kernel
  ⟨h, ((s1Coeffs_iff (by decide) (isPoly_coeff rfl (by simp [Reduced])) smallPoly_two
    (isPoly_coeff rfl (by simp [Reduced]))).mp h).2.2⟩

end Trelyan.Falcon.Vrfy
