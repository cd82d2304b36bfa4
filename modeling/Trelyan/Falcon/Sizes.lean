import Mathlib.Algebra.Order.Chebyshev
import Trelyan.Falcon.Verify

/-!
# A short vector fits

In the compressed format a coefficient takes nine bits and one more for each multiple of 128
below its absolute value.  So the size is bounded by the sum of the absolute values, and this
by the norm: the encoding of a vector that passes the norm test is never longer than
`FALCON_SIG_COMPRESSED_MAXSIZE` (`compEncode_fits`).
-/

namespace Trelyan.Falcon.Verify

open Finset
open Vrfy (ints l2bound)

/-- How many multiples of 128 are below the absolute values. -/
def excess (sv : List Int16) : Nat := ∑ k ∈ range sv.length, (ints sv k).natAbs / 128

theorem length_compBits (c : Int16) : (Codec.compBits c).length = 9 + c.toInt.natAbs / 128 := by
  unfold Codec.compBits
  rw [List.length_cons, List.length_append, List.length_append, Bits.length_ofNat,
    List.length_replicate, List.length_singleton]
  omega

theorem length_flatMap_compBits (sv : List Int16) :
    (sv.flatMap Codec.compBits).length = 9 * sv.length + excess sv := by
  induction sv with
  | nil => rfl
  | cons c sv ih =>
    have hexcess : excess (c :: sv) = excess sv + c.toInt.natAbs / 128 := by
      unfold excess
      rw [List.length_cons, sum_range_succ']
      rfl
    rw [List.flatMap_cons, List.length_append, length_compBits, ih, List.length_cons, hexcess]
    omega

/-- The sum of the absolute values, by the sum of the squares. -/
theorem excess_sq_le {sv : List Int16} {n b : Nat} (hlen : sv.length = n)
    (hshort : ∑ k ∈ range n, ints sv k ^ 2 ≤ b) : (128 * excess sv) ^ 2 ≤ n * b := by
  have hterm : ∀ k, (128 * ((ints sv k).natAbs / 128 : Nat) : Int) ^ 2 ≤ ints sv k ^ 2 := by
    intro k
    have hfloor : 128 * ((ints sv k).natAbs / 128) ≤ (ints sv k).natAbs := Nat.mul_div_le _ _
    rw [← Int.natAbs_sq (ints sv k)]
    exact pow_le_pow_left₀ (by omega) (by exact_mod_cast hfloor) 2
  have hsum : ∑ k ∈ range n, (128 * ((ints sv k).natAbs / 128 : Nat) : Int) = 128 * excess sv := by
    unfold excess
    rw [hlen, ← mul_sum]
    push_cast
    rfl
  have hchain : ((128 * excess sv : Nat) : Int) ^ 2 ≤ (n * b : Nat) := by
    calc ((128 * excess sv : Nat) : Int) ^ 2
        = (∑ k ∈ range n, (128 * ((ints sv k).natAbs / 128 : Nat) : Int)) ^ 2 := by
          rw [hsum]
          push_cast
          rfl
      _ ≤ (#(range n) : Int) *
            ∑ k ∈ range n, (128 * ((ints sv k).natAbs / 128 : Nat) : Int) ^ 2 :=
          sq_sum_le_card_mul_sum_sq
      _ ≤ (n : Int) * b := by
          rw [card_range]
          refine mul_le_mul_of_nonneg_left ?_ (by omega)
          exact le_trans (sum_le_sum fun k _ => hterm k) hshort
      _ = ((n * b : Nat) : Int) := by push_cast; rfl
  exact_mod_cast hchain

/-- What the size leaves for the multiples of 128. -/
theorem maxsize_margin : ∀ logn ≤ 10, 1 ≤ logn →
    2 ^ logn * (l2bound.getD logn 0).toNat <
      (128 * (2 * 2 ^ logn + (101 >>> (10 - logn)) + 1)) ^ 2 := by
  decide

/-- The compressed form of a vector within the norm bound has the maximal size or less. -/
theorem packs_fits {logn : Nat} (hpos : 1 ≤ logn) (hlogn : logn ≤ 10) {sv : List Int16}
    (hlen : sv.length = 2 ^ logn)
    (hshort : ∑ k ∈ range (2 ^ logn), ints sv k ^ 2 ≤ (l2bound.getD logn 0).toNat) {out : Bytes}
    (hpacks : Bits.Packs out (sv.flatMap Codec.compBits)) :
    out.length + 41 ≤ sigCompressedMaxsizeOf logn := by
  have hexcess : excess sv ≤ 2 * 2 ^ logn + (101 >>> (10 - logn)) := by
    have hsq := excess_sq_le hlen hshort
    have hmargin := maxsize_margin logn hlogn hpos
    have hlt := lt_of_pow_lt_pow_left₀ 2 (by omega) (lt_of_le_of_lt hsq hmargin)
    omega
  rw [hpacks.length, length_flatMap_compBits, hlen]
  unfold sigCompressedMaxsizeOf
  rw [Nat.shiftRight_eq_div_pow _ 3]
  omega

/-- `comp_encode` never fails on such a vector, in a buffer of that size. -/
theorem compEncode_fits {logn : Nat} (hpos : 1 ≤ logn) (hlogn : logn ≤ 10) {sv : List Int16}
    (hlen : sv.length = 2 ^ logn) (hvalid : ∀ c ∈ sv, Codec.compCode.Valid c)
    (hshort : ∑ k ∈ range (2 ^ logn), ints sv k ^ 2 ≤ (l2bound.getD logn 0).toNat) :
    ∃ out, Codec.compEncode (sigCompressedMaxsizeOf logn - 41) sv = some out := by
  obtain ⟨out, hpacks, _⟩ := @Codec.compLoop_spec 0 sv .empty []
    (by show 0 < 8; omega) (le_refl _) hvalid
  have hfits := packs_fits hpos hlogn hlen hshort hpacks
  exact ⟨out, Codec.compEncode_eq_some.mpr ⟨hvalid, by omega, hpacks⟩⟩

end Trelyan.Falcon.Verify
