import Mathlib.Algebra.Order.Ring.Int
import Mathlib.Tactic.Linarith
import Mathlib.Tactic.Ring
import Trelyan.Lib.Bits

/-!
# The norm test of `common.c`

`is_short` adds up squares in 32 bits.  One square is below `2^31`, so the sum cannot pass
from below `2^31` to a wrap in one step: it is once seen with its high bit set, `ng` keeps
this bit, and the result saturates (`NormInv`).  The test is therefore the one on the exact
sum (`isShort_iff`, `isShortHalf_iff`).
-/

namespace Trelyan.Falcon.Vrfy

/-- `l2bound`. -/
def l2bound : List UInt32 :=
  [0, 101498, 208714, 428865, 892039, 1852696, 3842630, 7959734, 16468416, 34034726, 70265242]

/-- `s += (uint32_t)(z * z); ng |= s;`. -/
def normStep (t : UInt32 × UInt32) (z : Int16) : UInt32 × UInt32 :=
  let s := t.1 + (z.toInt32 * z.toInt32).toUInt32
  (s, t.2 ||| s)

/-- `s |= -(ng >> 31); return s <= l2bound[logn];`. -/
def normTest (logn : Nat) (t : UInt32 × UInt32) : Bool :=
  (t.1 ||| -(t.2 >>> 31)) ≤ l2bound.getD logn 0

/-- `Zf(is_short)`. -/
def isShort (logn : Nat) (s1 s2 : List Int16) : Bool :=
  normTest logn ((s1.zip s2).foldl (fun t p => normStep (normStep t p.1) p.2) (0, 0))

/-- `Zf(is_short_half)`. -/
def isShortHalf (logn : Nat) (sqn : UInt32) (s2 : List Int16) : Bool :=
  normTest logn (s2.foldl normStep (sqn, -(sqn >>> 31)))

/-- The sum of the squares. -/
def sqNorm (s : List Int16) : Int := (s.map fun z => z.toInt ^ 2).sum

@[simp] theorem sqNorm_nil : sqNorm [] = 0 := rfl

@[simp] theorem sqNorm_cons (z : Int16) (s : List Int16) :
    sqNorm (z :: s) = z.toInt ^ 2 + sqNorm s := rfl

/-- `s` is the exact sum as long as this is below `2^31`, and from then on `ng` has its high
bit set. -/
structure NormInv (t : UInt32 × UInt32) (sum : Int) : Prop where
  exact : sum < 2 ^ 31 → (t.1.toNat : Int) = sum ∧ t.2.toNat < 2 ^ 31
  large : 2 ^ 31 ≤ sum → 2 ^ 31 ≤ t.2.toNat

theorem sq_le (z : Int16) : z.toInt ^ 2 ≤ 2 ^ 30 := by
  have hlo := z.le_toInt
  have hhi := z.toInt_lt
  nlinarith

/-- A square below `2^31` does not wrap. -/
theorem mul_self_toNat {z : Int32} (hlt : z.toInt ^ 2 < 2 ^ 31) :
    ((z * z).toUInt32.toNat : Int) = z.toInt ^ 2 := by
  have hnonneg := sq_nonneg z.toInt
  have hmul : (z * z).toInt = z.toInt ^ 2 := by
    rw [Int32.toInt_mul, ← sq]
    exact Int.bmod_eq_of_le (by omega) (by omega)
  have hword : (z * z).toInt = if 2 * (z * z).toUInt32.toNat < 2 ^ 32 then
      ((z * z).toUInt32.toNat : Int) else ((z * z).toUInt32.toNat : Int) - (2 ^ 32 : Nat) :=
    BitVec.toInt_eq_toNat_cond ..
  have hlt := (z * z).toUInt32.toNat_lt
  rw [hmul] at hword
  split_ifs at hword <;> omega

theorem square_toNat (z : Int16) :
    ((z.toInt32 * z.toInt32).toUInt32.toNat : Int) = z.toInt ^ 2 := by
  have hle := sq_le z
  have h := mul_self_toNat (z := z.toInt32) (by rw [Int16.toInt_toInt32]; omega)
  rwa [Int16.toInt_toInt32] at h

/-- Adding a word of at most `2^31`. -/
theorem NormInv.add {t : UInt32 × UInt32} {sum : Int} (h : NormInv t sum) (hsum : 0 ≤ sum)
    {w : UInt32} (hle : w.toNat ≤ 2 ^ 31) :
    NormInv (t.1 + w, t.2 ||| (t.1 + w)) (sum + w.toNat) := by
  have hor : (t.2 ||| (t.1 + w)).toNat = t.2.toNat ||| (t.1 + w).toNat := UInt32.toNat_or ..
  have hadd : (t.1 + w).toNat = (t.1.toNat + w.toNat) % 2 ^ 32 := UInt32.toNat_add ..
  by_cases hsmall : sum < 2 ^ 31
  · obtain ⟨hexact, hng⟩ := h.exact hsmall
    have hval : ((t.1 + w).toNat : Int) = sum + w.toNat := by
      rw [hadd]
      omega
    constructor
    · intro hlt
      refine ⟨hval, ?_⟩
      dsimp only
      rw [hor]
      exact Nat.or_lt_two_pow hng (by omega)
    · intro hover
      have hright : (t.1 + w).toNat ≤ (t.2 ||| (t.1 + w)).toNat := by
        rw [hor]
        exact Nat.right_le_or
      show 2 ^ 31 ≤ (t.2 ||| (t.1 + w)).toNat
      omega
  · constructor
    · intro hlt
      omega
    · intro _
      have hleft : t.2.toNat ≤ (t.2 ||| (t.1 + w)).toNat := by
        rw [hor]
        exact Nat.left_le_or
      have hover := h.large (by omega)
      show 2 ^ 31 ≤ (t.2 ||| (t.1 + w)).toNat
      omega

theorem NormInv.step {t : UInt32 × UInt32} {sum : Int} (h : NormInv t sum) (hsum : 0 ≤ sum)
    (z : Int16) : NormInv (normStep t z) (sum + z.toInt ^ 2) := by
  have hle := sq_le z
  have hsq := square_toNat z
  rw [← hsq]
  exact h.add hsum (by omega)

theorem NormInv.foldl {t : UInt32 × UInt32} {sum : Int} (h : NormInv t sum) (hsum : 0 ≤ sum)
    (s : List Int16) : NormInv (s.foldl normStep t) (sum + sqNorm s) := by
  induction s generalizing t sum with
  | nil => simpa using h
  | cons z s ih =>
    rw [List.foldl_cons, sqNorm_cons, ← Int.add_assoc]
    have hz := sq_nonneg z.toInt
    exact ih (h.step hsum z) (by omega)

/-- Every bound is below the saturated value, and below `2^31`. -/
theorem l2bound_lt (logn : Nat) : (l2bound.getD logn 0).toNat < 2 ^ 31 := by
  have hall : ∀ b ∈ l2bound, b.toNat < 2147483648 := by simp [l2bound]
  rw [List.getD_eq_getElem?_getD]
  cases h : l2bound[logn]? with
  | none => exact Nat.two_pow_pos 31
  | some b =>
    have hb := hall b (List.mem_of_getElem? h)
    show b.toNat < 2 ^ 31
    omega

/-- `s |= -(ng >> 31)` saturates. -/
theorem NormInv.saturated {t : UInt32 × UInt32} {sum : Int} (h : NormInv t sum) :
    (sum < 2 ^ 31 → ((t.1 ||| -(t.2 >>> 31)).toNat : Int) = sum) ∧
      (2 ^ 31 ≤ sum → (t.1 ||| -(t.2 >>> 31)).toNat = 2 ^ 32 - 1) := by
  rw [UInt32.toNat_or, Bits.shift_31]
  constructor
  · intro hsmall
    obtain ⟨hexact, hng⟩ := h.exact hsmall
    rw [if_neg (by omega), show (-(0 : UInt32)).toNat = 0 from rfl, Nat.or_zero]
    exact hexact
  · intro hover
    have hall : t.1.toNat ||| (2 ^ 32 - 1) < 2 ^ 32 := Nat.or_lt_two_pow t.1.toNat_lt (by omega)
    have hright : 2 ^ 32 - 1 ≤ t.1.toNat ||| (2 ^ 32 - 1) := Nat.right_le_or
    rw [if_pos (h.large hover), show (-(1 : UInt32)).toNat = 2 ^ 32 - 1 from rfl]
    omega

theorem NormInv.test {t : UInt32 × UInt32} {sum : Int} (h : NormInv t sum) (logn : Nat) :
    normTest logn t = true ↔ sum ≤ (l2bound.getD logn 0).toNat := by
  have hbound := l2bound_lt logn
  obtain ⟨hexact, hover⟩ := h.saturated
  unfold normTest
  rw [decide_eq_true_iff, UInt32.le_iff_toNat_le]
  by_cases hsmall : sum < 2 ^ 31
  · have hval := hexact hsmall
    omega
  · have hmax := hover (by omega)
    omega

/-- The saturating 32-bit test is the test on the exact norm. -/
theorem isShort_iff {logn : Nat} {s1 s2 : List Int16} (hlen : s1.length = s2.length) :
    isShort logn s1 s2 = true ↔ sqNorm s1 + sqNorm s2 ≤ (l2bound.getD logn 0).toNat := by
  have hloop : ∀ (s1 s2 : List Int16) (t : UInt32 × UInt32) (sum : Int), s1.length = s2.length →
      NormInv t sum → 0 ≤ sum →
      NormInv ((s1.zip s2).foldl (fun t p => normStep (normStep t p.1) p.2) t)
        (sum + (sqNorm s1 + sqNorm s2)) := by
    intro s1
    induction s1 with
    | nil =>
      intro s2 t sum hlen h _
      rw [List.length_eq_zero_iff.mp hlen.symm]
      simpa using h
    | cons y s1 ih =>
      intro s2 t sum hlen h hsum
      cases s2 with
      | nil => simp at hlen
      | cons z s2 =>
        have hy := sq_nonneg y.toInt
        have hz := sq_nonneg z.toInt
        have hnext := ih s2 _ _ (by simpa using hlen) ((h.step hsum y).step (by omega) z)
          (by omega)
        rw [List.zip_cons_cons, List.foldl_cons, sqNorm_cons, sqNorm_cons]
        rwa [show sum + (y.toInt ^ 2 + sqNorm s1 + (z.toInt ^ 2 + sqNorm s2)) =
          sum + y.toInt ^ 2 + z.toInt ^ 2 + (sqNorm s1 + sqNorm s2) by ring]
  have hstart : NormInv (0, 0) 0 := ⟨fun _ => ⟨rfl, by decide⟩, fun h => absurd h (by decide)⟩
  have h := hloop s1 s2 (0, 0) 0 hlen hstart (le_refl _)
  rw [zero_add] at h
  exact h.test logn

/-- The same, with the first half of the norm given. -/
theorem isShortHalf_iff {logn : Nat} {sqn : UInt32} {s2 : List Int16} :
    isShortHalf logn sqn s2 = true ↔
      (sqn.toNat : Int) + sqNorm s2 ≤ (l2bound.getD logn 0).toNat := by
  have hstart : NormInv (sqn, -(sqn >>> 31)) sqn.toNat := by
    rw [Bits.shift_31]
    constructor
    · intro hsmall
      rw [if_neg (by omega)]
      exact ⟨rfl, Nat.two_pow_pos 31⟩
    · intro hover
      rw [if_pos (by omega)]
      show 2 ^ 31 ≤ (-(1 : UInt32)).toNat
      decide
  exact (hstart.foldl (by omega) s2).test logn

end Trelyan.Falcon.Vrfy
