import Mathlib.Algebra.Polynomial.Div
import Mathlib.Algebra.BigOperators.Intervals
import Mathlib.Data.List.GetD
import Mathlib.Tactic.Ring
import Mathlib.Tactic.LinearCombination

/-!
# The in-place number-theoretic transform

A layer of the transform splits an array into `m` blocks of `2 * half` entries, and
replaces, in block `i`, the entries `j` and `j + half` by the two results of a butterfly with
the table entry `g (m + i)`.  `forward` runs the layers `m = 1, 2, 4, ..`, and `backward`
the same layers in the opposite order.  Both work on words of any kind: the butterfly is a
parameter.

`layerFn` is a layer as a function of positions.  Over a commutative ring, and for a table
`g` of square roots (`Roots`), the forward transform evaluates a polynomial at the roots of
`X^n + 1` (`forwardFn_eq`), the backward transform undoes it up to the factor `n`
(`backwardFn_forwardFn`), and the transform of a product modulo `X^n + 1` is the product of
the transforms entry by entry (`forwardFn_mulMod`).  `Represents` carries this to arrays of words.
-/

namespace Trelyan.Ntt

open Finset Polynomial

/-! ## The loops -/

section Loops

variable {α β : Type} [Inhabited α]

/-- The entries `j` and `j + half`, replaced. -/
def butterfly (bf : β → α → α → α × α) (s : β) (half j : Nat) (a : List α) : List α :=
  let w := bf s (a.getD j default) (a.getD (j + half) default)
  (a.set j w.1).set (j + half) w.2

/-- `for (j = j1; j < j1 + half; j ++)`, as far as `k` steps. -/
def block (bf : β → α → α → α × α) (s : β) (half j1 k : Nat) (a : List α) : List α :=
  (List.range k).foldl (fun a j => butterfly bf s half (j1 + j) a) a

/-- `for (i = 0, j1 = 0; i < m; i ++, j1 += 2 * half)`, as far as `k` steps. -/
def blocks (bf : β → α → α → α × α) (g : Nat → β) (m half k : Nat) (a : List α) : List α :=
  (List.range k).foldl (fun a i => block bf (g (m + i)) half (i * (2 * half)) half a) a

/-- One layer. -/
def layer (bf : β → α → α → α × α) (g : Nat → β) (m half : Nat) (a : List α) : List α :=
  blocks bf g m half m a

/-- The layers `m = 1, 2, 4, ..`, as far as `k` of them. -/
def forward (bf : β → α → α → α × α) (g : Nat → β) (logn : Nat) : Nat → List α → List α
  | 0, a => a
  | l + 1, a => layer bf g (2 ^ l) (2 ^ (logn - 1 - l)) (forward bf g logn l a)

/-- The layers `.., 4, 2, 1 = m`, the last `k` of them. -/
def backward (bf : β → α → α → α × α) (g : Nat → β) (logn : Nat) : Nat → List α → List α
  | 0, a => a
  | l + 1, a => backward bf g logn l (layer bf g (2 ^ l) (2 ^ (logn - 1 - l)) a)

/-- What a layer leaves at position `p` of an array with the entries `f`. -/
def layerFn (bf : β → α → α → α × α) (g : Nat → β) (m half : Nat) (f : Nat → α) (p : Nat) : α :=
  let s := g (m + p / (2 * half))
  if p % (2 * half) < half then (bf s (f p) (f (p + half))).1
  else (bf s (f (p - half)) (f p)).2

/-- `forward` as a function of positions. -/
def forwardFn (bf : β → α → α → α × α) (g : Nat → β) (logn : Nat) :
    Nat → (Nat → α) → Nat → α
  | 0, f => f
  | l + 1, f => layerFn bf g (2 ^ l) (2 ^ (logn - 1 - l)) (forwardFn bf g logn l f)

/-- `backward` as a function of positions. -/
def backwardFn (bf : β → α → α → α × α) (g : Nat → β) (logn : Nat) :
    Nat → (Nat → α) → Nat → α
  | 0, f => f
  | l + 1, f => backwardFn bf g logn l (layerFn bf g (2 ^ l) (2 ^ (logn - 1 - l)) f)

variable {bf : β → α → α → α × α}

theorem getD_set {a : List α} {i : Nat} (hi : i < a.length) (v : α) (p : Nat) :
    (a.set i v).getD p default = if p = i then v else a.getD p default := by
  rw [List.getD_eq_getElem?_getD, List.getD_eq_getElem?_getD, List.getElem?_set]
  by_cases h : i = p
  · rw [if_pos h, if_pos h.symm, if_pos hi]
    rfl
  · rw [if_neg h, if_neg (Ne.symm h)]

@[simp] theorem length_butterfly (s : β) (half j : Nat) (a : List α) :
    (butterfly bf s half j a).length = a.length := by
  simp [butterfly]

@[simp] theorem length_block (s : β) (half j1 k : Nat) (a : List α) :
    (block bf s half j1 k a).length = a.length := by
  induction k with
  | zero => rfl
  | succ k ih =>
    rw [block, List.range_succ, List.foldl_append]
    exact (length_butterfly ..).trans ih

@[simp] theorem length_blocks (g : Nat → β) (m half k : Nat) (a : List α) :
    (blocks bf g m half k a).length = a.length := by
  induction k with
  | zero => rfl
  | succ k ih =>
    rw [blocks, List.range_succ, List.foldl_append]
    exact (length_block ..).trans ih

theorem getD_butterfly {s : β} {half j : Nat} (hhalf : 0 < half) {a : List α}
    (hj : j + half < a.length) (p : Nat) :
    (butterfly bf s half j a).getD p default =
      if p = j then (bf s (a.getD j default) (a.getD (j + half) default)).1
      else if p = j + half then (bf s (a.getD j default) (a.getD (j + half) default)).2
      else a.getD p default := by
  unfold butterfly
  dsimp only
  rw [getD_set (by rw [List.length_set]; exact hj), getD_set (by omega)]
  by_cases h : p = j
  · rw [if_neg (by omega), if_pos h, if_pos h]
  · rw [if_neg h, if_neg h]

/-- After `k` steps of a block the pairs up to `k` are replaced, each from the entries that
it had at the start. -/
theorem getD_block {s : β} {half j1 k : Nat} {a : List α} (hk : k ≤ half)
    (ha : j1 + 2 * half ≤ a.length) (p : Nat) :
    (block bf s half j1 k a).getD p default =
      if j1 ≤ p ∧ p < j1 + k then
        (bf s (a.getD p default) (a.getD (p + half) default)).1
      else if j1 + half ≤ p ∧ p < j1 + half + k then
        (bf s (a.getD (p - half) default) (a.getD p default)).2
      else a.getD p default := by
  induction k generalizing p with
  | zero =>
    rw [if_neg (by omega), if_neg (by omega)]
    rfl
  | succ k ih =>
    have hstep : block bf s half j1 (k + 1) a =
        butterfly bf s half (j1 + k) (block bf s half j1 k a) := by
      rw [block, List.range_succ, List.foldl_append]
      rfl
    have hlow : (block bf s half j1 k a).getD (j1 + k) default = a.getD (j1 + k) default := by
      rw [ih (by omega), if_neg (by omega), if_neg (by omega)]
    have hhigh : (block bf s half j1 k a).getD (j1 + k + half) default =
        a.getD (j1 + k + half) default := by
      rw [ih (by omega), if_neg (by omega), if_neg (by omega)]
    rw [hstep, getD_butterfly (by omega) (by rw [length_block]; omega), hlow, hhigh]
    by_cases h1 : p = j1 + k
    · rw [if_pos h1, if_pos (by omega), h1]
    · rw [if_neg h1]
      by_cases h2 : p = j1 + k + half
      · rw [if_pos h2, if_neg (by omega), if_pos (by omega), h2,
          show j1 + k + half - half = j1 + k by omega]
      · rw [if_neg h2, ih (by omega)]
        split_ifs <;> first | rfl | omega

/-- After `k` blocks the positions below are those of the layer, and the others are as they
were. -/
theorem getD_blocks {g : Nat → β} {m half k : Nat} (hhalf : 0 < half) {a : List α}
    (ha : k * (2 * half) ≤ a.length) (p : Nat) :
    (blocks bf g m half k a).getD p default =
      if p < k * (2 * half) then layerFn bf g m half (fun p => a.getD p default) p
      else a.getD p default := by
  induction k generalizing p with
  | zero =>
    rw [if_neg (by omega)]
    rfl
  | succ k ih =>
    have hmul : (k + 1) * (2 * half) = k * (2 * half) + 2 * half := Nat.succ_mul ..
    have hstep : blocks bf g m half (k + 1) a =
        block bf (g (m + k)) half (k * (2 * half)) half (blocks bf g m half k a) := by
      rw [blocks, List.range_succ, List.foldl_append]
      rfl
    have hkeep : ∀ p, k * (2 * half) ≤ p →
        (blocks bf g m half k a).getD p default = a.getD p default := by
      intro p hp
      rw [ih (by omega), if_neg (by omega)]
    rw [hstep, getD_block (le_refl _) (by rw [length_blocks]; omega)]
    by_cases hdone : p < k * (2 * half)
    · rw [if_neg (by omega), if_neg (by omega), ih (by omega), if_pos hdone, if_pos (by omega)]
    · by_cases hin : p < (k + 1) * (2 * half)
      · -- the block of `p` is the one of this step
        have hdiv : p / (2 * half) = k :=
          Nat.div_eq_of_lt_le (by omega) (by omega)
        have hmod : p % (2 * half) = p - k * (2 * half) := by
          have h := Nat.div_add_mod p (2 * half)
          rw [hdiv, Nat.mul_comm] at h
          omega
        rw [if_pos hin, layerFn, hdiv, hmod]
        by_cases hlow : p - k * (2 * half) < half
        · rw [if_pos (by omega), if_pos hlow, hkeep p (by omega), hkeep (p + half) (by omega)]
        · rw [if_neg (by omega), if_pos (by omega), if_neg hlow, hkeep p (by omega),
            hkeep (p - half) (by omega)]
      · rw [if_neg (by omega), if_neg (by omega), if_neg hin, hkeep p (by omega)]

theorem getD_layer {g : Nat → β} {m half : Nat} (hhalf : 0 < half) {a : List α}
    (ha : a.length = m * (2 * half)) {p : Nat} (hp : p < a.length) :
    (layer bf g m half a).getD p default =
      layerFn bf g m half (fun p => a.getD p default) p := by
  rw [layer, getD_blocks hhalf (by omega), if_pos (by omega)]

@[simp] theorem length_layer (g : Nat → β) (m half : Nat) (a : List α) :
    (layer bf g m half a).length = a.length := length_blocks ..

omit [Inhabited α] in
/-- A layer reads nothing outside the array. -/
theorem layerFn_congr {g : Nat → β} {f v : Nat → α} {m half : Nat}
    (h : ∀ p < m * (2 * half), f p = v p) {p : Nat} (hp : p < m * (2 * half)) :
    layerFn bf g m half f p = layerFn bf g m half v p := by
  have hi : p / (2 * half) < m := Nat.div_lt_of_lt_mul (by rwa [Nat.mul_comm])
  have hp' := Nat.div_add_mod p (2 * half)
  have hblock : 2 * half * (p / (2 * half)) + 2 * half ≤ m * (2 * half) := by
    rw [← Nat.mul_succ, Nat.mul_comm m]
    exact Nat.mul_le_mul_left _ hi
  unfold layerFn
  dsimp only
  split_ifs with hr
  · rw [h p hp, h (p + half) (by omega)]
  · rw [h p hp, h (p - half) (by omega)]

end Loops

/-! ## Over a ring -/

section Ring

variable {R : Type} [CommRing R]

/-- The butterfly of the forward transform. -/
def ct (s u v : R) : R × R := (u + v * s, u - v * s)

/-- The butterfly of the backward transform. -/
def gs (s u v : R) : R × R := (u + v, (u - v) * s)

/-- The number of which the entry `k` of the table is a square root. -/
def root (g : Nat → R) (k : Nat) : R :=
  if k ≤ 1 then -1 else if k % 2 = 0 then g (k / 2) else -g (k / 2)

/-- The entries below `n` are iterated square roots of `-1`. -/
def Roots (g : Nat → R) (n : Nat) : Prop := ∀ k, 1 ≤ k → k < n → g k ^ 2 = root g k

variable {g : Nat → R} {f f' : Nat → R}

theorem root_even {k : Nat} (hk : 1 ≤ k) : root g (2 * k) = g k := by
  rw [root, if_neg (by omega), if_pos (by omega), Nat.mul_div_cancel_left _ (by omega)]

theorem root_odd {k : Nat} (hk : 1 ≤ k) : root g (2 * k + 1) = -g k := by
  rw [root, if_neg (by omega), if_neg (by omega), show (2 * k + 1) / 2 = k by omega]

/-- The entries of the last layer are the roots of `X^n + 1`. -/
theorem root_pow {n : Nat} (hg : Roots g n) {l i : Nat} (hl : 2 ^ l ≤ n) (hi : i < 2 ^ l) :
    root g (2 ^ l + i) ^ 2 ^ l = -1 := by
  induction l generalizing i with
  | zero =>
    rw [show 2 ^ 0 + i = 1 by omega]
    simp [root]
  | succ l ih =>
    rw [Nat.pow_succ] at hl hi
    have hpos := Nat.two_pow_pos l
    have hsq : root g (2 ^ (l + 1) + i) ^ 2 = root g (2 ^ l + i / 2) := by
      rw [← hg (2 ^ l + i / 2) (by omega) (by omega), Nat.pow_succ]
      rcases Nat.even_or_odd' i with ⟨c, hc | hc⟩
      · rw [hc, show 2 ^ l * 2 + 2 * c = 2 * (2 ^ l + c) by ring, root_even (by omega),
          Nat.mul_div_cancel_left _ (by omega)]
      · rw [hc, show 2 ^ l * 2 + (2 * c + 1) = 2 * (2 ^ l + c) + 1 by ring, root_odd (by omega),
          show (2 * c + 1) / 2 = c by omega, neg_sq]
    rw [show 2 ^ (l + 1) = 2 * 2 ^ l from Nat.pow_succ', pow_mul,
      show 2 * 2 ^ l = 2 ^ (l + 1) from Nat.pow_succ'.symm, hsq]
    exact ih (by omega) (by omega)

/-- Entry by entry, a polynomial modulo `X^t - root g (m + i)` for each block `i`. -/
def remainders (g : Nat → R) (m t : Nat) (f : Nat → R) (p : Nat) : R :=
  ∑ k ∈ range m, f (p % t + k * t) * root g (m + p / t) ^ k

theorem sum_range_two_mul (F : Nat → R) (m : Nat) :
    ∑ k ∈ range (2 * m), F k = ∑ k ∈ range m, (F (2 * k) + F (2 * k + 1)) := by
  induction m with
  | zero => rfl
  | succ m ih =>
    rw [show 2 * (m + 1) = 2 * m + 1 + 1 by ring, sum_range_succ, sum_range_succ, ih,
      sum_range_succ, add_assoc]

/-- A layer splits every block: `X^(2 half) - s^2 = (X^half - s) (X^half + s)`. -/
theorem layerFn_remainders {n m half : Nat} (hg : Roots g n) (hm : 1 ≤ m) (hmn : 2 * m ≤ n)
    (hhalf : 0 < half) {p : Nat} (hp : p < m * (2 * half)) :
    layerFn ct g m half (remainders g m (2 * half) f) p = remainders g (2 * m) half f p := by
  have hi : p / (2 * half) < m := Nat.div_lt_of_lt_mul (by rwa [Nat.mul_comm])
  have hsq := hg (m + p / (2 * half)) (le_trans hm (Nat.le_add_right _ _)) (by omega)
  have hp' := Nat.div_add_mod p (2 * half)
  have hmod := Nat.mod_lt p (show 0 < 2 * half by omega)
  unfold layerFn remainders
  dsimp only
  generalize p / (2 * half) = i at hi hsq hp' ⊢
  generalize p % (2 * half) = r at hp' hmod ⊢
  rw [sum_range_two_mul]
  split_ifs with hr
  · -- the low half: modulo `X^half - s`
    have hdiv : p / half = 2 * i := by
      rw [← hp', show 2 * half * i + r = r + half * (2 * i) by ring,
        Nat.add_mul_div_left _ _ hhalf, Nat.div_eq_of_lt hr, Nat.zero_add]
    have hrem : p % half = r := by
      rw [← hp', show 2 * half * i + r = r + half * (2 * i) by ring,
        Nat.add_mul_mod_self_left, Nat.mod_eq_of_lt hr]
    have hdiv2 : (p + half) / (2 * half) = i := by
      rw [← hp', show 2 * half * i + r + half = r + half + 2 * half * i by ring,
        Nat.add_mul_div_left _ _ (by omega), Nat.div_eq_of_lt (by omega), Nat.zero_add]
    have hrem2 : (p + half) % (2 * half) = r + half := by
      rw [← hp', show 2 * half * i + r + half = r + half + 2 * half * i by ring,
        Nat.add_mul_mod_self_left, Nat.mod_eq_of_lt (by omega)]
    rw [hdiv, hrem, hdiv2, hrem2, show 2 * m + 2 * i = 2 * (m + i) by ring,
      root_even (by omega), ct, ← hsq]
    dsimp only
    rw [sum_mul, ← sum_add_distrib]
    refine sum_congr rfl fun k _ => ?_
    rw [show r + 2 * k * half = r + k * (2 * half) by ring,
      show r + (2 * k + 1) * half = r + half + k * (2 * half) by ring]
    ring
  · -- the high half: modulo `X^half + s`
    have hdiv : p / half = 2 * i + 1 := by
      rw [← hp', show 2 * half * i + r = r + half * (2 * i) by ring,
        Nat.add_mul_div_left _ _ hhalf]
      have h1 : r / half = 1 := Nat.div_eq_of_lt_le (by omega) (by omega)
      omega
    have hrem : p % half = r - half := by
      have h1 : r / half = 1 := Nat.div_eq_of_lt_le (by omega) (by omega)
      have h2 := Nat.div_add_mod r half
      rw [← hp', show 2 * half * i + r = r + half * (2 * i) by ring,
        Nat.add_mul_mod_self_left]
      rw [h1] at h2
      omega
    have hdiv2 : (p - half) / (2 * half) = i := by
      rw [show p - half = r - half + 2 * half * i by omega,
        Nat.add_mul_div_left _ _ (by omega), Nat.div_eq_of_lt (by omega), Nat.zero_add]
    have hrem2 : (p - half) % (2 * half) = r - half := by
      rw [show p - half = r - half + 2 * half * i by omega, Nat.add_mul_mod_self_left,
        Nat.mod_eq_of_lt (by omega)]
    rw [hdiv, hrem, hdiv2, hrem2, show 2 * m + (2 * i + 1) = 2 * (m + i) + 1 by ring,
      root_odd (by omega), ct, ← hsq]
    dsimp only
    rw [sum_mul, ← sum_sub_distrib]
    refine sum_congr rfl fun k _ => ?_
    rw [show r - half + 2 * k * half = r - half + k * (2 * half) by ring,
      show r - half + (2 * k + 1) * half = r - half + half + k * (2 * half) by ring,
      show r - half + half = r by omega, pow_succ (-g (m + i)) (2 * k),
      pow_mul (-g (m + i)) 2 k, neg_sq]
    ring

theorem two_pow_split {logn l : Nat} (hl : l < logn) :
    2 ^ l * (2 * 2 ^ (logn - 1 - l)) = 2 ^ logn := by
  rw [← Nat.pow_succ', ← Nat.pow_add, show l + (logn - 1 - l).succ = logn by omega]

/-- After `l` layers every block holds the remainder of its factor. -/
theorem forwardFn_remainders {logn : Nat} (hg : Roots g (2 ^ logn)) {l : Nat} (hl : l ≤ logn)
    {p : Nat} (hp : p < 2 ^ logn) :
    forwardFn ct g logn l f p = remainders g (2 ^ l) (2 ^ (logn - l)) f p := by
  induction l generalizing p with
  | zero => simp [forwardFn, remainders, Nat.mod_eq_of_lt hp]
  | succ l ih =>
    have hsplit := two_pow_split (show l < logn by omega)
    have hdouble : 2 * 2 ^ (logn - 1 - l) = 2 ^ (logn - l) := by
      rw [← Nat.pow_succ', show (logn - 1 - l).succ = logn - l by omega]
    rw [forwardFn, layerFn_congr (v := remainders g (2 ^ l) (2 * 2 ^ (logn - 1 - l)) f),
      layerFn_remainders hg Nat.one_le_two_pow _ (Nat.two_pow_pos _) (by rwa [hsplit]),
      ← Nat.pow_succ', show logn - (l + 1) = logn - 1 - l by omega]
    · rw [← Nat.pow_succ']
      exact Nat.pow_le_pow_right (by omega) hl
    · intro p hp
      rw [hsplit] at hp
      rw [ih (by omega) hp, hdouble]
    · rwa [hsplit]

/-- The polynomial with the coefficients `f 0, .., f (n - 1)`. -/
noncomputable def poly (n : Nat) (f : Nat → R) : R[X] := ∑ k ∈ range n, monomial k (f k)

theorem eval_poly (n : Nat) (f : Nat → R) (x : R) :
    (poly n f).eval x = ∑ k ∈ range n, f k * x ^ k := by
  simp [poly, eval_finsetSum]

/-- The forward transform evaluates a polynomial at the roots of `X^n + 1`. -/
theorem forwardFn_eq {logn : Nat} (hg : Roots g (2 ^ logn)) {p : Nat} (hp : p < 2 ^ logn) :
    forwardFn ct g logn logn f p = (poly (2 ^ logn) f).eval (root g (2 ^ logn + p)) := by
  rw [forwardFn_remainders hg (le_refl _) hp, eval_poly, remainders]
  simp [Nat.mod_one]

/-! ## Back again -/

/-- A backward layer undoes the forward layer with inverse table entries, up to a factor. -/
theorem layerFn_gs_ct {g' : Nat → R} {m half : Nat} (hhalf : 0 < half)
    (hinv : ∀ i < m, g (m + i) * g' (m + i) = 1) {p : Nat} (hp : p < m * (2 * half)) :
    layerFn gs g' m half (layerFn ct g m half f) p = 2 * f p ∧
      layerFn ct g m half (layerFn gs g' m half f) p = 2 * f p := by
  have hi : p / (2 * half) < m := Nat.div_lt_of_lt_mul (by rwa [Nat.mul_comm])
  have hs := hinv _ hi
  have hp' := Nat.div_add_mod p (2 * half)
  have hmod := Nat.mod_lt p (show 0 < 2 * half by omega)
  by_cases hr : p % (2 * half) < half
  · have hdiv : (p + half) / (2 * half) = p / (2 * half) := by
      rw [show p + half = p % (2 * half) + half + 2 * half * (p / (2 * half)) by omega,
        Nat.add_mul_div_left _ _ (by omega), Nat.div_eq_of_lt (by omega), Nat.zero_add]
    have hrem : ¬ (p + half) % (2 * half) < half := by
      rw [show p + half = p % (2 * half) + half + 2 * half * (p / (2 * half)) by omega,
        Nat.add_mul_mod_self_left, Nat.mod_eq_of_lt (by omega)]
      omega
    unfold layerFn
    simp only [if_pos hr, hdiv, if_neg hrem, Nat.add_sub_cancel, gs, ct]
    constructor
    · ring
    · linear_combination (f p - f (p + half)) * hs
  · have hdiv : (p - half) / (2 * half) = p / (2 * half) := by
      rw [show p - half = p % (2 * half) - half + 2 * half * (p / (2 * half)) by omega,
        Nat.add_mul_div_left _ _ (by omega), Nat.div_eq_of_lt (by omega), Nat.zero_add]
    have hrem : (p - half) % (2 * half) < half := by
      rw [show p - half = p % (2 * half) - half + 2 * half * (p / (2 * half)) by omega,
        Nat.add_mul_mod_self_left, Nat.mod_eq_of_lt (by omega)]
      omega
    have hback : p - half + half = p := by
      have hle := Nat.mod_le p (2 * half)
      omega
    unfold layerFn
    simp only [if_neg hr, hdiv, if_pos hrem, hback, gs, ct]
    constructor
    · linear_combination 2 * f p * hs
    · linear_combination (f p - f (p - half)) * hs

theorem layerFn_smul {bf : R → R → R → R × R} {m half : Nat} (c : R)
    (hbf : ∀ s u v, bf s (c * u) (c * v) = (c * (bf s u v).1, c * (bf s u v).2)) (p : Nat) :
    layerFn bf g m half (fun p => c * f p) p = c * layerFn bf g m half f p := by
  unfold layerFn
  simp only [hbf]
  split_ifs <;> rfl

theorem gs_smul (c s u v : R) : gs s (c * u) (c * v) = (c * (gs s u v).1, c * (gs s u v).2) := by
  simp only [gs, Prod.mk.injEq]
  constructor <;> ring

theorem ct_smul (c s u v : R) : ct s (c * u) (c * v) = (c * (ct s u v).1, c * (ct s u v).2) := by
  simp only [ct, Prod.mk.injEq]
  constructor <;> ring

theorem backwardFn_congr {logn l : Nat} (hl : l ≤ logn) (h : ∀ p < 2 ^ logn, f p = f' p)
    {p : Nat} (hp : p < 2 ^ logn) :
    backwardFn gs g logn l f p = backwardFn gs g logn l f' p := by
  induction l generalizing f f' with
  | zero => exact h p hp
  | succ l ih =>
    have hsplit := two_pow_split (show l < logn by omega)
    refine ih (by omega) fun p hp => layerFn_congr ?_ (by rwa [hsplit])
    rwa [hsplit]

theorem forwardFn_congr {logn l : Nat} (hl : l ≤ logn) (h : ∀ p < 2 ^ logn, f p = f' p)
    {p : Nat} (hp : p < 2 ^ logn) :
    forwardFn ct g logn l f p = forwardFn ct g logn l f' p := by
  induction l generalizing p with
  | zero => exact h p hp
  | succ l ih =>
    have hsplit := two_pow_split (show l < logn by omega)
    refine layerFn_congr (fun p hp => ih (by omega) ?_) (by rwa [hsplit])
    rwa [hsplit] at hp

theorem backwardFn_smul {logn l : Nat} (c : R) (p : Nat) :
    backwardFn gs g logn l (fun p => c * f p) p = c * backwardFn gs g logn l f p := by
  induction l generalizing f with
  | zero => rfl
  | succ l ih =>
    have hlayer : layerFn gs g (2 ^ l) (2 ^ (logn - 1 - l)) (fun p => c * f p) =
        fun p => c * layerFn gs g (2 ^ l) (2 ^ (logn - 1 - l)) f p :=
      funext fun p => layerFn_smul c (gs_smul c) p
    rw [backwardFn, backwardFn, hlayer, ih]

theorem forwardFn_smul {logn l : Nat} (c : R) :
    forwardFn ct g logn l (fun p => c * f p) = fun p => c * forwardFn ct g logn l f p := by
  induction l with
  | zero => rfl
  | succ l ih =>
    rw [forwardFn, forwardFn, ih]
    exact funext fun p => layerFn_smul c (ct_smul c) p

/-- The table `g'` holds the inverses of the table `g`. -/
def Inverse (g g' : Nat → R) (n : Nat) : Prop := ∀ k, 1 ≤ k → k < n → g k * g' k = 1

variable {g' : Nat → R}

/-- The backward transform undoes the forward transform, up to the factor `n`. -/
theorem backwardFn_forwardFn {logn l : Nat} (hinv : Inverse g g' (2 ^ logn)) (hl : l ≤ logn)
    {p : Nat} (hp : p < 2 ^ logn) :
    backwardFn gs g' logn l (forwardFn ct g logn l f) p = 2 ^ l * f p := by
  induction l with
  | zero => simp [backwardFn, forwardFn]
  | succ l ih =>
    have hsplit := two_pow_split (show l < logn by omega)
    have hlt : 2 ^ (l + 1) ≤ 2 ^ logn := Nat.pow_le_pow_right (by omega) hl
    have hpos := Nat.two_pow_pos l
    rw [Nat.pow_succ] at hlt
    rw [backwardFn, forwardFn, backwardFn_congr (by omega) (fun p hp =>
      (layerFn_gs_ct (Nat.two_pow_pos _) (fun i hi => hinv _ (by omega) (by omega))
        (by rwa [hsplit])).1) hp, backwardFn_smul, ih (by omega), pow_succ']
    ring

/-- The forward transform undoes the backward transform, up to the factor `n`. -/
theorem forwardFn_backwardFn {logn l : Nat} (hinv : Inverse g g' (2 ^ logn)) (hl : l ≤ logn)
    {p : Nat} (hp : p < 2 ^ logn) :
    forwardFn ct g logn l (backwardFn gs g' logn l f) p = 2 ^ l * f p := by
  induction l generalizing f p with
  | zero => simp [backwardFn, forwardFn]
  | succ l ih =>
    have hsplit := two_pow_split (show l < logn by omega)
    have hlt : 2 ^ (l + 1) ≤ 2 ^ logn := Nat.pow_le_pow_right (by omega) hl
    have hpos := Nat.two_pow_pos l
    rw [Nat.pow_succ] at hlt
    have hinner : ∀ p < 2 ^ l * (2 * 2 ^ (logn - 1 - l)),
        forwardFn ct g logn l (backwardFn gs g' logn l
          (layerFn gs g' (2 ^ l) (2 ^ (logn - 1 - l)) f)) p =
        2 ^ l * layerFn gs g' (2 ^ l) (2 ^ (logn - 1 - l)) f p := by
      intro p hp
      exact ih (by omega) (by rwa [hsplit] at hp)
    rw [forwardFn, backwardFn, layerFn_congr hinner (by rwa [hsplit]),
      layerFn_smul _ (ct_smul _), (layerFn_gs_ct (Nat.two_pow_pos _)
        (fun i hi => hinv _ (by omega) (by omega)) (by rwa [hsplit])).2, pow_succ']
    ring

/-! ## Products -/

/-- The coefficients of the product modulo `X^n + 1`. -/
noncomputable def mulMod (n : Nat) (f h : Nat → R) (k : Nat) : R :=
  ((poly n f * poly n h) %ₘ (X ^ n + 1)).coeff k

variable {h : Nat → R}

theorem poly_mulMod [Nontrivial R] {n : Nat} (hn : n ≠ 0) :
    poly n (mulMod n f h) = (poly n f * poly n h) %ₘ (X ^ n + 1) := by
  have hmonic : (X ^ n + 1 : R[X]).Monic := monic_X_pow_add_C 1 hn
  have hdeg : ((poly n f * poly n h) %ₘ (X ^ n + 1)).natDegree < n := by
    have hlt := natDegree_modByMonic_lt (poly n f * poly n h) hmonic (by
      intro hone
      have hnat : (X ^ n + 1 : R[X]).natDegree = n := natDegree_X_pow_add_C
      rw [hone, natDegree_one] at hnat
      exact hn hnat.symm)
    rwa [show (X ^ n + 1 : R[X]).natDegree = n from natDegree_X_pow_add_C] at hlt
  exact (as_sum_range' _ n hdeg).symm

/-- At a root of `X^n + 1` the product modulo it has the value of the product. -/
theorem eval_mulMod [Nontrivial R] {n : Nat} (hn : n ≠ 0) {x : R} (hx : x ^ n = -1) :
    (poly n (mulMod n f h)).eval x = (poly n f).eval x * (poly n h).eval x := by
  have hmonic : (X ^ n + 1 : R[X]).Monic := monic_X_pow_add_C 1 hn
  have hdiv := congrArg (eval x) (modByMonic_add_div (poly n f * poly n h) (X ^ n + 1 : R[X]))
  rw [eval_add, eval_mul, eval_mul, eval_add, eval_pow, eval_X, eval_one, hx, neg_add_cancel,
    zero_mul, add_zero] at hdiv
  rw [poly_mulMod hn]
  exact hdiv

/-- The transform of a product modulo `X^n + 1` is the product of the transforms. -/
theorem forwardFn_mulMod [Nontrivial R] {logn : Nat} (hg : Roots g (2 ^ logn)) {p : Nat}
    (hp : p < 2 ^ logn) :
    forwardFn ct g logn logn (mulMod (2 ^ logn) f h) p =
      forwardFn ct g logn logn f p * forwardFn ct g logn logn h p := by
  rw [forwardFn_eq hg hp, forwardFn_eq hg hp, forwardFn_eq hg hp]
  exact eval_mulMod (Nat.two_pow_pos _).ne' (root_pow hg (le_refl _) hp)

/-- Reducing the coefficients commutes with multiplying. -/
theorem map_mulMod {S : Type} [CommRing S] [Nontrivial R] (φ : R →+* S) {n : Nat} (hn : n ≠ 0)
    (k : Nat) : φ (mulMod n f h k) = mulMod n (fun i => φ (f i)) (fun i => φ (h i)) k := by
  have hmonic : (X ^ n + 1 : R[X]).Monic := monic_X_pow_add_C 1 hn
  have hpoly : ∀ f : Nat → R, (poly n f).map φ = poly n fun i => φ (f i) := by
    intro f
    simp [poly, Polynomial.map_sum]
  unfold mulMod
  rw [← coeff_map, map_modByMonic φ hmonic, Polynomial.map_mul, hpoly, hpoly]
  simp

/-- The transform is linear. -/
theorem forwardFn_linear {logn : Nat} (hg : Roots g (2 ^ logn)) (c c' : R) {p : Nat}
    (hp : p < 2 ^ logn) :
    forwardFn ct g logn logn (fun i => c * f i + c' * f' i) p =
      c * forwardFn ct g logn logn f p + c' * forwardFn ct g logn logn f' p := by
  rw [forwardFn_eq hg hp, forwardFn_eq hg hp, forwardFn_eq hg hp, eval_poly, eval_poly, eval_poly,
    mul_sum, mul_sum, ← sum_add_distrib]
  exact sum_congr rfl fun k _ => by ring

/-! ## The coefficients of a product -/

/-- The coefficients of `X^i h`, modulo `X^n + 1`. -/
def shift (n i : Nat) (h : Nat → R) (k : Nat) : R := if i ≤ k then h (k - i) else -h (n + k - i)

theorem poly_shift_zero (n : Nat) : poly n (shift n 0 h) = poly n h := by
  unfold poly shift
  simp

theorem shift_succ {n i : Nat} (hi : i < n) {k : Nat} (hk : k < n) :
    shift n 1 (shift n i h) k = shift n (i + 1) h k := by
  unfold shift
  by_cases hzero : k = 0
  · subst hzero
    rw [if_neg (show ¬ 1 ≤ 0 by omega), if_pos (show i ≤ n + 0 - 1 by omega),
      if_neg (show ¬ i + 1 ≤ 0 by omega), show n + 0 - 1 - i = n + 0 - (i + 1) by omega]
  · rw [if_pos (by omega)]
    by_cases hle : i + 1 ≤ k
    · rw [if_pos hle, if_pos (by omega), show k - 1 - i = k - (i + 1) by omega]
    · rw [if_neg hle, if_neg (by omega), show n + (k - 1) - i = n + k - (i + 1) by omega]

/-- Multiplying by `X` moves the coefficients up, and the last one down with the other sign. -/
theorem X_mul_poly (n : Nat) :
    X * poly (n + 1) h = poly (n + 1) (shift (n + 1) 1 h) + C (h n) * (X ^ (n + 1) + 1) := by
  have hshift : poly (n + 1) (shift (n + 1) 1 h) =
      ∑ k ∈ range n, monomial (k + 1) (h k) + monomial 0 (-h n) := by
    unfold poly
    rw [sum_range_succ']
    refine congrArg₂ (· + ·) (sum_congr rfl fun k _ => ?_) ?_
    · rw [shift, if_pos (by omega), Nat.add_sub_cancel]
    · rw [shift, if_neg (by omega), show n + 1 + 0 - 1 = n by omega]
  have hleft : X * poly (n + 1) h =
      ∑ k ∈ range n, monomial (k + 1) (h k) + monomial (n + 1) (h n) := by
    unfold poly
    rw [sum_range_succ, mul_add, mul_sum]
    refine congrArg₂ (· + ·) (sum_congr rfl fun k _ => ?_) ?_
    · exact X_mul_monomial k (h k)
    · exact X_mul_monomial n (h n)
  rw [hleft, hshift, mul_add, mul_one, ← C_mul_X_pow_eq_monomial (n := n + 1), monomial_zero_left,
    C_neg]
  ring

theorem poly_shift (n : Nat) {i : Nat} (hi : i ≤ n) :
    (X ^ n + 1 : R[X]) ∣ X ^ i * poly n h - poly n (shift n i h) := by
  induction i with
  | zero => simp [poly_shift_zero]
  | succ i ih =>
    obtain ⟨m, rfl⟩ : ∃ m, n = m + 1 := ⟨n - 1, by omega⟩
    have hstep : poly (m + 1) (shift (m + 1) 1 (shift (m + 1) i h)) =
        poly (m + 1) (shift (m + 1) (i + 1) h) :=
      sum_congr rfl fun k hk => by
        rw [shift_succ (by omega) (Finset.mem_range.mp hk)]
    have hsplit : X ^ (i + 1) * poly (m + 1) h - poly (m + 1) (shift (m + 1) (i + 1) h) =
        X * (X ^ i * poly (m + 1) h - poly (m + 1) (shift (m + 1) i h)) +
          C (shift (m + 1) i h m) * (X ^ (m + 1) + 1) := by
      rw [← hstep, mul_sub, X_mul_poly (h := shift (m + 1) i h), pow_succ']
      ring
    rw [hsplit]
    exact dvd_add (Dvd.dvd.mul_left (ih (by omega)) X) (Dvd.intro_left _ rfl)

/-- The product modulo `X^n + 1`, coefficient by coefficient. -/
theorem mulMod_eq [Nontrivial R] {n : Nat} (hn : n ≠ 0) {k : Nat} (hk : k < n) :
    mulMod n f h k = ∑ i ∈ range n, f i * shift n i h k := by
  have hmonic : (X ^ n + 1 : R[X]).Monic := monic_X_pow_add_C 1 hn
  have hpoly : poly n (fun k => ∑ i ∈ range n, f i * shift n i h k) =
      ∑ i ∈ range n, C (f i) * poly n (shift n i h) := by
    unfold poly
    simp only [mul_sum, C_mul_monomial]
    rw [sum_comm]
    exact sum_congr rfl fun k _ => map_sum (monomial k) _ _
  have hdvd : (X ^ n + 1 : R[X]) ∣
      poly n f * poly n h - poly n fun k => ∑ i ∈ range n, f i * shift n i h k := by
    have hsum : poly n f * poly n h - ∑ i ∈ range n, C (f i) * poly n (shift n i h) =
        ∑ i ∈ range n, C (f i) * (X ^ i * poly n h - poly n (shift n i h)) := by
      rw [show poly n f = ∑ i ∈ range n, monomial i (f i) from rfl, sum_mul, ← sum_sub_distrib]
      refine sum_congr rfl fun i _ => ?_
      rw [← C_mul_X_pow_eq_monomial]
      ring
    rw [hpoly, hsum]
    exact dvd_sum fun i hi => Dvd.dvd.mul_left (poly_shift n (Finset.mem_range.mp hi).le) _
  have hdeg : ∀ F : Nat → R, (poly n F).degree < (X ^ n + 1 : R[X]).degree := by
    intro F
    rw [degree_eq_natDegree hmonic.ne_zero, show (X ^ n + 1 : R[X]).natDegree = n from
      natDegree_X_pow_add_C]
    refine (degree_sum_le _ _).trans_lt ((Finset.sup_lt_iff (WithBot.bot_lt_coe n)).mpr ?_)
    intro k hk
    exact (degree_monomial_le k _).trans_lt (Nat.cast_lt.mpr (Finset.mem_range.mp hk))
  have hmod : (poly n f * poly n h) %ₘ (X ^ n + 1) =
      poly n fun k => ∑ i ∈ range n, f i * shift n i h k := by
    exact (modByMonic_eq_of_dvd_sub hmonic hdvd).trans
      ((modByMonic_eq_self_iff hmonic).mpr (hdeg _))
  unfold mulMod
  rw [hmod, poly, finsetSum_coeff]
  simp [coeff_monomial, hk]

end Ring

/-! ## Words for ring elements -/

section Words

variable {α β R : Type} [Inhabited α] {φ : α → R} {ok : α → Prop}

/-- The array has `n` admissible words, and they stand for the values of `f`. -/
structure Represents (φ : α → R) (ok : α → Prop) (n : Nat) (a : List α) (f : Nat → R) : Prop where
  length : a.length = n
  admissible : ∀ p < n, ok (a.getD p default)
  value : ∀ p < n, φ (a.getD p default) = f p

/-- The butterfly on words does what the one on values does, for the table entries below `n`. -/
def Simulates (φ : α → R) (ok : α → Prop) (bf : β → α → α → α × α) (BF : R → R → R → R × R)
    (G : Nat → β) (g : Nat → R) (n : Nat) : Prop :=
  ∀ k, 1 ≤ k → k < n → ∀ u v, ok u → ok v →
    (ok (bf (G k) u v).1 ∧ ok (bf (G k) u v).2) ∧
      (φ (bf (G k) u v).1, φ (bf (G k) u v).2) = BF (g k) (φ u) (φ v)

variable {bf : β → α → α → α × α} {BF : R → R → R → R × R} {G : Nat → β} {g : Nat → R}
  {a : List α} {f : Nat → R}

theorem Represents.congr {n : Nat} {f' : Nat → R} (ha : Represents φ ok n a f)
    (h : ∀ p < n, f p = f' p) : Represents φ ok n a f' :=
  ⟨ha.length, ha.admissible, fun p hp => (ha.value p hp).trans (h p hp)⟩

theorem Represents.layer {n m half : Nat} (hsim : Simulates φ ok bf BF G g n) (hm : 1 ≤ m)
    (hhalf : 0 < half) (hn : n = m * (2 * half)) (ha : Represents φ ok n a f) :
    Represents φ ok n (layer bf G m half a) (layerFn BF g m half f) := by
  have hentry : ∀ p < n, ok (layerFn bf G m half (fun p => a.getD p default) p) ∧
      φ (layerFn bf G m half (fun p => a.getD p default) p) = layerFn BF g m half f p := by
    intro p hp
    have hi : p / (2 * half) < m := Nat.div_lt_of_lt_mul (by rwa [Nat.mul_comm, ← hn])
    have hp' := Nat.div_add_mod p (2 * half)
    have hblock : 2 * half * (p / (2 * half)) + 2 * half ≤ n := by
      rw [← Nat.mul_succ, hn, Nat.mul_comm m]
      exact Nat.mul_le_mul_left _ hi
    have hk : m + p / (2 * half) < n := by
      have hle : m * 2 ≤ m * (2 * half) := Nat.mul_le_mul_left m (by omega)
      omega
    have hsim' := hsim (m + p / (2 * half)) (le_trans hm (Nat.le_add_right _ _)) hk
    unfold layerFn
    dsimp only
    split_ifs with hr
    · obtain ⟨⟨hok, _⟩, hval⟩ := hsim' _ _ (ha.admissible p hp)
        (ha.admissible (p + half) (by omega))
      rw [ha.value p hp, ha.value (p + half) (by omega)] at hval
      exact ⟨hok, congrArg Prod.fst hval⟩
    · obtain ⟨⟨_, hok⟩, hval⟩ := hsim' _ _
        (ha.admissible (p - half) (by omega)) (ha.admissible p hp)
      rw [ha.value (p - half) (by omega), ha.value p hp] at hval
      exact ⟨hok, congrArg Prod.snd hval⟩
  have hlen := ha.length
  refine ⟨by rw [length_layer, hlen], ?_, ?_⟩
  · intro p hp
    rw [getD_layer hhalf (by omega) (by omega)]
    exact (hentry p hp).1
  · intro p hp
    rw [getD_layer hhalf (by omega) (by omega)]
    exact (hentry p hp).2

/-- The transforms on words are the transforms on values. -/
theorem Represents.forward {logn l : Nat} (hsim : Simulates φ ok bf BF G g (2 ^ logn))
    (hl : l ≤ logn) (ha : Represents φ ok (2 ^ logn) a f) :
    Represents φ ok (2 ^ logn) (forward bf G logn l a) (forwardFn BF g logn l f) := by
  induction l with
  | zero => exact ha
  | succ l ih =>
    exact (ih (by omega)).layer hsim Nat.one_le_two_pow (Nat.two_pow_pos _)
      (two_pow_split (by omega)).symm

theorem Represents.backward {logn l : Nat} (hsim : Simulates φ ok bf BF G g (2 ^ logn))
    (hl : l ≤ logn) (ha : Represents φ ok (2 ^ logn) a f) :
    Represents φ ok (2 ^ logn) (backward bf G logn l a) (backwardFn BF g logn l f) := by
  induction l generalizing a f with
  | zero => exact ha
  | succ l ih =>
    exact ih (by omega) (ha.layer hsim Nat.one_le_two_pow (Nat.two_pow_pos _)
      (two_pow_split (by omega)).symm)

/-- An array stands for the values of its entries. -/
theorem Represents.self {n : Nat} (hlen : a.length = n) (hok : ∀ u ∈ a, ok u) :
    Represents φ ok n a fun p => φ (a.getD p default) := by
  refine ⟨hlen, ?_, fun _ _ => rfl⟩
  intro p hp
  have hlt : p < a.length := by rw [hlen]; exact hp
  rw [List.getD_eq_getElem _ _ hlt]
  exact hok _ (List.getElem_mem hlt)

theorem Represents.ok_of_mem {n : Nat} (ha : Represents φ ok n a f) : ∀ u ∈ a, ok u := by
  intro u hu
  obtain ⟨p, hp, hpu⟩ := List.mem_iff_getElem.mp hu
  have hok := ha.admissible p (by rw [← ha.length]; exact hp)
  rwa [List.getD_eq_getElem _ _ hp, hpu] at hok

variable {γ δ : Type} [Inhabited γ] [Inhabited δ] {φ₁ : γ → R} {φ₂ : δ → R} {ok₁ : γ → Prop}
  {ok₂ : δ → Prop} {s : List γ} {t : List δ} {h : Nat → R}

/-- A word for each entry. -/
theorem Represents.map {n : Nat} {w : γ → α} {F : R → R}
    (hw : ∀ u, ok₁ u → ok (w u) ∧ φ (w u) = F (φ₁ u)) (hs : Represents φ₁ ok₁ n s f) :
    Represents φ ok n (s.map w) fun p => F (f p) := by
  have hget : ∀ p < n, (s.map w).getD p default = w (s.getD p default) := by
    intro p hp
    have hlt : p < s.length := by rw [hs.length]; exact hp
    rw [List.getD_eq_getElem _ _ (by rwa [List.length_map]), List.getD_eq_getElem _ _ hlt,
      List.getElem_map]
  refine ⟨by rw [List.length_map, hs.length], ?_, ?_⟩
  · intro p hp
    rw [hget p hp]
    exact (hw _ (hs.admissible p hp)).1
  · intro p hp
    rw [hget p hp, (hw _ (hs.admissible p hp)).2, hs.value p hp]

/-- A word for each pair of entries. -/
theorem Represents.zipWith {n : Nat} {w : γ → δ → α} {F : R → R → R}
    (hw : ∀ u v, ok₁ u → ok₂ v → ok (w u v) ∧ φ (w u v) = F (φ₁ u) (φ₂ v))
    (hs : Represents φ₁ ok₁ n s f) (ht : Represents φ₂ ok₂ n t h) :
    Represents φ ok n (List.zipWith w s t) fun p => F (f p) (h p) := by
  have hget : ∀ p < n, (List.zipWith w s t).getD p default =
      w (s.getD p default) (t.getD p default) := by
    intro p hp
    have hlts : p < s.length := by rw [hs.length]; exact hp
    have hltt : p < t.length := by rw [ht.length]; exact hp
    rw [List.getD_eq_getElem _ _ (by rw [List.length_zipWith]; omega),
      List.getD_eq_getElem _ _ hlts, List.getD_eq_getElem _ _ hltt, List.getElem_zipWith]
  refine ⟨by rw [List.length_zipWith, hs.length, ht.length, Nat.min_self], ?_, ?_⟩
  · intro p hp
    rw [hget p hp]
    exact (hw _ _ (hs.admissible p hp) (ht.admissible p hp)).1
  · intro p hp
    rw [hget p hp, (hw _ _ (hs.admissible p hp) (ht.admissible p hp)).2, hs.value p hp,
      ht.value p hp]

end Words

end Trelyan.Ntt
