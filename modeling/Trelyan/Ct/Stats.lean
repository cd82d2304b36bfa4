import Mathlib.Algebra.Order.Field.Basic
import Mathlib.Algebra.Order.Floor.Semifield
import Mathlib.Analysis.SpecialFunctions.Log.Basic
import Mathlib.Data.Rat.Floor
import Mathlib.Tactic.NormNum
import Mathlib.Tactic.Positivity
import Mathlib.Tactic.Ring

/-!
# The statistics of the timing sessions

The numerical half of `falcon-ct/src/lib.rs`, in exact arithmetic.  The `f64`
of the source is an ordered field `F`, with the elementary functions that the
source takes from `f64` as a parameter; `Elementary.real` is the instance that
the words mean.  An infinity or a NaN that the source returns on purpose is
`none`.  Timings and class bytes are natural numbers, and the percentiles and
the warm-up fraction are the rational numbers that the source spells.
-/

namespace Trelyan.Ct

/-- The elementary functions that `f64` supplies. -/
structure Elementary (F : Type) where
  sqrt : F → F
  exp : F → F
  ln : F → F

noncomputable def Elementary.real : Elementary ℝ := ⟨Real.sqrt, Real.exp, Real.log⟩

/-- Minimum measurements per class before a verdict is issued. -/
def minPerClass : ℕ := 2000

/-- Fraction of leading measurements discarded as warm-up. -/
def warmupFraction : ℚ := 0.02

/-- The percentile crops, as fractions of the pooled distribution. -/
def cropPercentiles : List ℚ := [0.50, 0.60, 0.70, 0.80, 0.90, 0.95, 0.97, 0.98, 0.99]

/-- Summary statistics of one class's samples. -/
structure ClassStats (F : Type) where
  n : ℕ
  meanNs : F
  stddevNs : F
  minNs : ℕ
  maxNs : ℕ

/-- One `t` value with the crop it was computed under; `crop = 1` means uncropped. -/
structure TValue (F : Type) where
  crop : ℚ
  t : F
  n0 : ℕ
  n1 : ℕ

/-- `(class, nanoseconds)` in measurement order, warm-up included. -/
structure RawSamples where
  samples : List (ℕ × ℕ)

variable {F : Type} [Field F] [LinearOrder F] (fn : Elementary F)

/-- The threshold on `max |t|`. -/
def tThreshold : F := 4.5

/-- Mean and sample standard deviation; `(0, 0)` on empty input. -/
def meanStddev (xs : List ℕ) : F × F :=
  if xs.isEmpty then
    (0, 0)
  else
    let n : F := xs.length
    let mean := (xs.map fun x : ℕ => (x : F)).sum / n
    if xs.length < 2 then
      (mean, 0)
    else
      let var := (xs.map fun x : ℕ => ((x : F) - mean) * ((x : F) - mean)).sum / (n - 1)
      (mean, fn.sqrt var)

/-- `f64::EPSILON`. -/
def epsilon : F := 1 / 2 ^ 52

/-- `1.0e9_f64.copysign(x)`. -/
def copysignLarge (x : F) : F :=
  if x < 0 then -1.0e9 else 1.0e9

/-- Welch's two-sample `t` statistic. -/
def welchT (a b : List ℕ) : F :=
  if a.length < 2 ∨ b.length < 2 then
    0
  else
    let (ma, sa) := meanStddev fn a
    let (mb, sb) := meanStddev fn b
    let va := sa * sa / a.length
    let vb := sb * sb / b.length
    let denom := fn.sqrt (va + vb)
    if denom = 0 then
      -- both classes are constant
      if |ma - mb| < epsilon then 0 else copysignLarge (ma - mb)
    else
      (ma - mb) / denom

/-- Welch–Satterthwaite degrees of freedom. -/
def welchDf (a b : List ℕ) : F :=
  if a.length < 2 ∨ b.length < 2 then
    0
  else
    let (_, sa) := meanStddev fn a
    let (_, sb) := meanStddev fn b
    let na : F := a.length
    let nb : F := b.length
    let va := sa * sa / na
    let vb := sb * sb / nb
    let num := (va + vb) * (va + vb)
    let den := va * va / (na - 1) + vb * vb / (nb - 1)
    if den = 0 then 0 else num / den

/-- The complementary error function, Abramowitz and Stegun 7.1.26. -/
def erfc (x : F) : F :=
  let z := |x|
  let t := 1 / (1 + 0.5 * z)
  let poly := t * fn.exp (-z * z - 1.26551223 + t * (1.00002368 + t * (0.37409196 +
    t * (0.09678418 + t * (-0.18628806 + t * (0.27886807 + t * (-1.13520398 +
    t * (1.48851587 + t * (-0.82215223 + t * 0.17087277)))))))))
  if 0 ≤ x then poly else 2 - poly

def twoSidedPNormal (t : F) : F :=
  erfc fn (|t| / fn.sqrt 2)

/-- `mean(b) − mean(a)` and its 95 % confidence interval. -/
def meanDiffCi95 (a b : List ℕ) : F × F × F :=
  if a.length < 2 ∨ b.length < 2 then
    (0, 0, 0)
  else
    let (ma, sa) := meanStddev fn a
    let (mb, sb) := meanStddev fn b
    let se := fn.sqrt (sa * sa / a.length + sb * sb / b.length)
    let d := mb - ma
    (d, d - 1.96 * se, d + 1.96 * se)

/-- The standard error of the difference in means; `none` is `f64::INFINITY`. -/
def welchSe (a b : List ℕ) : Option F :=
  if a.length < 2 ∨ b.length < 2 then
    none
  else
    let (_, sa) := meanStddev fn a
    let (_, sb) := meanStddev fn b
    some (fn.sqrt (sa * sa / a.length + sb * sb / b.length))

/-- Acklam's approximation of the standard normal quantile; `none` is `f64::NAN`. -/
def inverseNormalCdf (p : F) : Option F :=
  let tail (q : F) : F :=
    (((((-7.784894002430293e-3 * q + -3.223964580411365e-1) * q + -2.400758277161838e0) * q +
        -2.549732539343734e0) * q + 4.374664141464968e0) * q + 2.938163982698783e0) /
      ((((7.784695709041462e-3 * q + 3.224671290700398e-1) * q + 2.445134137142996e0) * q +
        3.754408661907416e0) * q + 1)
  let central (q r : F) : F :=
    (((((-3.969683028665376e1 * r + 2.209460984245205e2) * r + -2.759285104469687e2) * r +
        1.38357751867269e2) * r + -3.066479806614716e1) * r + 2.506628277459239e0) * q /
      (((((-5.447609879822406e1 * r + 1.615858368580409e2) * r + -1.556989798598866e2) * r +
        6.680131188771972e1) * r + -1.328068155288572e1) * r + 1)
  if ¬ (0 < p ∧ p < 1) then
    none
  else if p < 0.02425 then
    some (tail (fn.sqrt (-2 * fn.ln p)))
  else if p ≤ 1 - 0.02425 then
    some (central (p - 0.5) ((p - 0.5) * (p - 0.5)))
  else
    some (-tail (fn.sqrt (-2 * fn.ln (1 - p))))

/-- The smallest true mean difference that would be flagged with probability `power`. -/
def minDetectableEffect (se : Option F) (threshold power : F) : Option F :=
  match se with
  | none => none
  | some se =>
    if se ≤ 0 ∨ ¬ (0 < power ∧ power < 1) then
      none
    else
      (inverseNormalCdf fn power).map fun z => (threshold + z) * se

/-- The value at the `p`-th percentile of the pooled samples, by nearest rank. -/
def pooledPercentile (a b : List ℕ) (p : ℚ) : ℕ :=
  let pooled := (a ++ b).mergeSort
  if pooled.isEmpty then
    0
  else
    let idx := max 1 (min ⌈p * pooled.length⌉₊ pooled.length) - 1
    pooled.getD idx 0

/-- The samples at or below a cut. -/
def crop (cut : ℕ) (xs : List ℕ) : List ℕ :=
  xs.filter (· ≤ cut)

/-- The ten `t` values: raw and nine crops. -/
def tValues (a b : List ℕ) : List (TValue F) :=
  ⟨1, welchT fn a b, a.length, b.length⟩ ::
    cropPercentiles.map fun p =>
      let cut := pooledPercentile a b p
      ⟨p, welchT fn (crop cut a) (crop cut b), (crop cut a).length, (crop cut b).length⟩

def classStats (xs : List ℕ) : ClassStats F :=
  let (meanNs, stddevNs) := meanStddev fn xs
  ⟨xs.length, meanNs, stddevNs, xs.min?.getD 0, xs.max?.getD 0⟩

/-- Split warm-up-trimmed samples by class. -/
def splitClasses (raw : RawSamples) : List ℕ × List ℕ :=
  let total := raw.samples.length
  let skip := ⌊(total : ℚ) * warmupFraction⌋₊
  let kept := raw.samples.drop skip
  ((kept.filter (·.1 = 0)).map (·.2), (kept.filter (·.1 ≠ 0)).map (·.2))

/-- The nine-crop statistic alone, without the raw `t`. -/
def cropStatistic (a b : List ℕ) : F :=
  (((tValues fn a b).drop 1).map fun v => |v.t|).foldl max 0

/-! ## The warm-up -/

theorem floor_warmup (n : ℕ) : ⌊(n : ℚ) * warmupFraction⌋₊ = n / 50 := by
  have h : (n : ℚ) * warmupFraction = (n : ℚ) / ((50 : ℕ) : ℚ) := by
    unfold warmupFraction
    norm_num
    ring
  rw [h, Nat.floor_div_eq_div]

/-- Measurements that come in two blocks, one for each class. -/
def twoBlocks (m k x y : ℕ) : RawSamples :=
  ⟨List.replicate m (0, x) ++ List.replicate k (1, y)⟩

theorem splitClasses_twoBlocks {m k x y : ℕ} (h : (m + k) / 50 ≤ m) :
    splitClasses (twoBlocks m k x y) =
      (List.replicate (m - (m + k) / 50) x, List.replicate k y) := by
  unfold splitClasses twoBlocks
  simp only [List.length_append, List.length_replicate, floor_warmup]
  rw [List.drop_append_of_le_length (by simpa using h), List.drop_replicate]
  simp

/-! ## Constant series -/

section Constant

variable [IsStrictOrderedRing F] {fn} {a b : List ℕ} {x y : ℕ}

theorem meanStddev_constant (ha : ∀ z ∈ a, z = x) (hlen : 2 ≤ a.length) :
    meanStddev fn a = ((x : F), fn.sqrt 0) := by
  have hrep : a = List.replicate a.length x := List.eq_replicate_of_mem ha
  generalize a.length = n at hrep hlen
  subst hrep
  have hn : (n : F) ≠ 0 := by
    have h0 : n ≠ 0 := by omega
    exact_mod_cast h0
  have hempty : (List.replicate n x).isEmpty = false := by
    simp
    omega
  have hlt : ¬ n < 2 := by omega
  unfold meanStddev
  simp [hempty, hlt, hn]

theorem welchT_constant (hsqrt : fn.sqrt 0 = 0) (ha : ∀ z ∈ a, z = x) (hb : ∀ z ∈ b, z = y)
    (ha2 : 2 ≤ a.length) (hb2 : 2 ≤ b.length) :
    welchT fn a b =
      if |(x : F) - y| < epsilon then 0 else copysignLarge ((x : F) - y) := by
  have hlen : ¬ (a.length < 2 ∨ b.length < 2) := by omega
  unfold welchT
  rw [if_neg hlen, meanStddev_constant ha ha2, meanStddev_constant hb hb2]
  simp [hsqrt]

theorem epsilon_pos : (0 : F) < epsilon := by
  unfold epsilon
  positivity

/-- A series that never varies shows no difference. -/
theorem welchT_flat (hsqrt : fn.sqrt 0 = 0) (ha : ∀ z ∈ a, z = x) (hb : ∀ z ∈ b, z = x) :
    welchT fn a b = 0 := by
  by_cases hlen : a.length < 2 ∨ b.length < 2
  · unfold welchT
    rw [if_pos hlen]
  · rw [welchT_constant hsqrt ha hb (by omega) (by omega), sub_self, abs_zero,
      if_pos epsilon_pos]

theorem cropStatistic_flat (hsqrt : fn.sqrt 0 = 0) (ha : ∀ z ∈ a, z = x)
    (hb : ∀ z ∈ b, z = x) : cropStatistic fn a b = 0 := by
  have hcrop (cut : ℕ) : welchT fn (crop cut a) (crop cut b) = 0 :=
    welchT_flat hsqrt (fun z hz => ha z (List.mem_of_mem_filter hz))
      (fun z hz => hb z (List.mem_of_mem_filter hz))
  simp [cropStatistic, tValues, hcrop, cropPercentiles]

end Constant

end Trelyan.Ct
