import Mathlib.Data.List.Basic
import Trelyan.Ct.Stats
import Trelyan.Lib.OrderStat

/-!
# The percentile crops

Every crop statistic, and so every verdict that compares crops, rests on the cut
that `pooled_percentile` chooses and on the samples that `t_values` keeps under it.
`crops_correct` is what both promise for pooled samples of any number and with any
ties: the cut is the nearest-rank percentile of its definition, a greater percentile
never keeps less, and no crop keeps fewer samples than its rank.
-/

namespace Trelyan.Ct

open OrderStat (ranked)

variable {F : Type} [Field F] [LinearOrder F] {fn : Elementary F} {a b xs : List ℕ} {p q : ℚ}
  {c d N : ℕ}

/-! ## The rank -/

/-- The number of samples that the percentile `p` of `N` samples asks for. -/
def nearestRank (p : ℚ) (N : ℕ) : ℕ := ⌈p * N⌉₊

/-- The index that `pooled_percentile` reads. -/
def percentileIndex (p : ℚ) (N : ℕ) : ℕ := max 1 (min (nearestRank p N) N) - 1

/-- The percentiles that name a crop. -/
def IsFraction (p : ℚ) : Prop := 0 < p ∧ p ≤ 1

theorem percentileIndex_lt (hN : N ≠ 0) (p : ℚ) : percentileIndex p N < N := by
  unfold percentileIndex
  omega

theorem nearestRank_mono (h : p ≤ q) (N : ℕ) : nearestRank p N ≤ nearestRank q N :=
  Nat.ceil_mono (mul_le_mul_of_nonneg_right h N.cast_nonneg)

theorem nearestRank_one (N : ℕ) : nearestRank 1 N = N := by
  unfold nearestRank
  rw [one_mul, Nat.ceil_natCast]

/-- The clamp of the source changes nothing for a fraction. -/
theorem percentileIndex_succ (hp : IsFraction p) (hN : N ≠ 0) :
    percentileIndex p N + 1 = nearestRank p N := by
  have hpos : 0 < nearestRank p N := by
    have hN' : (0 : ℚ) < N := by exact_mod_cast Nat.pos_of_ne_zero hN
    exact Nat.ceil_pos.mpr (mul_pos hp.1 hN')
  have hle : nearestRank p N ≤ N := by
    have h := nearestRank_mono hp.2 N
    rwa [nearestRank_one] at h
  unfold percentileIndex
  omega

/-! ## The cut -/

/-- The pooled samples at or below a cut. -/
def atOrBelow (a b : List ℕ) (cut : ℕ) : ℕ := (a ++ b).countP (· ≤ cut)

theorem mergeSort_pool_ne_nil (h : a ++ b ≠ []) : (a ++ b).mergeSort ≠ [] := by
  intro hnil
  have hlen := (List.mergeSort_perm (a ++ b) (· ≤ ·)).length_eq
  rw [hnil] at hlen
  exact h (List.eq_nil_of_length_eq_zero hlen.symm)

theorem percentileIndex_lt_length (h : a ++ b ≠ []) (p : ℚ) :
    percentileIndex p (a ++ b).length < (a ++ b).mergeSort.length := by
  rw [List.length_mergeSort]
  exact percentileIndex_lt (by simpa using h) p

/-- The read of `pooled_percentile` is in range, and returns the percentile. -/
theorem getElem?_percentileIndex (h : a ++ b ≠ []) (p : ℚ) :
    (a ++ b).mergeSort[percentileIndex p (a ++ b).length]? = some (pooledPercentile a b p) := by
  have hnil := mergeSort_pool_ne_nil h
  have hread := List.getElem?_eq_getElem (percentileIndex_lt_length h p)
  rw [hread]
  unfold percentileIndex nearestRank at hread ⊢
  unfold pooledPercentile
  simp only [List.isEmpty_iff, hnil, if_false]
  rw [List.length_mergeSort, List.getD_eq_getElem?_getD, hread]
  rfl

theorem isLeast_pooledPercentile (h : a ++ b ≠ []) (hp : IsFraction p) :
    IsLeast (ranked (a ++ b) (nearestRank p (a ++ b).length)) (pooledPercentile a b p) := by
  have hN : (a ++ b).length ≠ 0 := by simpa using h
  rw [← percentileIndex_succ hp hN]
  exact OrderStat.isLeast_mergeSort (getElem?_percentileIndex h p)

theorem pooledPercentile_mono (h : a ++ b ≠ []) (hp : IsFraction p) (hq : IsFraction q)
    (hpq : p ≤ q) : pooledPercentile a b p ≤ pooledPercentile a b q :=
  OrderStat.rank_mono (nearestRank_mono hpq _) (isLeast_pooledPercentile h hp)
    (isLeast_pooledPercentile h hq)

theorem isFraction_one : IsFraction 1 := ⟨one_pos, le_rfl⟩

/-- No sample exceeds the cut of the whole. -/
theorem le_pooledPercentile_one (h : a ++ b ≠ []) {x : ℕ} (hx : x ∈ a ++ b) :
    x ≤ pooledPercentile a b 1 := by
  have hleast := isLeast_pooledPercentile h isFraction_one
  rw [nearestRank_one] at hleast
  exact OrderStat.le_of_rank_length hleast.1 hx

/-! ## What a crop keeps -/

/-- The samples of one class that the crop at `p` keeps. -/
def kept (a b : List ℕ) (p : ℚ) (xs : List ℕ) : List ℕ := crop (pooledPercentile a b p) xs

theorem crop_sublist_crop (h : c ≤ d) (xs : List ℕ) : (crop c xs).Sublist (crop d xs) := by
  apply List.monotone_filter_right
  intro x hx
  simp only [decide_eq_true_eq] at hx ⊢
  omega

theorem crop_eq_self (h : ∀ x ∈ xs, x ≤ c) : crop c xs = xs := by
  apply List.filter_eq_self.mpr
  simpa using h

theorem length_crop_add (a b : List ℕ) (cut : ℕ) :
    (crop cut a).length + (crop cut b).length = atOrBelow a b cut := by
  unfold crop atOrBelow
  rw [List.countP_append, List.countP_eq_length_filter, List.countP_eq_length_filter]

theorem kept_sublist_kept (h : a ++ b ≠ []) (hp : IsFraction p) (hq : IsFraction q)
    (hpq : p ≤ q) (xs : List ℕ) : (kept a b p xs).Sublist (kept a b q xs) :=
  crop_sublist_crop (pooledPercentile_mono h hp hq hpq) xs

/-- A crop keeps its rank, and more when the cut is tied. -/
theorem nearestRank_le_kept (h : a ++ b ≠ []) (hp : IsFraction p) :
    nearestRank p (a ++ b).length ≤ (kept a b p a).length + (kept a b p b).length := by
  unfold kept
  rw [length_crop_add]
  exact (isLeast_pooledPercentile h hp).1.2

theorem kept_one_left (h : a ++ b ≠ []) : kept a b 1 a = a := by
  apply crop_eq_self
  intro x hx
  exact le_pooledPercentile_one h (List.mem_append_left b hx)

theorem kept_one_right (h : a ++ b ≠ []) : kept a b 1 b = b := by
  apply crop_eq_self
  intro x hx
  exact le_pooledPercentile_one h (List.mem_append_right a hx)

/-! ## The entries of `t_values` -/

/-- The entry of the crop at `p`. -/
def cropEntry (fn : Elementary F) (a b : List ℕ) (p : ℚ) : TValue F :=
  ⟨p, welchT fn (kept a b p a) (kept a b p b), (kept a b p a).length, (kept a b p b).length⟩

/-- The raw entry is the crop at `1`. -/
theorem tValues_eq_map (h : a ++ b ≠ []) :
    tValues fn a b = (1 :: cropPercentiles).map (cropEntry fn a b) := by
  rw [List.map_cons]
  unfold tValues cropEntry
  rw [kept_one_left h, kept_one_right h]
  rfl

theorem isFraction_of_mem (hp : p ∈ 1 :: cropPercentiles) : IsFraction p := by
  unfold cropPercentiles at hp
  simp only [List.mem_cons, List.not_mem_nil, or_false] at hp
  unfold IsFraction
  rcases hp with rfl | rfl | rfl | rfl | rfl | rfl | rfl | rfl | rfl | rfl <;> norm_num

/-- What the percentile and the crops promise for two series. -/
structure CropsCorrect (fn : Elementary F) (a b : List ℕ) : Prop where
  /-- The cut is the least pooled value that enough pooled samples do not exceed. -/
  cut : ∀ p : ℚ, 0 < p → p ≤ 1 →
    IsLeast {v | v ∈ a ++ b ∧ ⌈p * (a ++ b).length⌉₊ ≤ (a ++ b).countP (· ≤ v)}
      (pooledPercentile a b p)
  index : ∀ p : ℚ, percentileIndex p (a ++ b).length < (a ++ b).mergeSort.length ∧
    (a ++ b).mergeSort[percentileIndex p (a ++ b).length]? = some (pooledPercentile a b p)
  /-- Every entry is the crop at its percentile, the raw entry that at `1`. -/
  entries : tValues fn a b = (1 :: cropPercentiles).map fun p =>
    ⟨p, welchT fn (kept a b p a) (kept a b p b), (kept a b p a).length, (kept a b p b).length⟩
  nested : ∀ p q : ℚ, 0 < p → p ≤ q → q ≤ 1 →
    (kept a b p a).Sublist (kept a b q a) ∧ (kept a b p b).Sublist (kept a b q b)
  retained : ∀ p : ℚ, 0 < p → p ≤ 1 →
    ⌈p * (a ++ b).length⌉₊ ≤ (kept a b p a).length + (kept a b p b).length
  entry_retained : ∀ v ∈ tValues fn a b, ⌈v.crop * (a ++ b).length⌉₊ ≤ v.n0 + v.n1
  entry_total : ∀ v ∈ tValues fn a b,
    v.n0 + v.n1 = (a ++ b).countP (· ≤ pooledPercentile a b v.crop)
  whole : kept a b 1 a = a ∧ kept a b 1 b = b ∧
    (tValues fn a b).head? = some ⟨1, welchT fn a b, a.length, b.length⟩

theorem entry_of_mem (h : a ++ b ≠ []) {v : TValue F} (hv : v ∈ tValues fn a b) :
    IsFraction v.crop ∧ v = cropEntry fn a b v.crop := by
  rw [tValues_eq_map h, List.mem_map] at hv
  rcases hv with ⟨p, hp, rfl⟩
  exact ⟨isFraction_of_mem hp, rfl⟩

theorem crops_correct (fn : Elementary F) (a b : List ℕ) (h : a ++ b ≠ []) :
    CropsCorrect fn a b where
  cut p h0 h1 := isLeast_pooledPercentile h ⟨h0, h1⟩
  index p := ⟨percentileIndex_lt_length h p, getElem?_percentileIndex h p⟩
  entries := tValues_eq_map h
  nested p q h0 hpq h1 := by
    have hp : IsFraction p := ⟨h0, hpq.trans h1⟩
    have hq : IsFraction q := ⟨h0.trans_le hpq, h1⟩
    exact ⟨kept_sublist_kept h hp hq hpq a, kept_sublist_kept h hp hq hpq b⟩
  retained p h0 h1 := nearestRank_le_kept h ⟨h0, h1⟩
  entry_retained v hv := by
    have hentry := entry_of_mem h hv
    rw [hentry.2]
    exact nearestRank_le_kept h hentry.1
  entry_total v hv := by
    have hentry := entry_of_mem h hv
    rw [hentry.2]
    exact length_crop_add a b _
  whole := ⟨kept_one_left h, kept_one_right h, rfl⟩

/-- Three samples in two classes. -/
theorem sample_crops : [3, 1] ++ [2] ≠ ([] : List ℕ) ∧
    CropsCorrect (⟨id, id, id⟩ : Elementary ℚ) [3, 1] [2] :=
  ⟨by decide, crops_correct ⟨id, id, id⟩ [3, 1] [2] (by decide)⟩

end Trelyan.Ct
