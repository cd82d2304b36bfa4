import Mathlib.Data.List.Sort
import Trelyan.Ct.Judge

/-!
# Symmetries of the judging functions

The rule is two-sided, so that it must not matter which class is called 0, and the
order of the measurements after the warm-up must not matter either.

There are three groups.

* Each statistic of two series, with the series exchanged: `welchT` and the mean
  difference change their sign, and everything else stays.
* Each statistic of two series that were permuted.
* The three judging functions.  `ExperimentResult.mirror` is the result with the
  classes exchanged, and `verdicts_invariant` puts the groups together.
-/

namespace Trelyan.Ct

variable {F : Type} [Field F] [LinearOrder F] {fn : Elementary F} {a a' b b' : List ℕ}

/-! ## Order -/

section Order

omit [LinearOrder F] in
/-- Mean and deviation are those of the multiset. -/
theorem meanStddev_perm (h : a.Perm a') : meanStddev fn a = meanStddev fn a' := by
  have hmean : (a.map fun x : ℕ => (x : F)).sum = (a'.map fun x : ℕ => (x : F)).sum :=
    (h.map _).sum_eq
  have hvar : ∀ mean : F, (a.map fun x : ℕ => ((x : F) - mean) * ((x : F) - mean)).sum =
      (a'.map fun x : ℕ => ((x : F) - mean) * ((x : F) - mean)).sum := fun _ => (h.map _).sum_eq
  unfold meanStddev
  simp only [h.isEmpty_eq, h.length_eq, hmean, hvar]

theorem welchT_perm (ha : a.Perm a') (hb : b.Perm b') : welchT fn a b = welchT fn a' b' := by
  unfold welchT
  rw [meanStddev_perm ha, meanStddev_perm hb, ha.length_eq, hb.length_eq]

/-- Sorting forgets the order. -/
theorem mergeSort_of_perm (h : a.Perm a') : a.mergeSort = a'.mergeSort := by
  have hperm : a.mergeSort.Perm a'.mergeSort :=
    (List.mergeSort_perm a _).trans (h.trans (List.mergeSort_perm a' _).symm)
  exact hperm.eq_of_sortedLE List.sortedLE_mergeSort List.sortedLE_mergeSort

theorem pooledPercentile_perm (h : (a ++ b).Perm (a' ++ b')) (p : ℚ) :
    pooledPercentile a b p = pooledPercentile a' b' p := by
  unfold pooledPercentile
  rw [mergeSort_of_perm h]

theorem tValues_perm (ha : a.Perm a') (hb : b.Perm b') : tValues fn a b = tValues fn a' b' := by
  unfold tValues crop
  rw [welchT_perm ha hb, ha.length_eq, hb.length_eq]
  congr 1
  refine List.map_congr_left fun p _ => ?_
  rw [pooledPercentile_perm (ha.append hb) p]
  have hca := ha.filter fun x => decide (x ≤ pooledPercentile a' b' p)
  have hcb := hb.filter fun x => decide (x ≤ pooledPercentile a' b' p)
  dsimp only
  rw [welchT_perm hca hcb, hca.length_eq, hcb.length_eq]

theorem cropStatistic_perm (ha : a.Perm a') (hb : b.Perm b') :
    cropStatistic fn a b = cropStatistic fn a' b' := by
  unfold cropStatistic
  rw [tValues_perm ha hb]

omit [LinearOrder F] in
theorem classStats_perm (h : a.Perm a') : classStats fn a = classStats fn a' := by
  have hmin : a.min? = a'.min? := by
    refine Option.ext fun m => ?_
    simp only [List.min?_eq_some_iff, h.mem_iff]
  have hmax : a.max? = a'.max? := by
    refine Option.ext fun m => ?_
    simp only [List.max?_eq_some_iff, h.mem_iff]
  unfold classStats
  rw [meanStddev_perm h, h.length_eq, hmin, hmax]

theorem welchDf_perm (ha : a.Perm a') (hb : b.Perm b') : welchDf fn a b = welchDf fn a' b' := by
  unfold welchDf
  rw [meanStddev_perm ha, meanStddev_perm hb, ha.length_eq, hb.length_eq]

omit [LinearOrder F] in
theorem meanDiffCi95_perm (ha : a.Perm a') (hb : b.Perm b') :
    meanDiffCi95 fn a b = meanDiffCi95 fn a' b' := by
  unfold meanDiffCi95
  rw [meanStddev_perm ha, meanStddev_perm hb, ha.length_eq, hb.length_eq]

omit [LinearOrder F] in
theorem welchSe_perm (ha : a.Perm a') (hb : b.Perm b') : welchSe fn a b = welchSe fn a' b' := by
  unfold welchSe
  rw [meanStddev_perm ha, meanStddev_perm hb, ha.length_eq, hb.length_eq]

end Order

/-! ## Exchange -/

section Exchange

theorem epsilon_ne [IsStrictOrderedRing F] {x : F} (h : ¬ |x| < epsilon) : x ≠ 0 := by
  rintro rfl
  rw [abs_zero] at h
  exact h epsilon_pos

theorem copysignLarge_neg [IsStrictOrderedRing F] {x : F} (h : x ≠ 0) :
    copysignLarge (-x) = -copysignLarge x := by
  unfold copysignLarge
  rcases lt_or_gt_of_ne h with hneg | hpos
  · rw [if_neg (show ¬ -x < 0 by linarith), if_pos hneg]
    ring
  · rw [if_pos (show -x < 0 by linarith), if_neg (show ¬ x < 0 by linarith)]

/-- The statistic of the exchanged series has the other sign, also where both are
constant. -/
theorem welchT_swap [IsStrictOrderedRing F] (a b : List ℕ) : welchT fn b a = -welchT fn a b := by
  unfold welchT
  by_cases hlen : a.length < 2 ∨ b.length < 2
  · rw [if_pos hlen, if_pos hlen.symm, neg_zero]
  · rw [if_neg hlen, if_neg fun h => hlen h.symm]
    generalize meanStddev fn a = sa
    generalize meanStddev fn b = sb
    obtain ⟨ma, sa⟩ := sa
    obtain ⟨mb, sb⟩ := sb
    dsimp only
    rw [add_comm (sb * sb / (b.length : F)), abs_sub_comm mb ma, ← neg_sub ma mb]
    by_cases hdenom : fn.sqrt (sa * sa / (a.length : F) + sb * sb / (b.length : F)) = 0
    · rw [if_pos hdenom, if_pos hdenom]
      by_cases heps : |ma - mb| < epsilon
      · rw [if_pos heps, if_pos heps, neg_zero]
      · rw [if_neg heps, if_neg heps, copysignLarge_neg (epsilon_ne heps)]
    · rw [if_neg hdenom, if_neg hdenom, neg_div]

/-- One `t` value with the classes exchanged. -/
def TValue.mirror (v : TValue F) : TValue F := ⟨v.crop, -v.t, v.n1, v.n0⟩

theorem tValues_swap [IsStrictOrderedRing F] (a b : List ℕ) :
    tValues fn b a = (tValues fn a b).map TValue.mirror := by
  unfold tValues
  rw [List.map_cons, List.map_map, welchT_swap a b]
  congr 1
  refine List.map_congr_left fun p _ => ?_
  rw [pooledPercentile_perm List.perm_append_comm p]
  exact congrArg (fun t => TValue.mk p t _ _) (welchT_swap _ _)

theorem abs_mirror (l : List (TValue F)) :
    (l.map TValue.mirror).map (fun v => |v.t|) = l.map fun v => |v.t| := by
  rw [List.map_map]
  exact List.map_congr_left fun v _ => abs_neg v.t

theorem cropStatistic_swap [IsStrictOrderedRing F] (a b : List ℕ) :
    cropStatistic fn b a = cropStatistic fn a b := by
  unfold cropStatistic
  rw [tValues_swap, List.drop_one, List.drop_one, ← List.map_tail, abs_mirror]

theorem welchDf_swap (a b : List ℕ) : welchDf fn b a = welchDf fn a b := by
  unfold welchDf
  by_cases hlen : a.length < 2 ∨ b.length < 2
  · rw [if_pos hlen, if_pos hlen.symm]
  · rw [if_neg hlen, if_neg fun h => hlen h.symm]
    dsimp only
    rw [add_comm ((meanStddev fn b).2 * (meanStddev fn b).2 / (b.length : F)),
      add_comm ((meanStddev fn b).2 * (meanStddev fn b).2 / (b.length : F) *
        ((meanStddev fn b).2 * (meanStddev fn b).2 / (b.length : F)) / ((b.length : F) - 1))]

omit [LinearOrder F] in
theorem welchSe_swap (a b : List ℕ) : welchSe fn b a = welchSe fn a b := by
  unfold welchSe
  by_cases hlen : a.length < 2 ∨ b.length < 2
  · rw [if_pos hlen, if_pos hlen.symm]
  · rw [if_neg hlen, if_neg fun h => hlen h.symm]
    dsimp only
    rw [add_comm ((meanStddev fn b).2 * (meanStddev fn b).2 / (b.length : F))]

/-- The difference of the means changes its sign, and its interval with it. -/
theorem meanDiffCi95_swap [IsStrictOrderedRing F] (a b : List ℕ) :
    meanDiffCi95 fn b a = (-(meanDiffCi95 fn a b).1, -(meanDiffCi95 fn a b).2.2,
      -(meanDiffCi95 fn a b).2.1) := by
  unfold meanDiffCi95
  by_cases hlen : a.length < 2 ∨ b.length < 2
  · rw [if_pos hlen, if_pos hlen.symm]
    simp
  · rw [if_neg hlen, if_neg fun h => hlen h.symm]
    dsimp only
    rw [add_comm ((meanStddev fn b).2 * (meanStddev fn b).2 / (b.length : F))]
    refine Prod.ext ?_ (Prod.ext ?_ ?_)
    · dsimp only
      ring
    · dsimp only
      ring
    · dsimp only
      ring

theorem twoSidedPNormal_neg [IsStrictOrderedRing F] (t : F) :
    twoSidedPNormal fn (-t) = twoSidedPNormal fn t := by
  unfold twoSidedPNormal
  rw [abs_neg]

end Exchange

/-! ## The judging functions -/

/-- The result with the classes exchanged. -/
def ExperimentResult.mirror (r : ExperimentResult F) : ExperimentResult F :=
  { r with
    class0 := r.class1
    class1 := r.class0
    tValues := r.tValues.map TValue.mirror
    rawT := -r.rawT
    meanDiffNs := -r.meanDiffNs
    ci95Ns := (-r.ci95Ns.2, -r.ci95Ns.1) }

/-- The samples with other class labels. -/
def RawSamples.relabel (f : ℕ → ℕ) (raw : RawSamples) : RawSamples :=
  ⟨raw.samples.map fun s => (f s.1, s.2)⟩

/-- The labels 0 and 1 swapped; the source takes every other byte for 1. -/
def swapLabel (c : ℕ) : ℕ := if c = 0 then 1 else 0

/-- The number of measurements that are warm-up. -/
def warmup (raw : RawSamples) : ℕ := ⌊(raw.samples.length : ℚ) * warmupFraction⌋₊

section Judging

variable {raw raw' : RawSamples} {i d : String} {bank : List F}

/-- The results with the classes of `raw` exchanged. -/
structure Mirrored (fn : Elementary F) (i d : String) (raw raw' : RawSamples) : Prop where
  judge : judge fn i d raw' = (judge fn i d raw).mirror
  judgeV2 : ∀ bank, judgeV2 fn i d raw' bank = (judgeV2 fn i d raw bank).mirror
  judgeRawOnly : judgeRawOnly fn i d raw' = (judgeRawOnly fn i d raw).mirror

/-- The same results. -/
structure Unmoved (fn : Elementary F) (i d : String) (raw raw' : RawSamples) : Prop where
  judge : judge fn i d raw' = judge fn i d raw
  judgeV2 : ∀ bank, judgeV2 fn i d raw' bank = judgeV2 fn i d raw bank
  judgeRawOnly : judgeRawOnly fn i d raw' = judgeRawOnly fn i d raw

/-- `judge` reads the two series. -/
theorem judge_mirror [IsStrictOrderedRing F]
    (h : splitClasses raw' = (splitClasses raw).swap) :
    judge fn i d raw' = (judge fn i d raw).mirror := by
  unfold judge
  rw [h]
  obtain ⟨c0, c1⟩ := splitClasses raw
  dsimp only [Prod.swap]
  rw [tValues_swap c0 c1, abs_mirror, meanDiffCi95_swap, welchSe_swap, welchDf_swap,
    cropStatistic_swap, Bool.and_comm]
  simp only [ExperimentResult.mirror, tValues, List.map_cons, List.head?_cons, Option.map_some,
    Option.getD_some, TValue.mirror, twoSidedPNormal_neg]

theorem mirrored_of_swap [IsStrictOrderedRing F]
    (h : splitClasses raw' = (splitClasses raw).swap) : Mirrored fn i d raw raw' where
  judge := judge_mirror h
  judgeV2 bank := by
    unfold judgeV2
    rw [judge_mirror h]
    dsimp only [ExperimentResult.mirror]
    rw [abs_neg]
    split_ifs <;> rfl
  judgeRawOnly := by
    unfold judgeRawOnly
    rw [judge_mirror h]
    dsimp only [ExperimentResult.mirror]
    rw [abs_neg]

theorem unmoved_of_perm (h0 : (splitClasses raw').1.Perm (splitClasses raw).1)
    (h1 : (splitClasses raw').2.Perm (splitClasses raw).2) : Unmoved fn i d raw raw' := by
  have hjudge : Ct.judge fn i d raw' = Ct.judge fn i d raw := by
    unfold Ct.judge
    dsimp only
    rw [tValues_perm h0 h1, meanDiffCi95_perm h0 h1, welchSe_perm h0 h1, welchDf_perm h0 h1,
      cropStatistic_perm h0 h1, classStats_perm h0, classStats_perm h1, h0.length_eq, h1.length_eq]
  refine ⟨hjudge, ?_, ?_⟩
  · intro bank
    unfold Ct.judgeV2
    rw [hjudge]
  · unfold Ct.judgeRawOnly
    rw [hjudge]

/-- A relabelling that takes 0 to the other class and the other class to 0 exchanges the two
series. -/
theorem splitClasses_relabel {f : ℕ → ℕ} (h : ∀ s ∈ raw.samples, f s.1 = 0 ↔ s.1 ≠ 0) :
    splitClasses (raw.relabel f) = (splitClasses raw).swap := by
  unfold splitClasses RawSamples.relabel
  dsimp only [Prod.swap]
  rw [List.length_map, ← List.map_drop]
  generalize hskip : ⌊(raw.samples.length : ℚ) * warmupFraction⌋₊ = skip
  have hdrop : ∀ s ∈ raw.samples.drop skip, f s.1 = 0 ↔ s.1 ≠ 0 := fun s hs =>
    h s (List.mem_of_mem_drop hs)
  have hzero : (raw.samples.drop skip).filter (fun s => decide (f s.1 = 0)) =
      (raw.samples.drop skip).filter fun s => decide (s.1 ≠ 0) :=
    List.filter_congr fun s hs => decide_eq_decide.mpr (hdrop s hs)
  have hother : (raw.samples.drop skip).filter (fun s => decide (f s.1 ≠ 0)) =
      (raw.samples.drop skip).filter fun s => decide (s.1 = 0) :=
    List.filter_congr fun s hs => decide_eq_decide.mpr ((hdrop s hs).not.trans not_not)
  rw [List.filter_map, List.filter_map, List.map_map, List.map_map]
  exact Prod.ext (congrArg (List.map (·.2)) hzero) (congrArg (List.map (·.2)) hother)

theorem splitClasses_perm (hlength : raw'.samples.length = raw.samples.length)
    (h : (raw'.samples.drop (warmup raw)).Perm (raw.samples.drop (warmup raw))) :
    (splitClasses raw').1.Perm (splitClasses raw).1 ∧
      (splitClasses raw').2.Perm (splitClasses raw).2 := by
  unfold splitClasses
  rw [hlength]
  exact ⟨(h.filter _).map _, (h.filter _).map _⟩

/-- The verdicts and the statistics do not depend on which class is called 0, but for the signs,
and not on the order after the warm-up. -/
theorem verdicts_invariant [IsStrictOrderedRing F] (fn : Elementary F) (id description : String) :
    (∀ raw : RawSamples, Mirrored fn id description raw (raw.relabel swapLabel)) ∧
    (∀ (raw : RawSamples) (f : ℕ → ℕ), (∀ s ∈ raw.samples, f s.1 = 0 ↔ s.1 ≠ 0) →
      Mirrored fn id description raw (raw.relabel f)) ∧
    (∀ raw raw' : RawSamples,
      raw'.samples.take (warmup raw) = raw.samples.take (warmup raw) →
      (raw'.samples.drop (warmup raw)).Perm (raw.samples.drop (warmup raw)) →
        Unmoved fn id description raw raw') := by
  refine ⟨fun raw => ?_, fun raw f h => mirrored_of_swap (splitClasses_relabel h), ?_⟩
  · refine mirrored_of_swap (splitClasses_relabel fun s _ => ?_)
    unfold swapLabel
    split_ifs with h <;> simp [h]
  · intro raw raw' htake hdrop
    have hlength : raw'.samples.length = raw.samples.length := by
      rw [← List.take_append_drop (warmup raw) raw'.samples, htake, List.length_append,
        hdrop.length_eq, ← List.length_append, List.take_append_drop]
    obtain ⟨h0, h1⟩ := splitClasses_perm hlength hdrop
    exact unmoved_of_perm h0 h1

/-- Two series of two measurements each, with the labels swapped. -/
theorem sample_invariance :
    (judge Elementary.real "tiny" "" ((twoBlocks 2 2 100 200).relabel swapLabel)).rawT =
      -(judge Elementary.real "tiny" "" (twoBlocks 2 2 100 200)).rawT := by
  have h := (verdicts_invariant Elementary.real "tiny" "").1 (twoBlocks 2 2 100 200)
  rw [h.judge]
  rfl

end Judging

end Trelyan.Ct
