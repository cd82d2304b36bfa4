import Mathlib.Tactic.Linarith
import Mathlib.Tactic.FieldSimp
import Trelyan.Ct.Stats

/-!
# Judging one experiment

The three judging functions of `falcon-ct/src/lib.rs`, the control rule and
the folding of null sessions.  Each of the three computes the statistics of a
list of samples and derives its verdict from them; `Enough`, `rawT` and
`cropStat` name the three numbers that the verdict reads, and one lemma for
each function says what the verdict is in terms of them.
-/

namespace Trelyan.Ct

/-- The words a session or an experiment can end in. -/
inductive Verdict where
  | pass
  | shape
  | fail
  | inconclusive
  deriving DecidableEq, Repr

/-- The worse of two verdicts, for folding a session. -/
def Verdict.worse : Verdict → Verdict → Verdict
  | .inconclusive, _ | _, .inconclusive => .inconclusive
  | .fail, _ | _, .fail => .fail
  | .shape, _ | _, .shape => .shape
  | .pass, .pass => .pass

/-- The decision table of the methodology: enough samples, a location difference, a shape
difference. -/
def Verdict.ofFindings (enough located shaped : Prop) [Decidable enough] [Decidable located]
    [Decidable shaped] : Verdict :=
  if enough then
    if located then .fail
    else if shaped then .shape
    else .pass
  else .inconclusive

namespace Verdict

variable {enough located shaped : Prop} [Decidable enough] [Decidable located]
  [Decidable shaped]

theorem ofFindings_eq_inconclusive_iff :
    ofFindings enough located shaped = .inconclusive ↔ ¬ enough := by
  unfold ofFindings
  split_ifs <;> simp [*]

theorem ofFindings_eq_fail_iff :
    ofFindings enough located shaped = .fail ↔ enough ∧ located := by
  unfold ofFindings
  split_ifs <;> simp [*]

theorem ofFindings_eq_shape_iff :
    ofFindings enough located shaped = .shape ↔ enough ∧ ¬ located ∧ shaped := by
  unfold ofFindings
  split_ifs <;> simp [*]

theorem ofFindings_eq_pass_iff :
    ofFindings enough located shaped = .pass ↔ enough ∧ ¬ located ∧ ¬ shaped := by
  unfold ofFindings
  split_ifs <;> simp [*]

end Verdict

/-- The full result of one experiment; `none` in a power field is `f64::NAN`. -/
structure ExperimentResult (F : Type) where
  id : String
  description : String
  class0 : ClassStats F
  class1 : ClassStats F
  tValues : List (TValue F)
  maxAbsT : F
  distinguishable : Bool
  enoughSamples : Bool
  isolatedVerdict : Verdict
  rawT : F
  df : F
  pRaw : F
  meanDiffNs : F
  ci95Ns : F × F
  cropMaxAbsT : F
  cropEmpiricalP : Option F
  seNs : Option F
  mde80Ns : Option F
  mde90Ns : Option F

variable {F : Type} [Field F] [LinearOrder F] (fn : Elementary F)

/-- Judging of version 1: `max |t|` over raw and nine crops. -/
def judge (id description : String) (raw : RawSamples) : ExperimentResult F :=
  let (c0, c1) := splitClasses raw
  let tv := tValues fn c0 c1
  let maxAbsT := (tv.map fun v => |v.t|).foldl max 0
  let enough := decide (minPerClass ≤ c0.length) && decide (minPerClass ≤ c1.length)
  let distinguishable := decide (tThreshold ≤ maxAbsT)
  let isolatedVerdict :=
    if !enough then Verdict.inconclusive
    else if distinguishable then .fail
    else .pass
  let rawT := (tv.head?.map (·.t)).getD 0
  let (meanDiffNs, ci95Ns) := meanDiffCi95 fn c0 c1
  let seNs := welchSe fn c0 c1
  { id, description
    class0 := classStats fn c0
    class1 := classStats fn c1
    tValues := tv
    maxAbsT, distinguishable
    enoughSamples := enough
    isolatedVerdict, rawT
    df := welchDf fn c0 c1
    pRaw := twoSidedPNormal fn rawT
    meanDiffNs, ci95Ns
    cropMaxAbsT := cropStatistic fn c0 c1
    cropEmpiricalP := none
    seNs
    mde80Ns := minDetectableEffect fn seNs tThreshold 0.80
    mde90Ns := minDetectableEffect fn seNs tThreshold 0.90 }

/-- Judging of version 2: the crop statistic against the null sessions. -/
def judgeV2 (id description : String) (raw : RawSamples) (nullCropStats : List F) :
    ExperimentResult F :=
  let r := judge fn id description raw
  let n := nullCropStats.length
  let distinguishable := decide (tThreshold ≤ |r.rawT|)
  if n = 0 then
    -- no null, no secondary verdict
    { r with
      distinguishable
      cropEmpiricalP := none
      isolatedVerdict := if distinguishable then .fail else .inconclusive }
  else
    let ge := (nullCropStats.filter fun s => r.cropMaxAbsT ≤ s).length
    let p : F := ((ge : F) + 1) / ((n : F) + 1)
    { r with
      distinguishable
      cropEmpiricalP := some p
      isolatedVerdict :=
        if !r.enoughSamples then .inconclusive
        else if distinguishable then .fail
        else if p < 1 / (n : F) then .shape
        else .pass }

/-- Judging of the synthetic controls, on the raw line only.  In exact arithmetic every raw
`t` is finite. -/
def judgeRawOnly (id description : String) (raw : RawSamples) : ExperimentResult F :=
  let r := judge fn id description raw
  let distinguishable := decide (tThreshold ≤ |r.rawT|)
  { r with
    distinguishable
    cropEmpiricalP := none
    isolatedVerdict :=
      if !r.enoughSamples then .inconclusive
      else if distinguishable then .fail
      else .pass }

/-- The control rule: a verdict stands only if flat passed and leaky failed. -/
def applyControls (isolated flatControl leakyControl : Verdict) : Verdict :=
  let controlsOk := flatControl = .pass ∧ leakyControl = .fail
  if controlsOk then isolated else .inconclusive

/-- Fold the null sessions into their crop statistics, or the reason they are unusable. -/
def nullFromSessions (sessions : List (ExperimentResult F)) : Except String (List F) :=
  if sessions.isEmpty then
    .error "no null sessions ran"
  else
    let tooFew := (sessions.filter fun s => !s.enoughSamples).map (·.id)
    let rawFail :=
      (sessions.filter fun s => s.enoughSamples && decide (tThreshold ≤ |s.rawT|)).map (·.id)
    if !tooFew.isEmpty || !rawFail.isEmpty then
      .error ("below the per-class minimum: [" ++ ", ".intercalate tooFew ++
        "]; raw |t| >= 4.5: [" ++ ", ".intercalate rawFail ++ "]")
    else
      .ok (sessions.map (·.cropMaxAbsT))

/-! ## What a verdict reads -/

/-- Both classes reach the minimum after the warm-up. -/
def Enough (raw : RawSamples) : Prop :=
  minPerClass ≤ (splitClasses raw).1.length ∧ minPerClass ≤ (splitClasses raw).2.length

instance (raw : RawSamples) : Decidable (Enough raw) :=
  inferInstanceAs (Decidable (_ ∧ _))

/-- The raw statistic of a list of samples. -/
def rawT (raw : RawSamples) : F :=
  welchT fn (splitClasses raw).1 (splitClasses raw).2

/-- The crop statistic of a list of samples. -/
def cropStat (raw : RawSamples) : F :=
  cropStatistic fn (splitClasses raw).1 (splitClasses raw).2

/-- The classes are distinguishable in location. -/
def Distinguishable (raw : RawSamples) : Prop :=
  (tThreshold : F) ≤ |rawT fn raw|

/-- The crop statistic exceeds every null session's. -/
def ExceedsAll (bank : List F) (raw : RawSamples) : Prop :=
  ∀ s ∈ bank, s < cropStat fn raw

instance (raw : RawSamples) : Decidable (Distinguishable fn raw) :=
  inferInstanceAs (Decidable (_ ≤ _))

instance (bank : List F) (raw : RawSamples) : Decidable (ExceedsAll fn bank raw) :=
  inferInstanceAs (Decidable (∀ s ∈ bank, s < cropStat fn raw))

variable {fn} {raw : RawSamples} {bank : List F} {i d : String}

theorem judge_enoughSamples : (judge fn i d raw).enoughSamples = decide (Enough raw) :=
  (Bool.decide_and _ _).symm

theorem judge_rawT : (judge fn i d raw).rawT = rawT fn raw := by
  simp [judge, rawT, tValues]

theorem judge_cropMaxAbsT : (judge fn i d raw).cropMaxAbsT = cropStat fn raw := rfl

theorem judgeV2_id : (judgeV2 fn i d raw bank).id = i := by
  unfold judgeV2
  by_cases h : bank.length = 0
  · rw [if_pos h]
    rfl
  · rw [if_neg h]
    rfl

/-! ## The empirical `p` -/

/-- The empirical `p` of a statistic against a bank. -/
def empiricalP (bank : List F) (c : F) : F :=
  (((bank.filter fun s => c ≤ s).length : F) + 1) / ((bank.length : F) + 1)

section EmpiricalP

variable [IsStrictOrderedRing F]

/-- The rank test at the floor `1 / n` fires exactly when no member of the bank counts. -/
theorem rank_lt_floor_iff {ge n : ℕ} (hn : 0 < n) :
    ((ge : F) + 1) / ((n : F) + 1) < 1 / (n : F) ↔ ge = 0 := by
  have hn' : (0 : F) < (n : F) := by exact_mod_cast hn
  have hn1 : (0 : F) < (n : F) + 1 := by linarith
  rw [div_lt_div_iff₀ hn1 hn', one_mul]
  have hcast : ((ge : F) + 1) * (n : F) < (n : F) + 1 ↔ (ge + 1) * n < n + 1 := by
    exact_mod_cast Iff.rfl
  rw [hcast]
  constructor
  · intro h
    by_contra hge
    have h1 : 1 ≤ ge := Nat.one_le_iff_ne_zero.mpr hge
    have h2 : 2 * n ≤ (ge + 1) * n := Nat.mul_le_mul_right n (by omega)
    omega
  · intro h
    subst h
    omega

/-- The `p` test of the source, in terms of the order. -/
theorem empiricalP_lt_iff (hb : bank ≠ []) (c : F) :
    empiricalP bank c < 1 / (bank.length : F) ↔ ∀ s ∈ bank, s < c := by
  unfold empiricalP
  rw [rank_lt_floor_iff (List.length_pos_iff.mpr hb), List.length_eq_zero_iff,
    List.filter_eq_nil_iff]
  simp only [decide_eq_true_eq, not_le]

end EmpiricalP

/-! ## The verdict of each judging function -/

theorem judge_isolatedVerdict_of_not_enough (h : ¬ Enough raw) :
    (judge fn i d raw).isolatedVerdict = .inconclusive := by
  show (if !(judge fn i d raw).enoughSamples then _ else _) = _
  rw [judge_enoughSamples, decide_eq_false h]
  rfl

theorem judgeRawOnly_isolatedVerdict :
    (judgeRawOnly fn i d raw).isolatedVerdict =
      .ofFindings (Enough raw) (Distinguishable fn raw) False := by
  have hv : (judgeRawOnly fn i d raw).isolatedVerdict =
      if !decide (Enough raw) then .inconclusive
      else if decide (tThreshold ≤ |rawT fn raw|) then .fail
      else .pass := by
    simp only [judgeRawOnly, judge_enoughSamples, judge_rawT]
  rw [hv]
  unfold Verdict.ofFindings
  by_cases he : Enough raw
  · by_cases ht : Distinguishable fn raw
    · simp [he, ht, show tThreshold ≤ |rawT fn raw| from ht]
    · simp [he, ht, show ¬ tThreshold ≤ |rawT fn raw| from ht]
  · simp [he]

/-- With an empty bank the sample count is not looked at. -/
theorem judgeV2_nil_isolatedVerdict :
    (judgeV2 fn i d raw []).isolatedVerdict =
      if Distinguishable fn raw then .fail else .inconclusive := by
  have hv : (judgeV2 fn i d raw []).isolatedVerdict =
      if decide (tThreshold ≤ |rawT fn raw|) then .fail else .inconclusive := by
    simp only [judgeV2, List.length_nil, if_true, judge_rawT]
  rw [hv]
  by_cases ht : Distinguishable fn raw
  · simp [ht, show tThreshold ≤ |rawT fn raw| from ht]
  · simp [ht, show ¬ tThreshold ≤ |rawT fn raw| from ht]

theorem judgeV2_cropEmpiricalP (hb : bank ≠ []) :
    (judgeV2 fn i d raw bank).cropEmpiricalP = some (empiricalP bank (cropStat fn raw)) := by
  have hn : bank.length ≠ 0 := by
    intro h
    exact hb (List.length_eq_zero_iff.mp h)
  simp only [judgeV2, if_neg hn, judge_cropMaxAbsT]
  rfl

theorem judgeV2_isolatedVerdict [IsStrictOrderedRing F] (hb : bank ≠ []) :
    (judgeV2 fn i d raw bank).isolatedVerdict =
      .ofFindings (Enough raw) (Distinguishable fn raw) (ExceedsAll fn bank raw) := by
  have hn : bank.length ≠ 0 := by
    intro h
    exact hb (List.length_eq_zero_iff.mp h)
  have hv : (judgeV2 fn i d raw bank).isolatedVerdict =
      if !decide (Enough raw) then .inconclusive
      else if decide (tThreshold ≤ |rawT fn raw|) then .fail
      else if empiricalP bank (cropStat fn raw) < 1 / (bank.length : F) then .shape
      else .pass := by
    simp only [judgeV2, if_neg hn, judge_enoughSamples, judge_rawT, judge_cropMaxAbsT]
    rfl
  rw [hv]
  unfold Verdict.ofFindings
  by_cases he : Enough raw
  · by_cases ht : Distinguishable fn raw
    · simp [he, ht, show tThreshold ≤ |rawT fn raw| from ht]
    · have ht' : ¬ tThreshold ≤ |rawT fn raw| := ht
      by_cases hx : ExceedsAll fn bank raw
      · rw [if_pos ((empiricalP_lt_iff hb _).mpr hx)]
        simp [he, ht, ht', hx]
      · rw [if_neg ((empiricalP_lt_iff hb _).not.mpr hx)]
        simp [he, ht, ht', hx]
  · simp [he]

theorem judgeV2_nil_ne :
    (judgeV2 fn i d raw []).isolatedVerdict ≠ .shape ∧
      (judgeV2 fn i d raw []).isolatedVerdict ≠ .pass := by
  rw [judgeV2_nil_isolatedVerdict]
  split_ifs <;> simp

theorem judgeV2_eq_shape_iff [IsStrictOrderedRing F] :
    (judgeV2 fn i d raw bank).isolatedVerdict = .shape ↔
      bank ≠ [] ∧ Enough raw ∧ ¬ Distinguishable fn raw ∧ ExceedsAll fn bank raw := by
  by_cases hb : bank = []
  · subst hb
    simp [judgeV2_nil_ne.1]
  · rw [judgeV2_isolatedVerdict hb, Verdict.ofFindings_eq_shape_iff]
    simp [hb]

theorem judgeV2_eq_pass_iff [IsStrictOrderedRing F] :
    (judgeV2 fn i d raw bank).isolatedVerdict = .pass ↔
      bank ≠ [] ∧ Enough raw ∧ ¬ Distinguishable fn raw ∧ ¬ ExceedsAll fn bank raw := by
  by_cases hb : bank = []
  · subst hb
    simp [judgeV2_nil_ne.2]
  · rw [judgeV2_isolatedVerdict hb, Verdict.ofFindings_eq_pass_iff]
    simp [hb]

theorem judgeRawOnly_eq_pass_iff :
    (judgeRawOnly fn i d raw).isolatedVerdict = .pass ↔
      Enough raw ∧ ¬ Distinguishable fn raw := by
  rw [judgeRawOnly_isolatedVerdict, Verdict.ofFindings_eq_pass_iff]
  simp

theorem judgeRawOnly_eq_fail_iff :
    (judgeRawOnly fn i d raw).isolatedVerdict = .fail ↔ Enough raw ∧ Distinguishable fn raw := by
  rw [judgeRawOnly_isolatedVerdict, Verdict.ofFindings_eq_fail_iff]

theorem judgeRawOnly_eq_inconclusive_iff :
    (judgeRawOnly fn i d raw).isolatedVerdict = .inconclusive ↔ ¬ Enough raw := by
  rw [judgeRawOnly_isolatedVerdict, Verdict.ofFindings_eq_inconclusive_iff]

/-! ## The minimum sample size -/

/-- What the sample-size rule asks of the three judging functions. -/
def MinimumSampleLaw (fn : Elementary F) (id description : String) (raw : RawSamples)
    (bank : List F) : Prop :=
  (¬ Enough raw →
    (judge fn id description raw).isolatedVerdict = .inconclusive ∧
      (judgeV2 fn id description raw bank).isolatedVerdict = .inconclusive ∧
      (judgeRawOnly fn id description raw).isolatedVerdict = .inconclusive) ∧
  (Enough raw →
    (judgeRawOnly fn id description raw).isolatedVerdict ≠ .inconclusive ∧
      (bank ≠ [] → (judgeV2 fn id description raw bank).isolatedVerdict ≠ .inconclusive))

/-- The rule fails exactly in the early return for the empty bank, which looks at the raw
statistic and not at the sample count. -/
theorem minimumSampleLaw_iff [IsStrictOrderedRing F] (fn : Elementary F)
    (id description : String) (raw : RawSamples) (bank : List F) :
    MinimumSampleLaw fn id description raw bank ↔
      ¬ (bank = [] ∧ ¬ Enough raw ∧ Distinguishable fn raw) := by
  unfold MinimumSampleLaw
  rw [Ne, judgeRawOnly_eq_inconclusive_iff]
  by_cases hb : bank = []
  · subst hb
    rw [judgeV2_nil_isolatedVerdict]
    by_cases he : Enough raw
    · simp [he]
    · by_cases ht : Distinguishable fn raw
      · simp [he, ht]
      · simp [he, ht, judge_isolatedVerdict_of_not_enough he]
  · have hv2 : (judgeV2 fn id description raw bank).isolatedVerdict = .inconclusive ↔
        ¬ Enough raw := by
      rw [judgeV2_isolatedVerdict hb, Verdict.ofFindings_eq_inconclusive_iff]
    by_cases he : Enough raw
    · simp [he, hb, hv2]
    · simp [he, hb, hv2, judge_isolatedVerdict_of_not_enough he]

/-- The same four samples against a bank of one session. -/
theorem sample_minimumSampleLaw :
    MinimumSampleLaw Elementary.real "tiny" "" (twoBlocks 2 2 100 200) [1] := by
  refine (minimumSampleLaw_iff Elementary.real "tiny" "" (twoBlocks 2 2 100 200) [1]).mpr ?_
  intro h
  exact absurd h.1 (List.cons_ne_nil _ _)

theorem enough_twoBlocks {m k x y : ℕ} (h : (m + k) / 50 ≤ m) :
    Enough (twoBlocks m k x y) ↔ 2000 ≤ m - (m + k) / 50 ∧ 2000 ≤ k := by
  unfold Enough
  rw [splitClasses_twoBlocks h]
  simp [minPerClass]

section TwoBlocks

variable [IsStrictOrderedRing F] {m k x y : ℕ}

theorem rawT_twoBlocks_flat (hsqrt : fn.sqrt 0 = 0) (h : (m + k) / 50 ≤ m) :
    rawT fn (twoBlocks m k x x) = 0 := by
  unfold rawT
  rw [splitClasses_twoBlocks h]
  exact welchT_flat hsqrt (fun z => List.eq_of_mem_replicate)
    (fun z => List.eq_of_mem_replicate)

theorem cropStat_twoBlocks_flat (hsqrt : fn.sqrt 0 = 0) (h : (m + k) / 50 ≤ m) :
    cropStat fn (twoBlocks m k x x) = 0 := by
  unfold cropStat
  rw [splitClasses_twoBlocks h]
  exact cropStatistic_flat hsqrt (fun z => List.eq_of_mem_replicate)
    (fun z => List.eq_of_mem_replicate)

theorem not_distinguishable_flat (hsqrt : fn.sqrt 0 = 0) (h : (m + k) / 50 ≤ m) :
    ¬ Distinguishable fn (twoBlocks m k x x) := by
  unfold Distinguishable tThreshold
  rw [rawT_twoBlocks_flat hsqrt h, abs_zero]
  norm_num

/-- Two constant classes that differ are as distinguishable as can be. -/
theorem distinguishable_twoBlocks (hsqrt : fn.sqrt 0 = 0) (h : (m + k) / 50 + 2 ≤ m)
    (hk : 2 ≤ k) : Distinguishable fn (twoBlocks m k 100 200) := by
  unfold Distinguishable rawT tThreshold
  rw [splitClasses_twoBlocks (by omega),
    welchT_constant hsqrt (fun z => List.eq_of_mem_replicate)
      (fun z => List.eq_of_mem_replicate) (by simp; omega) (by simp; omega)]
  have heps : ¬ |((100 : ℕ) : F) - ((200 : ℕ) : F)| < epsilon := by
    unfold epsilon
    norm_num
  rw [if_neg heps]
  unfold copysignLarge
  norm_num

end TwoBlocks

/-- Two samples of each class, and a verdict all the same. -/
theorem judgeV2_fails_undersampled :
    ¬ MinimumSampleLaw Elementary.real "tiny" "" (twoBlocks 2 2 100 200) [] := by
  have hsqrt : Elementary.real.sqrt 0 = 0 := Real.sqrt_zero
  have ht : Distinguishable Elementary.real (twoBlocks 2 2 100 200) :=
    distinguishable_twoBlocks hsqrt (by omega) (by omega)
  have he : ¬ Enough (twoBlocks 2 2 100 200) := by
    rw [enough_twoBlocks (by omega)]
    omega
  intro hlaw
  have hv := (hlaw.1 he).2.1
  rw [judgeV2_nil_isolatedVerdict, if_pos ht] at hv
  cases hv

/-! ## The shape rule -/

/-- One more session in the bank, wherever it stands. -/
theorem exceedsAll_of_perm_cons {bank bank' : List F} {s : F} (h : bank'.Perm (s :: bank))
    (raw : RawSamples) :
    ExceedsAll fn bank' raw ↔ s < cropStat fn raw ∧ ExceedsAll fn bank raw := by
  unfold ExceedsAll
  simp only [h.mem_iff, List.forall_mem_cons]

/-- The `p` test is "exceeds every null session", an empty bank never speaks, and one more
null session can only move SHAPE to PASS. -/
theorem shape_rule [IsStrictOrderedRing F] (fn : Elementary F) (id description : String)
    (raw : RawSamples) (bank : List F) :
    (bank ≠ [] →
      (judgeV2 fn id description raw bank).cropEmpiricalP =
        some (empiricalP bank (cropStat fn raw)) ∧
      ∀ c : F, empiricalP bank c < 1 / (bank.length : F) ↔ ∀ s ∈ bank, s < c) ∧
    (bank ≠ [] →
      ((judgeV2 fn id description raw bank).isolatedVerdict = .shape ↔
        Enough raw ∧ |rawT fn raw| < tThreshold ∧ ∀ s ∈ bank, s < cropStat fn raw)) ∧
    (judgeV2 fn id description raw []).isolatedVerdict ≠ .shape ∧
    (judgeV2 fn id description raw []).isolatedVerdict ≠ .pass ∧
    (∀ (s : F) (bank' : List F), bank'.Perm (s :: bank) →
      ((judgeV2 fn id description raw bank).isolatedVerdict = .pass →
        (judgeV2 fn id description raw bank').isolatedVerdict = .pass) ∧
      ((judgeV2 fn id description raw bank).isolatedVerdict = .shape →
        (judgeV2 fn id description raw bank').isolatedVerdict =
          if cropStat fn raw ≤ s then .pass else .shape)) := by
  refine ⟨fun hb => ⟨judgeV2_cropEmpiricalP hb, empiricalP_lt_iff hb⟩, ?_, judgeV2_nil_ne.1,
    judgeV2_nil_ne.2, ?_⟩
  · intro hb
    rw [judgeV2_eq_shape_iff]
    unfold Distinguishable ExceedsAll
    rw [not_le]
    simp [hb]
  · intro s bank' hperm
    have hb' : bank' ≠ [] := by
      intro h
      subst h
      exact List.cons_ne_nil _ _ hperm.nil_eq.symm
    have hall : ExceedsAll fn bank' raw ↔ s < cropStat fn raw ∧ ExceedsAll fn bank raw :=
      exceedsAll_of_perm_cons hperm raw
    constructor
    · intro hpass
      rcases judgeV2_eq_pass_iff.mp hpass with ⟨-, he, ht, hx⟩
      refine judgeV2_eq_pass_iff.mpr ⟨hb', he, ht, ?_⟩
      intro h
      exact hx (hall.mp h).2
    · intro hshape
      rcases judgeV2_eq_shape_iff.mp hshape with ⟨-, he, ht, hx⟩
      by_cases hs : cropStat fn raw ≤ s
      · rw [if_pos hs]
        refine judgeV2_eq_pass_iff.mpr ⟨hb', he, ht, ?_⟩
        intro h
        exact absurd (hall.mp h).1 (not_lt.mpr hs)
      · rw [if_neg hs]
        exact judgeV2_eq_shape_iff.mpr ⟨hb', he, ht, hall.mpr ⟨not_le.mp hs, hx⟩⟩

/-- A flat series whose bank lies below its own crop statistic. -/
theorem sample_shape :
    (judgeV2 Elementary.real "control-flat" "x" (twoBlocks 2100 2100 100 100)
      [-1]).isolatedVerdict = .shape := by
  have hsqrt : Elementary.real.sqrt 0 = 0 := Real.sqrt_zero
  have hrule := shape_rule Elementary.real "control-flat" "x" (twoBlocks 2100 2100 100 100) [-1]
  refine (hrule.2.1 (List.cons_ne_nil _ _)).mpr ⟨?_, ?_, ?_⟩
  · rw [enough_twoBlocks (by omega)]
    omega
  · rw [rawT_twoBlocks_flat hsqrt (by omega)]
    unfold tThreshold
    norm_num
  · rw [cropStat_twoBlocks_flat hsqrt (by omega)]
    simp

end Trelyan.Ct
