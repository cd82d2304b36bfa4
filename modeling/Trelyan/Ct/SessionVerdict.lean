import Trelyan.Lib.Except
import Trelyan.Ct.Session

/-!
# What a session verdict means

`session_verdict_sound` reads a verdict back to the samples: whatever the
timings were and whichever session could not run, a verdict other than
INCONCLUSIVE comes from an accepted null, two controls that behaved and an A/A
control that passed, and PASS from pairs and pools without a finding.  The
proofs follow the pipeline: what an accepted null says of each null session,
when the controls let the session speak, and then what the combination rule
makes of the verdicts of the single experiments.
-/

namespace Trelyan.Ct

variable {F : Type} [Field F] [LinearOrder F]

/-! ## The combination rules -/

theorem Verdict.worse_eq_inconclusive_iff {a b : Verdict} :
    a.worse b = .inconclusive ↔ a = .inconclusive ∨ b = .inconclusive := by
  cases a <;> cases b <;> simp [Verdict.worse]

theorem Verdict.worse_eq_pass_iff {a b : Verdict} : a.worse b = .pass ↔ a = .pass ∧ b = .pass := by
  cases a <;> cases b <;> simp [Verdict.worse]

theorem Verdict.pass_worse (a : Verdict) : Verdict.pass.worse a = a := by
  cases a <;> rfl

theorem Verdict.fail_worse {a : Verdict} (h : a ≠ .inconclusive) :
    Verdict.fail.worse a = .fail := by
  cases a with
  | inconclusive => exact absurd rfl h
  | _ => rfl

theorem kkCombined_eq_inconclusive_iff {kk : List Verdict} :
    kkCombined kk = .inconclusive ↔ .inconclusive ∈ kk := by
  unfold kkCombined
  split_ifs <;> simp_all

theorem kkCombined_eq_fail_iff {kk : List Verdict} :
    kkCombined kk = .fail ↔ .inconclusive ∉ kk ∧ .fail ∈ kk := by
  unfold kkCombined
  split_ifs <;> simp_all

theorem kkCombined_eq_pass_iff {kk : List Verdict} :
    kkCombined kk = .pass ↔
      .inconclusive ∉ kk ∧ .fail ∉ kk ∧ (kk.filter (· == .shape)).length < 2 := by
  unfold kkCombined
  split_ifs <;> simp_all
  omega

/-- Two places that a short filtered list keeps are the same place. -/
theorem eq_of_filter_length_lt_two {α : Type} {l : List α} {p : α → Bool}
    (h : (l.filter p).length < 2) {a b : α} (ha : a ∈ l) (hb : b ∈ l) (hpa : p a = true)
    (hpb : p b = true) : a = b := by
  have hmem {x : α} (hx : x ∈ l) (hpx : p x = true) : x ∈ l.filter p :=
    List.mem_filter.mpr ⟨hx, hpx⟩
  by_contra hne
  have hsub : [a, b].Subperm (l.filter p) := by
    apply List.subperm_of_subset
    · simp [hne]
    · simp [hmem ha hpa, hmem hb hpb]
  have hlen := hsub.length_le
  simp only [List.length_cons, List.length_nil] at hlen
  omega

variable {fn : Elementary F}

/-! ## The null -/

theorem nullFromSessions_eq_ok {sessions : List (ExperimentResult F)} {v : List F} :
    nullFromSessions sessions = .ok v ↔
      sessions ≠ [] ∧ (∀ s ∈ sessions, s.enoughSamples = true ∧ |s.rawT| < tThreshold) ∧
        v = sessions.map (·.cropMaxAbsT) := by
  unfold nullFromSessions
  by_cases hempty : sessions = []
  · simp [hempty]
  · -- both lists of complaints are empty exactly when every session is sound
    have hclean : (!((sessions.filter fun s => !s.enoughSamples).map (·.id)).isEmpty ||
        !((sessions.filter fun s => s.enoughSamples &&
          decide (tThreshold ≤ |s.rawT|)).map (·.id)).isEmpty) = false ↔
        ∀ s ∈ sessions, s.enoughSamples = true ∧ |s.rawT| < tThreshold := by
      rw [Bool.or_eq_false_iff, Bool.not_eq_false', Bool.not_eq_false', List.isEmpty_iff,
        List.isEmpty_iff, List.map_eq_nil_iff, List.map_eq_nil_iff, List.filter_eq_nil_iff,
        List.filter_eq_nil_iff]
      simp only [Bool.and_eq_true, decide_eq_true_eq, not_and, not_le, Bool.not_eq_true',
        Bool.not_eq_false]
      constructor
      · intro ⟨henough, hraw⟩ s hs
        exact ⟨henough s hs, hraw s hs (henough s hs)⟩
      · intro h
        exact ⟨fun s hs => (h s hs).1, fun s hs _ => (h s hs).2⟩
    by_cases hall : ∀ s ∈ sessions, s.enoughSamples = true ∧ |s.rawT| < tThreshold
    · simp only [List.isEmpty_iff, hempty, if_false, hclean.mpr hall, Bool.false_eq_true]
      rw [Except.ok.injEq]
      exact ⟨fun h => ⟨hempty, hall, h.symm⟩, fun h => h.2.2.symm⟩
    · have hdirty := (Bool.not_eq_false _).mp (mt hclean.mp hall)
      simp only [List.isEmpty_iff, hempty, if_false, hdirty, if_true]
      simp [hall]

section NullLoop

variable {tag what : String} {run : ℕ → Except String RawSamples} {ks : List ℕ}

/-- Nothing is missing exactly when every session could run. -/
theorem nullLoop_length_eq_iff :
    (nullLoop fn tag what run ks).length = ks.length ↔ ∀ k ∈ ks, ∃ raw, run k = .ok raw := by
  induction ks with
  | nil => simp [nullLoop]
  | cons k ks ih =>
    unfold nullLoop
    cases hk : run k with
    | error e => simp [hk]
    | ok raw => simp [hk, ih]

theorem mem_nullLoop {r : ExperimentResult F} (hrun : ∀ k ∈ ks, ∃ raw, run k = .ok raw) :
    r ∈ nullLoop fn tag what run ks ↔
      ∃ k ∈ ks, ∃ raw, run k = .ok raw ∧ r = judge fn (tag ++ "-" ++ toString k) what raw := by
  induction ks with
  | nil => simp [nullLoop]
  | cons k ks ih =>
    rcases hrun k (by simp) with ⟨raw, hk⟩
    unfold nullLoop
    rw [hk]
    simp only [List.mem_cons, ih fun j hj => hrun j (by simp [hj])]
    constructor
    · intro h
      rcases h with h | ⟨j, hj, raw', hraw', hr⟩
      · exact ⟨k, Or.inl rfl, raw, hk, h⟩
      · exact ⟨j, Or.inr hj, raw', hraw', hr⟩
    · intro ⟨j, hj, raw', hraw', hr⟩
      rcases hj with hj | hj
      · subst hj
        rw [hk] at hraw'
        cases hraw'
        exact Or.inl hr
      · exact Or.inr ⟨j, hj, raw', hraw', hr⟩

end NullLoop

theorem exists_runNullSessions_eq (fn : Elementary F) (design : NullDesign) (n : ℕ)
    (run : ℕ → Except String RawSamples) :
    ∃ tag what, runNullSessions fn design n run = nullLoop fn tag what run (List.range n) := by
  cases design with
  | rr => exact ⟨_, _, rfl⟩
  | ss => exact ⟨_, _, rfl⟩

theorem foldNull_cases (results : List (ExperimentResult F)) (expected : ℕ) :
    (∃ stats, results.length = expected ∧ nullFromSessions results = .ok stats ∧
      foldNull results expected = (true, stats, "OK")) ∨
    (∃ reason, ¬ (results.length = expected ∧ ∃ stats, nullFromSessions results = .ok stats) ∧
      foldNull results expected = (false, [], "NOT OK — " ++ reason)) := by
  unfold foldNull
  by_cases hlen : results.length = expected
  · rw [if_pos hlen]
    cases hv : nullFromSessions results with
    | ok stats => exact Or.inl ⟨stats, hlen, rfl, rfl⟩
    | error reason => exact Or.inr ⟨reason, by simp, rfl⟩
  · rw [if_neg hlen]
    exact Or.inr ⟨_, fun h => hlen h.1, rfl⟩

/-- The null sessions of `m` ran to the requested number, and each is sound. -/
def NullSound (fn : Elementary F) (opts : Opts) (m : Measurements) : Prop :=
  opts.nullSessions ≠ 0 ∧
    ∀ k < opts.nullSessions, ∃ raw, m.nullSession k = .ok raw ∧ Enough raw ∧
      |rawT fn raw| < tThreshold

/-- The samples exceed every null session in the crop statistic. -/
def ExceedsEveryNull (fn : Elementary F) (opts : Opts) (m : Measurements) (raw : RawSamples) :
    Prop :=
  ∀ k < opts.nullSessions, ∀ null, m.nullSession k = .ok null →
    cropStat fn null < cropStat fn raw

section Controls

variable {opts : Opts} {m : Measurements}

/-- No session of the null is missing when each of them could run. -/
theorem runNullSessions_length_iff :
    (runNullSessions fn opts.nullDesign opts.nullSessions m.nullSession).length =
      opts.nullSessions ↔ ∀ k < opts.nullSessions, ∃ raw, m.nullSession k = .ok raw := by
  rcases exists_runNullSessions_eq fn opts.nullDesign opts.nullSessions m.nullSession with
    ⟨tag, what, hloop⟩
  have h : (nullLoop fn tag what m.nullSession (List.range opts.nullSessions)).length =
      (List.range opts.nullSessions).length ↔
        ∀ k ∈ List.range opts.nullSessions, ∃ raw, m.nullSession k = .ok raw :=
    nullLoop_length_eq_iff
  rw [hloop]
  simpa using h

/-- Then the sessions are the judged samples. -/
theorem exists_mem_runNullSessions_iff
    (hrun : ∀ k < opts.nullSessions, ∃ raw, m.nullSession k = .ok raw) :
    ∃ tag what, ∀ r : ExperimentResult F,
      r ∈ runNullSessions fn opts.nullDesign opts.nullSessions m.nullSession ↔
        ∃ k < opts.nullSessions, ∃ raw, m.nullSession k = .ok raw ∧
          r = judge fn (tag ++ "-" ++ toString k) what raw := by
  rcases exists_runNullSessions_eq fn opts.nullDesign opts.nullSessions m.nullSession with
    ⟨tag, what, hloop⟩
  refine ⟨tag, what, fun r => ?_⟩
  rw [hloop, mem_nullLoop (by simpa using hrun)]
  simp only [List.mem_range]

/-- The complaints of the fold, one session at a time. -/
theorem runNullSessions_sound_iff
    (hfull : (runNullSessions fn opts.nullDesign opts.nullSessions m.nullSession).length =
      opts.nullSessions) :
    (runNullSessions fn opts.nullDesign opts.nullSessions m.nullSession ≠ [] ∧
      ∀ s ∈ runNullSessions fn opts.nullDesign opts.nullSessions m.nullSession,
        s.enoughSamples = true ∧ |s.rawT| < tThreshold) ↔ NullSound fn opts m := by
  have hrun := runNullSessions_length_iff.mp hfull
  have hne : runNullSessions fn opts.nullDesign opts.nullSessions m.nullSession ≠ [] ↔
      opts.nullSessions ≠ 0 := by
    have hlength := (List.length_eq_zero_iff
      (l := runNullSessions fn opts.nullDesign opts.nullSessions m.nullSession)).not
    rw [hfull] at hlength
    exact hlength.symm
  rcases @exists_mem_runNullSessions_iff F _ _ fn opts m hrun with ⟨tag, what, hmem⟩
  rw [hne]
  apply and_congr_right
  intro _
  constructor
  · intro hall k hk
    rcases hrun k hk with ⟨raw, hraw⟩
    have hs := hall _ ((hmem _).mpr ⟨k, hk, raw, hraw, rfl⟩)
    rw [judge_enoughSamples, judge_rawT, decide_eq_true_eq] at hs
    exact ⟨raw, hraw, hs⟩
  · intro hall s hs
    rcases (hmem s).mp hs with ⟨k, hk, raw, hraw, rfl⟩
    rcases hall k hk with ⟨raw', hraw', hs'⟩
    rw [hraw] at hraw'
    cases hraw'
    rw [judge_enoughSamples, judge_rawT, decide_eq_true_eq]
    exact hs'

/-- What the fold of the null says of the samples. -/
theorem foldNull_runNullSessions :
    let results := runNullSessions fn opts.nullDesign opts.nullSessions m.nullSession
    let fold := foldNull results opts.nullSessions
    (fold.1 = true ↔ NullSound fn opts m) ∧
      (fold.1 = true → results.length = opts.nullSessions ∧ fold.2.1 ≠ [] ∧
        ∀ raw, ExceedsAll fn fold.2.1 raw ↔ ExceedsEveryNull fn opts m raw) := by
  intro results fold
  rcases foldNull_cases results opts.nullSessions with
    ⟨stats, hfull, hstats, hfold⟩ | ⟨reason, hnot, hfold⟩
  · have hfold' : fold = (true, stats, "OK") := hfold
    rw [hfold']
    rcases nullFromSessions_eq_ok.mp hstats with ⟨hnil, hall, rfl⟩
    refine ⟨iff_of_true rfl ((runNullSessions_sound_iff hfull).mp ⟨hnil, hall⟩), fun _ =>
      ⟨hfull, ?_, ?_⟩⟩
    · simpa using hnil
    · intro raw
      rcases @exists_mem_runNullSessions_iff F _ _ fn opts m
        (runNullSessions_length_iff.mp hfull) with ⟨tag, what, hmem⟩
      unfold ExceedsAll ExceedsEveryNull
      constructor
      · intro h k hk null hnull
        exact h _ (List.mem_map.mpr ⟨_, (hmem _).mpr ⟨k, hk, null, hnull, rfl⟩, rfl⟩)
      · intro h s hs
        rcases List.mem_map.mp hs with ⟨r, hr, rfl⟩
        rcases (hmem r).mp hr with ⟨k, hk, null, hnull, rfl⟩
        exact h k hk null hnull
  · have hfold' : fold = (false, [], "NOT OK — " ++ reason) := hfold
    rw [hfold']
    refine ⟨iff_of_false Bool.false_ne_true ?_, fun h => absurd h Bool.false_ne_true⟩
    intro h
    have hfull : results.length = opts.nullSessions := by
      refine runNullSessions_length_iff.mpr fun k hk => ?_
      rcases h.2 k hk with ⟨raw, hraw, -⟩
      exact ⟨raw, hraw⟩
    have hall := (runNullSessions_sound_iff hfull).mpr h
    exact hnot ⟨hfull, _, nullFromSessions_eq_ok.mpr ⟨hall.1, hall.2, rfl⟩⟩

theorem nullOk_iff : (nullAndControls fn opts m).nullOk = true ↔ NullSound fn opts m :=
  foldNull_runNullSessions.1

theorem nullSessions_of_sound (h : NullSound fn opts m) :
    (nullAndControls fn opts m).nullSessions = opts.nullSessions :=
  (foldNull_runNullSessions.2 (nullOk_iff.mpr h)).1

theorem nullCropStats_of_sound (h : NullSound fn opts m) :
    (nullAndControls fn opts m).nullCropStats ≠ [] ∧
      ∀ raw, ExceedsAll fn (nullAndControls fn opts m).nullCropStats raw ↔
        ExceedsEveryNull fn opts m raw :=
  (foldNull_runNullSessions.2 (nullOk_iff.mpr h)).2

theorem leaky_eq_fail_iff :
    (nullAndControls fn opts m).leaky.isolatedVerdict = .fail ↔
      Enough m.controlLeaky ∧ Distinguishable fn m.controlLeaky :=
  judgeRawOnly_eq_fail_iff

theorem controls_ok_iff :
    (nullAndControls fn opts m).ok = true ↔
      NullSound fn opts m ∧ (Enough m.controlFlat ∧ ¬ Distinguishable fn m.controlFlat) ∧
        Enough m.controlLeaky ∧ Distinguishable fn m.controlLeaky := by
  have hok : (nullAndControls fn opts m).ok =
      ((nullAndControls fn opts m).nullOk &&
        (judgeRawOnly fn _ _ m.controlFlat).isolatedVerdict == .pass &&
        (judgeRawOnly fn _ _ m.controlLeaky).isolatedVerdict == .fail) := rfl
  rw [hok, Bool.and_eq_true, Bool.and_eq_true, beq_iff_eq, beq_iff_eq, nullOk_iff,
    judgeRawOnly_eq_pass_iff, judgeRawOnly_eq_fail_iff, and_assoc]

/-- The flat control speaks for all the controls. -/
theorem flat_eq_pass_iff :
    (nullAndControls fn opts m).flat.isolatedVerdict = .pass ↔
      (nullAndControls fn opts m).ok = true := by
  have hflat : (nullAndControls fn opts m).flat =
      if (nullAndControls fn opts m).ok = true then judgeRawOnly fn _ _ m.controlFlat
      else { judgeRawOnly fn _ _ m.controlFlat with isolatedVerdict := .inconclusive } := rfl
  rw [hflat]
  by_cases hok : (nullAndControls fn opts m).ok = true
  · rw [if_pos hok, judgeRawOnly_eq_pass_iff]
    exact iff_of_true (controls_ok_iff.mp hok).2.1 hok
  · rw [if_neg hok]
    simp [hok]

end Controls

/-! ## When the session may speak -/

/-- The null, the two controls and the A/A control all behaved. -/
structure ControlsBehaved (fn : Elementary F) (opts : Opts) (m : Measurements) : Prop where
  null : NullSound fn opts m
  flat : Enough m.controlFlat ∧ |rawT fn m.controlFlat| < tThreshold
  leaky : Enough m.controlLeaky ∧ tThreshold ≤ |rawT fn m.controlLeaky|
  aa : Enough m.signAa ∧ |rawT fn m.signAa| < tThreshold ∧
    ¬ ExceedsEveryNull fn opts m m.signAa

section Speaks

variable [IsStrictOrderedRing F] {opts : Opts} {m : Measurements}

omit [IsStrictOrderedRing F] in
/-- The A/A control as it was judged, and the flat-control verdict it leaves. -/
theorem runAaControl_snd :
    (runAaControl fn m (nullAndControls fn opts m)).2 =
      flatVerdictUnderAa (runAaControl fn m (nullAndControls fn opts m)).1.verdict
        (nullAndControls fn opts m).flat.isolatedVerdict := rfl

theorem flatVerdictUnderAa_eq_pass_iff {aa flat : Verdict} :
    flatVerdictUnderAa aa flat = .pass ↔ aa = .pass ∧ flat = .pass := by
  cases aa <;> simp [flatVerdictUnderAa]

theorem aa_eq_pass_iff (h : NullSound fn opts m) :
    (runAaControl fn m (nullAndControls fn opts m)).1.verdict = .pass ↔
      Enough m.signAa ∧ |rawT fn m.signAa| < tThreshold ∧
        ¬ ExceedsEveryNull fn opts m m.signAa := by
  rcases nullCropStats_of_sound h with ⟨hne, hexceeds⟩
  have hverdict : (runAaControl fn m (nullAndControls fn opts m)).1.verdict =
      (judgeV2 fn _ _ m.signAa (nullAndControls fn opts m).nullCropStats).isolatedVerdict := rfl
  rw [hverdict, judgeV2_eq_pass_iff, hexceeds]
  unfold Distinguishable
  rw [not_le]
  simp [hne]

/-- The control rule lets verdicts stand exactly when everything behaved. -/
theorem controlsBehaved_iff :
    ControlsBehaved fn opts m ↔
      (runAaControl fn m (nullAndControls fn opts m)).2 = .pass ∧
        (nullAndControls fn opts m).leaky.isolatedVerdict = .fail := by
  rw [runAaControl_snd, flatVerdictUnderAa_eq_pass_iff, flat_eq_pass_iff, controls_ok_iff,
    leaky_eq_fail_iff]
  unfold Distinguishable
  rw [not_le]
  constructor
  · intro h
    exact ⟨⟨(aa_eq_pass_iff h.null).mpr h.aa, h.null, h.flat, h.leaky⟩, h.leaky⟩
  · intro ⟨⟨haa, hnull, hflat, hleaky⟩, _⟩
    exact ⟨hnull, hflat, hleaky, (aa_eq_pass_iff hnull).mp haa⟩

/-- A gated experiment of the session under `rr`, judged against the gate null. -/
def gatedRow (fn : Elementary F) (opts : Opts) (m : Measurements) (id description : String)
    (raw : RawSamples) : Judged F :=
  let controls := nullAndControls fn opts m
  pushExperiment fn controls (runAaControl fn m controls).2 (refsForRr controls.nullCropStats)
    id description true raw controls.nullCropStats

omit [IsStrictOrderedRing F] in
theorem gatedRow_verdict {id description : String} {raw : RawSamples} :
    (gatedRow fn opts m id description raw).verdict =
      applyControls (judgeV2 fn id description raw
          (nullAndControls fn opts m).nullCropStats).isolatedVerdict
        (runAaControl fn m (nullAndControls fn opts m)).2
        (nullAndControls fn opts m).leaky.isolatedVerdict := rfl

theorem gatedRow_verdict_of_behaved (h : ControlsBehaved fn opts m) {id description : String}
    {raw : RawSamples} :
    (gatedRow fn opts m id description raw).verdict =
      .ofFindings (Enough raw) (Distinguishable fn raw)
        (ExceedsAll fn (nullAndControls fn opts m).nullCropStats raw) := by
  rw [gatedRow_verdict]
  unfold applyControls
  rw [if_pos (controlsBehaved_iff.mp h), judgeV2_isolatedVerdict (nullCropStats_of_sound h.null).1]

theorem gatedRow_verdict_of_not_behaved (h : ¬ ControlsBehaved fn opts m)
    {id description : String} {raw : RawSamples} :
    (gatedRow fn opts m id description raw).verdict = .inconclusive := by
  rw [gatedRow_verdict]
  unfold applyControls
  rw [if_neg (mt controlsBehaved_iff.mpr h)]

end Speaks

/-! ## The session -/

section Session

variable {opts : Opts} {m : Measurements}

/-- The rows of a session under `rr`: the A/A control, the gated experiments, and the
screening lines. -/
def rrRows (fn : Elementary F) (opts : Opts) (m : Measurements) : List (Judged F) :=
  let controls := nullAndControls fn opts m
  (runAaControl fn m controls).1 ::
    (List.range kkPairs).map (fun p =>
      gatedRow fn opts m ("sign-kk-" ++ toString p) signKkDescription (m.signKk p)) ++
    gatedRow fn opts m "sign-rr" signRrDescription m.signRr ::
    (screeningPlan m).map fun (id, description, gated, raw) =>
      pushExperiment fn controls (runAaControl fn m controls).2
        (refsForRr controls.nullCropStats) id description gated raw controls.nullCropStats

theorem falconExperiments_rr (hd : opts.nullDesign = .rr) :
    falconExperiments fn opts m (nullAndControls fn opts m) = .ok ⟨rrRows fn opts m, []⟩ := by
  unfold falconExperiments buildReferenceBanks
  rw [hd]
  rfl

theorem session_ss {r : Report F} (hd : opts.nullDesign = .ss) (h : session fn opts m = .ok r) :
    r.sessionVerdict = .inconclusive := by
  unfold session at h
  rcases bind_eq_ok.mp h with ⟨out, -, hout⟩
  rw [hd] at hout
  cases hout
  rfl

theorem session_rr (hd : opts.nullDesign = .rr) :
    session fn opts m = .ok
      ⟨recordAa (rrRows fn opts m) (nullAndControls fn opts m), rrRows fn opts m,
        (kkCombined (kkVerdicts (rrRows fn opts m))).worse (rrVerdict (rrRows fn opts m)),
        false⟩ := by
  simp only [session, falconExperiments_rr hd, bind, Except.bind, hd]
  rfl

theorem gatedRow_id {id description : String} {raw : RawSamples} :
    (gatedRow fn opts m id description raw).result.id = id :=
  judgeV2_id

/-- Only the gated experiments take part in the session verdict. -/
theorem filter_rrRows (p : Judged F → Bool) (hp : ∀ j, p j = true → j.gated = true) :
    (rrRows fn opts m).filter p =
      ((List.range kkPairs).map (fun q =>
        gatedRow fn opts m ("sign-kk-" ++ toString q) signKkDescription (m.signKk q)) ++
        [gatedRow fn opts m "sign-rr" signRrDescription m.signRr]).filter p := by
  have hungated {j : Judged F} (hj : j.gated = false) : p j = false := by
    by_contra h
    have hg := hp j (by simpa using h)
    rw [hj] at hg
    cases hg
  have hscreening : ((screeningPlan m).map fun x =>
      pushExperiment fn (nullAndControls fn opts m) (runAaControl fn m (nullAndControls fn opts m)).2
        (refsForRr (nullAndControls fn opts m).nullCropStats) x.1 x.2.1 x.2.2.1 x.2.2.2
        (nullAndControls fn opts m).nullCropStats).filter p = [] := by
    rw [List.filter_eq_nil_iff]
    intro j hj
    rcases List.mem_map.mp hj with ⟨x, hx, rfl⟩
    rw [Bool.not_eq_true]
    apply hungated
    show x.2.2.1 = false
    simp only [screeningPlan, List.mem_cons, List.not_mem_nil, or_false] at hx
    rcases hx with rfl | rfl | rfl | rfl <;> rfl
  unfold rrRows
  rw [List.filter_append, List.filter_append, List.filter_cons, List.filter_cons, hscreening,
    hungated (by rfl)]
  rw [List.filter_cons]
  rfl

theorem startsWith_signKk (p : ℕ) : ("sign-kk-" ++ toString p).startsWith "sign-kk-" = true := by
  rw [String.startsWith_string_iff, String.toList_append]
  exact List.prefix_append _ _

theorem not_startsWith_signRr : "sign-rr".startsWith "sign-kk-" = false := by
  rw [← Bool.not_eq_true, String.startsWith_string_iff]
  simp

theorem kkVerdicts_rrRows :
    kkVerdicts (rrRows fn opts m) = (List.range kkPairs).map fun p =>
      (gatedRow fn opts m ("sign-kk-" ++ toString p) signKkDescription (m.signKk p)).verdict := by
  unfold kkVerdicts
  rw [filter_rrRows _ (fun _ h => (Bool.and_eq_true_iff.mp h).1), List.filter_append,
    List.filter_eq_self.mpr, List.filter_eq_nil_iff.mpr]
  · simp
  · intro j hj
    rw [List.mem_singleton.mp hj, gatedRow_id, not_startsWith_signRr]
    simp
  · intro j hj
    rcases List.mem_map.mp hj with ⟨p, -, rfl⟩
    rw [gatedRow_id, startsWith_signKk]
    rfl

theorem rrVerdict_rrRows :
    rrVerdict (rrRows fn opts m) =
      (gatedRow fn opts m "sign-rr" signRrDescription m.signRr).verdict := by
  unfold rrVerdict
  rw [filter_rrRows _ (fun _ h => (Bool.and_eq_true_iff.mp h).1), List.filter_append,
    List.filter_eq_nil_iff.mpr, List.filter_eq_self.mpr]
  · exact Verdict.pass_worse _
  · intro j hj
    rw [List.mem_singleton.mp hj, gatedRow_id]
    rfl
  · intro j hj h
    rcases List.mem_map.mp hj with ⟨p, -, rfl⟩
    rw [gatedRow_id, Bool.and_eq_true, beq_iff_eq] at h
    have hstart := startsWith_signKk p
    rw [h.2, not_startsWith_signRr] at hstart
    cases hstart

theorem aaVerdict_rrRows (c : Controls F) :
    (recordAa (rrRows fn opts m) c).aaVerdict =
        some (runAaControl fn m (nullAndControls fn opts m)).1.verdict ∧
      (recordAa (rrRows fn opts m) c).nullSessions = c.nullSessions := by
  have hfind : (rrRows fn opts m).find? (fun j => j.result.id == "sign-aa") =
      some (runAaControl fn m (nullAndControls fn opts m)).1 := by
    unfold rrRows
    rw [List.cons_append, List.find?_cons_of_pos]
    exact beq_iff_eq.mpr judgeV2_id
  unfold recordAa
  rw [hfind]
  exact ⟨rfl, rfl⟩

end Session

/-! ## What a verdict says of the samples -/

section Soundness

variable [IsStrictOrderedRing F]

/-- The pairs and the pools show no finding. -/
structure NoFinding (fn : Elementary F) (opts : Opts) (m : Measurements) : Prop where
  kk : ∀ p < kkPairs, Enough (m.signKk p) ∧ |rawT fn (m.signKk p)| < tThreshold
  rr : Enough m.signRr ∧ |rawT fn m.signRr| < tThreshold
  rr_crop : ¬ ExceedsEveryNull fn opts m m.signRr
  kk_crop : ∀ p < kkPairs, ∀ q < kkPairs, ExceedsEveryNull fn opts m (m.signKk p) →
    ExceedsEveryNull fn opts m (m.signKk q) → p = q

variable {opts : Opts} {m : Measurements}

/-- The verdicts that a session combines when everything behaved. -/
theorem session_rr_of_behaved (hd : opts.nullDesign = .rr) (hb : ControlsBehaved fn opts m) :
    ∃ r : Report F, session fn opts m = .ok r ∧
      kkVerdicts r.experiments = (List.range kkPairs).map (fun p =>
        .ofFindings (Enough (m.signKk p)) (Distinguishable fn (m.signKk p))
          (ExceedsAll fn (nullAndControls fn opts m).nullCropStats (m.signKk p))) ∧
      r.sessionVerdict = (kkCombined (kkVerdicts r.experiments)).worse
        (.ofFindings (Enough m.signRr) (Distinguishable fn m.signRr)
          (ExceedsAll fn (nullAndControls fn opts m).nullCropStats m.signRr)) ∧
      r.controls.nullSessions = opts.nullSessions ∧ r.controls.aaVerdict = some .pass := by
  refine ⟨_, session_rr hd, ?_, ?_, ?_, ?_⟩
  · rw [kkVerdicts_rrRows]
    simp only [gatedRow_verdict_of_behaved hb]
  · rw [rrVerdict_rrRows, gatedRow_verdict_of_behaved hb]
  · exact (aaVerdict_rrRows _).2.trans (nullSessions_of_sound hb.null)
  · exact (aaVerdict_rrRows _).1.trans (congrArg some ((aa_eq_pass_iff hb.null).mpr hb.aa))

/-- A session whose controls misbehaved says nothing. -/
theorem session_rr_of_not_behaved (hd : opts.nullDesign = .rr)
    (hb : ¬ ControlsBehaved fn opts m) {r : Report F} (h : session fn opts m = .ok r) :
    r.sessionVerdict = .inconclusive := by
  rw [session_rr hd] at h
  cases h
  rw [Verdict.worse_eq_inconclusive_iff, rrVerdict_rrRows, gatedRow_verdict_of_not_behaved hb]
  exact Or.inr rfl

/-- A verdict other than INCONCLUSIVE: the design was `rr`, and the controls behaved. -/
theorem behaved_of_ne_inconclusive {r : Report F} (h : session fn opts m = .ok r)
    (hv : r.sessionVerdict ≠ .inconclusive) :
    opts.nullDesign = .rr ∧ ControlsBehaved fn opts m := by
  cases hd : opts.nullDesign with
  | ss => exact absurd (session_ss hd h) hv
  | rr =>
    refine ⟨rfl, ?_⟩
    by_contra hb
    exact hv (session_rr_of_not_behaved hd hb h)

/-- A PASS of a session that behaved: no pair, no pool and no two crops showed anything. -/
theorem noFinding_of_pass (hd : opts.nullDesign = .rr) (hb : ControlsBehaved fn opts m)
    {r : Report F} (h : session fn opts m = .ok r) (hv : r.sessionVerdict = .pass) :
    NoFinding fn opts m := by
  rcases session_rr_of_behaved hd hb with ⟨r', hr', hkk, hsession, -, -⟩
  rw [h] at hr'
  cases hr'
  rcases nullCropStats_of_sound hb.null with ⟨-, hexceeds⟩
  rw [hsession, Verdict.worse_eq_pass_iff, hkk, kkCombined_eq_pass_iff,
    Verdict.ofFindings_eq_pass_iff, hexceeds] at hv
  rcases hv with ⟨⟨hinc, hfail, hshape⟩, henough, hraw, hcrop⟩
  simp only [List.mem_map, List.mem_range, not_exists, not_and] at hinc hfail
  have hpair (p : ℕ) (hp : p < kkPairs) :
      Enough (m.signKk p) ∧ ¬ Distinguishable fn (m.signKk p) := by
    have he : Enough (m.signKk p) := by
      by_contra he
      exact hinc p hp (Verdict.ofFindings_eq_inconclusive_iff.mpr he)
    exact ⟨he, fun ht => hfail p hp (Verdict.ofFindings_eq_fail_iff.mpr ⟨he, ht⟩)⟩
  -- a pair beyond every null is a SHAPE, and two of them would not have passed
  have hshapeOf (p : ℕ) (hp : p < kkPairs) (hx : ExceedsEveryNull fn opts m (m.signKk p)) :=
    Verdict.ofFindings_eq_shape_iff.mpr ⟨(hpair p hp).1, (hpair p hp).2, (hexceeds _).mpr hx⟩
  refine ⟨fun p hp => ⟨(hpair p hp).1, not_le.mp (hpair p hp).2⟩, ⟨henough, not_le.mp hraw⟩,
    hcrop, ?_⟩
  intro p hp q hq hxp hxq
  rw [List.filter_map, List.length_map] at hshape
  exact eq_of_filter_length_lt_two hshape (List.mem_range.mpr hp) (List.mem_range.mpr hq)
    (beq_iff_eq.mpr (hshapeOf p hp hxp)) (beq_iff_eq.mpr (hshapeOf q hq hxq))

theorem session_verdict_sound (fn : Elementary F) (opts : Opts) (m : Measurements)
    (r : Report F) (h : session fn opts m = .ok r) :
    (r.sessionVerdict ≠ .inconclusive →
      opts.nullDesign = .rr ∧ ControlsBehaved fn opts m ∧
        r.controls.nullSessions = opts.nullSessions ∧ r.controls.aaVerdict = some .pass) ∧
    (r.sessionVerdict = .pass → NoFinding fn opts m) := by
  constructor
  · intro hv
    rcases behaved_of_ne_inconclusive h hv with ⟨hd, hb⟩
    rcases session_rr_of_behaved hd hb with ⟨r', hr', -, -, hn, haa⟩
    rw [h] at hr'
    cases hr'
    exact ⟨hd, hb, hn, haa⟩
  · intro hv
    rcases behaved_of_ne_inconclusive h (by rw [hv]; simp) with ⟨hd, hb⟩
    exact noFinding_of_pass hd hb h hv

/-! ## A FAIL of one pair -/

/-- A pair that reaches the minimum and fails on the raw statistic. -/
def PairFails (fn : Elementary F) (m : Measurements) : Prop :=
  ∃ p < kkPairs, Enough (m.signKk p) ∧ tThreshold ≤ |rawT fn (m.signKk p)|

/-- With everything behaved, the pairs combine to FAIL exactly when one of them fails and none
lacks samples. -/
theorem kkCombined_fail_of_behaved (hd : opts.nullDesign = .rr) (hb : ControlsBehaved fn opts m) :
    ∃ r : Report F, session fn opts m = .ok r ∧
      (kkCombined (kkVerdicts r.experiments) = .fail ↔
        (∀ p < kkPairs, Enough (m.signKk p)) ∧ PairFails fn m) ∧
      (kkCombined (kkVerdicts r.experiments) = .fail → Enough m.signRr →
        r.sessionVerdict = .fail) ∧
      (¬ Enough m.signRr → r.sessionVerdict = .inconclusive) := by
  rcases session_rr_of_behaved hd hb with ⟨r, hr, hkk, hsession, -, -⟩
  refine ⟨r, hr, ?_, ?_, ?_⟩
  · rw [hkk, kkCombined_eq_fail_iff]
    simp only [List.mem_map, List.mem_range, Verdict.ofFindings_eq_inconclusive_iff,
      Verdict.ofFindings_eq_fail_iff, not_exists, not_and, not_not]
    rfl
  · intro hfail he
    rw [hsession, hfail]
    apply Verdict.fail_worse
    rw [Ne, Verdict.ofFindings_eq_inconclusive_iff, not_not]
    exact he
  · intro he
    rw [hsession, Verdict.worse_eq_inconclusive_iff, Verdict.ofFindings_eq_inconclusive_iff]
    exact Or.inr he

/-- The report of the controls: an accepted null, flat PASS, leaky FAIL and `sign-aa` PASS. -/
structure ControlsPassed (fn : Elementary F) (opts : Opts) (m : Measurements) : Prop where
  nullOk : (nullAndControls fn opts m).nullOk = true
  flat : (nullAndControls fn opts m).flat.isolatedVerdict = .pass
  leaky : (nullAndControls fn opts m).leaky.isolatedVerdict = .fail
  aa : (runAaControl fn m (nullAndControls fn opts m)).1.verdict = .pass

theorem controlsPassed_iff : ControlsPassed fn opts m ↔ ControlsBehaved fn opts m := by
  constructor
  · intro h
    rw [controlsBehaved_iff, runAaControl_snd, flatVerdictUnderAa_eq_pass_iff]
    exact ⟨⟨h.aa, h.flat⟩, h.leaky⟩
  · intro h
    have hrule := controlsBehaved_iff.mp h
    rw [runAaControl_snd, flatVerdictUnderAa_eq_pass_iff] at hrule
    exact ⟨nullOk_iff.mpr h.null, hrule.1.2, hrule.2, hrule.1.1⟩

/-- When no pair lacks samples, the FAIL of one survives the others; the session repeats it
unless `sign-rr` lacks samples, since INCONCLUSIVE dominates there. -/
theorem fail_survives (fn : Elementary F) (opts : Opts) (m : Measurements)
    (hd : opts.nullDesign = .rr) (hc : ControlsPassed fn opts m) (hfail : PairFails fn m)
    (hpairs : ∀ p < kkPairs, Enough (m.signKk p)) :
    ∃ r : Report F, session fn opts m = .ok r ∧ kkCombined (kkVerdicts r.experiments) = .fail ∧
      r.sessionVerdict = if Enough m.signRr then .fail else .inconclusive := by
  rcases kkCombined_fail_of_behaved hd (controlsPassed_iff.mp hc) with ⟨r, hr, hkk, henough, hfew⟩
  refine ⟨r, hr, hkk.mpr ⟨hpairs, hfail⟩, ?_⟩
  by_cases he : Enough m.signRr
  · rw [if_pos he]
    exact henough (hkk.mpr ⟨hpairs, hfail⟩) he
  · rw [if_neg he]
    exact hfew he

end Soundness

/-! ## Sessions of constant series -/

def flatSeries : RawSamples := twoBlocks 2100 2100 100 100

def leakySeries : RawSamples := twoBlocks 2100 2100 100 200

/-- Measurements in which nothing but the leaky control, the pairs and the pools vary. -/
def sampleMeasurements (kk : ℕ → RawSamples) (rr : RawSamples) : Measurements where
  nullSession _ := .ok flatSeries
  controlFlat := flatSeries
  controlLeaky := leakySeries
  signAa := flatSeries
  signAaRef _ := .ok flatSeries
  nullRrRef _ := .ok flatSeries
  signKk := kk
  signRr := rr
  signKey := flatSeries
  signMsg := flatSeries
  verifyCtrl := flatSeries
  keygen := flatSeries

def sampleOpts : Opts := ⟨20, .rr, none, none⟩

section Sample

variable {kk : ℕ → RawSamples} {rr : RawSamples}

theorem real_sqrt_zero : Elementary.real.sqrt 0 = 0 := Real.sqrt_zero

theorem flatSeries_enough : Enough flatSeries := by
  unfold flatSeries
  rw [enough_twoBlocks (by omega)]
  omega

theorem leakySeries_enough : Enough leakySeries := by
  unfold leakySeries
  rw [enough_twoBlocks (by omega)]
  omega

theorem flatSeries_raw : |rawT Elementary.real flatSeries| < tThreshold :=
  not_le.mp (not_distinguishable_flat real_sqrt_zero (by omega))

theorem leakySeries_raw : tThreshold ≤ |rawT Elementary.real leakySeries| :=
  distinguishable_twoBlocks real_sqrt_zero (by omega) (by omega)

theorem flatSeries_not_exceeds :
    ¬ ExceedsEveryNull Elementary.real sampleOpts (sampleMeasurements kk rr) flatSeries := by
  intro h
  exact lt_irrefl _ (h 0 (by decide) flatSeries rfl)

theorem sample_behaved (kk : ℕ → RawSamples) (rr : RawSamples) :
    ControlsBehaved Elementary.real sampleOpts (sampleMeasurements kk rr) where
  null := ⟨by decide, fun _ _ => ⟨flatSeries, rfl, flatSeries_enough, flatSeries_raw⟩⟩
  flat := ⟨flatSeries_enough, flatSeries_raw⟩
  leaky := ⟨leakySeries_enough, leakySeries_raw⟩
  aa := ⟨flatSeries_enough, flatSeries_raw, flatSeries_not_exceeds⟩

/-- A session of flat series passes, and its PASS is sound. -/
theorem sample_session_verdict :
    ∃ r : Report ℝ,
      session Elementary.real sampleOpts
        (sampleMeasurements (fun _ => flatSeries) flatSeries) = .ok r ∧
      r.sessionVerdict = .pass ∧
      NoFinding Elementary.real sampleOpts
        (sampleMeasurements (fun _ => flatSeries) flatSeries) := by
  have hb := sample_behaved (fun _ => flatSeries) flatSeries
  rcases session_rr_of_behaved rfl hb with ⟨r, hr, hkk, hsession, -, -⟩
  have hflat : Verdict.ofFindings (Enough flatSeries) (Distinguishable Elementary.real flatSeries)
      (ExceedsAll Elementary.real (nullAndControls Elementary.real sampleOpts
        (sampleMeasurements (fun _ => flatSeries) flatSeries)).nullCropStats flatSeries) =
        .pass := by
    refine Verdict.ofFindings_eq_pass_iff.mpr ⟨flatSeries_enough, not_le.mpr flatSeries_raw, ?_⟩
    rw [(nullCropStats_of_sound hb.null).2]
    exact flatSeries_not_exceeds
  have hpass : r.sessionVerdict = .pass := by
    rw [hsession, hkk, Verdict.worse_eq_pass_iff]
    have hpairs := List.map_congr_left (l := List.range kkPairs) fun _ _ => hflat
    exact ⟨(congrArg kkCombined hpairs).trans (by decide), hflat⟩
  exact ⟨r, hr, hpass, (session_verdict_sound Elementary.real sampleOpts _ r hr).2 hpass⟩

/-- One leaky pair among flat ones. -/
def oneLeakyPair (p : ℕ) : RawSamples :=
  if p = 0 then leakySeries else flatSeries

theorem oneLeakyPair_fails : PairFails Elementary.real (sampleMeasurements oneLeakyPair rr) :=
  ⟨0, by decide, leakySeries_enough, leakySeries_raw⟩

theorem sample_fail_survives :
    ∃ r : Report ℝ,
      session Elementary.real sampleOpts (sampleMeasurements oneLeakyPair flatSeries) = .ok r ∧
      kkCombined (kkVerdicts r.experiments) = .fail ∧ r.sessionVerdict = .fail := by
  have hpairs : ∀ p < kkPairs, Enough (oneLeakyPair p) := by
    intro p _
    unfold oneLeakyPair
    by_cases hp : p = 0
    · rw [if_pos hp]
      exact leakySeries_enough
    · rw [if_neg hp]
      exact flatSeries_enough
  rcases fail_survives Elementary.real sampleOpts (sampleMeasurements oneLeakyPair flatSeries) rfl
    (controlsPassed_iff.mpr (sample_behaved _ _)) oneLeakyPair_fails hpairs with ⟨r, hr, hkk, hv⟩
  exact ⟨r, hr, hkk, hv.trans (if_pos flatSeries_enough)⟩

theorem empty_not_enough : ¬ Enough ⟨[]⟩ := by
  unfold Enough
  simp [splitClasses, minPerClass]

/-- One leaky pair among pairs without samples. -/
def oneMeasuredPair (p : ℕ) : RawSamples :=
  if p = 0 then leakySeries else ⟨[]⟩

/-- A FAIL that the session does not report: once for want of samples in `sign-rr`, and once
for want of samples in another pair. -/
theorem fail_hidden :
    (∃ r : Report ℝ,
      ControlsPassed Elementary.real sampleOpts (sampleMeasurements oneLeakyPair ⟨[]⟩) ∧
      PairFails Elementary.real (sampleMeasurements oneLeakyPair ⟨[]⟩) ∧
      session Elementary.real sampleOpts (sampleMeasurements oneLeakyPair ⟨[]⟩) = .ok r ∧
      r.sessionVerdict = .inconclusive) ∧
    (∃ r : Report ℝ,
      ControlsPassed Elementary.real sampleOpts (sampleMeasurements oneMeasuredPair flatSeries) ∧
      PairFails Elementary.real (sampleMeasurements oneMeasuredPair flatSeries) ∧
      session Elementary.real sampleOpts (sampleMeasurements oneMeasuredPair flatSeries) = .ok r ∧
      kkCombined (kkVerdicts r.experiments) ≠ .fail) := by
  constructor
  · rcases kkCombined_fail_of_behaved rfl (sample_behaved oneLeakyPair ⟨[]⟩) with
      ⟨r, hr, -, -, hfew⟩
    exact ⟨r, controlsPassed_iff.mpr (sample_behaved _ _), oneLeakyPair_fails, hr,
      hfew empty_not_enough⟩
  · rcases kkCombined_fail_of_behaved rfl
      (sample_behaved oneMeasuredPair flatSeries) with ⟨r, hr, hkk, -, -⟩
    refine ⟨r, controlsPassed_iff.mpr (sample_behaved _ _),
      ⟨0, by decide, leakySeries_enough, leakySeries_raw⟩, hr, ?_⟩
    intro h
    exact empty_not_enough ((hkk.mp h).1 1 (by decide))

end Sample

end Trelyan.Ct
