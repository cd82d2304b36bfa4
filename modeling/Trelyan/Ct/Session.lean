import Trelyan.Ct.Judge

/-!
# The session verdict

`falcon-ct/src/main.rs` from the raw samples to the report.  A session times
the null sessions, two synthetic controls, the A/A control and the Falcon
experiments; every timing run is an input here (`Measurements`), and so is the
failure of one that could not run.  The rest of the program is a function of
these inputs: null folding, judging, the control rule, the combination of the
`sign-kk` pairs and the session verdict.
-/

namespace Trelyan.Ct

/-- Number of fixed-key pairs for `sign-kk`. -/
def kkPairs : ℕ := 3

/-- Which construction plays the environment gate null. -/
inductive NullDesign where
  | rr
  | ss
  deriving DecidableEq, Repr

structure Opts where
  nullSessions : ℕ
  nullDesign : NullDesign
  aaRepeats : Option ℕ
  rrSessions : Option ℕ

/-- What the timed runs of a session returned. -/
structure Measurements where
  nullSession : ℕ → Except String RawSamples
  controlFlat : RawSamples
  controlLeaky : RawSamples
  signAa : RawSamples
  signAaRef : ℕ → Except String RawSamples
  nullRrRef : ℕ → Except String RawSamples
  signKk : ℕ → RawSamples
  signRr : RawSamples
  signKey : RawSamples
  signMsg : RawSamples
  verifyCtrl : RawSamples
  keygen : RawSamples

/-- The three-state raw reading of `sign-rr`, and the state of an empty bank. -/
inductive RrRawState where
  | noReferenceBank
  | clears
  | inconclusivePoolOffset
  | failBeyondReference
  deriving DecidableEq, Repr

structure Judged (F : Type) where
  result : ExperimentResult F
  /-- Verdict after the control rule. -/
  verdict : Verdict
  /-- Whether this experiment participates in the session verdict. -/
  gated : Bool
  rrRawState : Option RrRawState

structure Controls (F : Type) where
  flat : ExperimentResult F
  leaky : ExperimentResult F
  ok : Bool
  nullSessions : ℕ
  nullCropStats : List F
  nullOk : Bool
  nullDesign : NullDesign
  nullRawTSd : Option F
  nullReason : String
  nullDetail : List (ExperimentResult F)
  aaVerdict : Option Verdict
  aaOk : Option Bool
  rrDetail : List (ExperimentResult F)
  aaRepeatsRequested : Option ℕ
  rrSessionsRequested : Option ℕ

/-- The crop-reference banks that each family of experiments is judged against. -/
structure CropRefs (F : Type) where
  gate : List F
  kk : List F
  rrCrop : List F
  rrRaw : Option (List F)

structure ReferenceBanks (F : Type) where
  refs : CropRefs F
  aaExtra : List (ExperimentResult F)
  rrDetail : List (ExperimentResult F)

structure ExperimentsOutput (F : Type) where
  judged : List (Judged F)
  rrDetail : List (ExperimentResult F)

structure Report (F : Type) where
  controls : Controls F
  experiments : List (Judged F)
  sessionVerdict : Verdict
  validationOnly : Bool

variable {F : Type} [Field F] [LinearOrder F] (fn : Elementary F)

/-! ## The null -/

/-- Sample standard deviation, for two observations at least. -/
def sampleSd (xs : List F) : Option F :=
  if xs.length < 2 then
    none
  else
    let n : F := xs.length
    let mean := xs.sum / n
    some (fn.sqrt ((xs.map fun x => (x - mean) * (x - mean)).sum / (n - 1)))

/-- The loop over the null sessions `ks`; it stops at the first that could not run. -/
def nullLoop (tag what : String) (run : ℕ → Except String RawSamples) :
    List ℕ → List (ExperimentResult F)
  | [] => []
  | k :: ks =>
    match run k with
    | .error _ => []
    | .ok raw => judge fn (tag ++ "-" ++ toString k) what raw :: nullLoop tag what run ks

def runNullSessions (design : NullDesign) (nullSessions : ℕ)
    (run : ℕ → Except String RawSamples) : List (ExperimentResult F) :=
  let (tag, what) := match design with
    | .rr => ("null-rr",
        "sign_compressed: fixed message; fresh pool A vs fresh pool B (null session)")
    | .ss => ("null-ss",
        "sign_compressed: fixed message; ONE fresh pool, both classes drawing from it by " ++
        "independent index streams (v4 true-zero null session)")
  nullLoop fn tag what run (List.range nullSessions)

/-- Fold the null sessions into `(ok, crop statistics, reason)`. -/
def foldNull (results : List (ExperimentResult F)) (expected : ℕ) : Bool × List F × String :=
  let folded :=
    if results.length = expected then
      nullFromSessions results
    else
      .error ("only " ++ toString results.length ++ " of " ++ toString expected ++
        " null sessions ran")
  match folded with
  | .ok v => (true, v, "OK")
  | .error reason => (false, [], "NOT OK — " ++ reason)

/-- The `Controls` block, as it is before the experiments run. -/
def nullAndControls (opts : Opts) (m : Measurements) : Controls F :=
  let nullResults := runNullSessions fn opts.nullDesign opts.nullSessions m.nullSession
  let (nullOk, nullCropStats, nullReason) := foldNull nullResults opts.nullSessions
  let nullRawTSd := sampleSd fn (nullResults.map (·.rawT))
  let flat := judgeRawOnly fn "control-flat"
    ("identical synthetic work for both classes; raw-line verdict only (interim ruling " ++
      "2026-08-20 — the crop diagnostic does not run for synthetic controls)") m.controlFlat
  let leaky := judgeRawOnly fn "control-leaky"
    ("class-dependent synthetic work (40k vs 60k iterations); raw-line verdict only " ++
      "(interim ruling 2026-08-20)") m.controlLeaky
  let ok := nullOk && flat.isolatedVerdict == .pass && leaky.isolatedVerdict == .fail
  -- a null that is not ok reaches the control rule through the flat control
  let flatForRule := if ok then flat else { flat with isolatedVerdict := .inconclusive }
  { flat := flatForRule
    leaky, ok
    nullSessions := nullResults.length
    nullCropStats, nullOk
    nullDesign := opts.nullDesign
    nullRawTSd, nullReason
    nullDetail := nullResults
    aaVerdict := none
    aaOk := none
    rrDetail := []
    aaRepeatsRequested := opts.aaRepeats
    rrSessionsRequested := opts.rrSessions <|>
      if opts.nullDesign = .ss then some opts.nullSessions else none }

/-! ## The experiments -/

/-- The flat-control verdict that the session is judged under, given the A/A control. -/
def flatVerdictUnderAa : Verdict → Verdict → Verdict
  | .pass, flat => flat
  | _, _ => .inconclusive

def runAaControl (m : Measurements) (controls : Controls F) : Judged F × Verdict :=
  let aa := judgeV2 fn "sign-aa"
    ("sign_compressed: the SAME keypair in both arms, laid out exactly as a sign-kk pair " ++
      "(class 0 at tuple offset 0, class 1 at offset size_of::<Keypair>()); identical " ++
      "message rotation. True Δmean = 0 by construction, so any signal is " ++
      "harness/layout/environment, never a key effect. CONTROL: a FAIL forces every key " ++
      "verdict INCONCLUSIVE.") m.signAa controls.nullCropStats
  (⟨aa, aa.isolatedVerdict, false, none⟩,
    flatVerdictUnderAa aa.isolatedVerdict controls.flat.isolatedVerdict)

/-- Run the sessions `ks` of `n`, all or nothing. -/
def collectSessions (n : ℕ) (tag : String) (run : ℕ → Except String RawSamples) :
    List ℕ → Except String (List RawSamples)
  | [] => .ok []
  | k :: ks =>
    match run k with
    | .error _ =>
      .error (tag ++ " reference session " ++ toString k ++ " of " ++ toString n ++
        " failed; a reference bank is all-or-nothing (a short bank silently changes the " ++
        "empirical rule)")
    | .ok raw => do
      let rest ← collectSessions n tag run ks
      .ok (raw :: rest)

/-- Under `rr` every family points at the gate null. -/
def refsForRr (gateCrops : List F) : CropRefs F :=
  ⟨gateCrops, gateCrops, gateCrops, none⟩

def buildReferenceBanks (opts : Opts) (m : Measurements) (gateCrops : List F) :
    Except String (ReferenceBanks F) :=
  match opts.nullDesign with
  | .rr => .ok ⟨refsForRr gateCrops, [], []⟩
  | .ss => do
    let repeats ← match opts.aaRepeats with
      | some n => .ok n
      | none => .error "--null-design ss requires --aa-repeats (checked at parse)"
    let aaSessionRaws ← collectSessions repeats "sign-aa-ref" m.signAaRef (List.range repeats)
    let aaJudged := aaSessionRaws.mapIdx fun i raw =>
      judgeV2 fn ("sign-aa-" ++ toString (i + 1))
        ("v4.1 §1 A/A reference repeat: a FRESH keypair cloned into both arms, matched to " ++
          "sign-kk in everything but key identity. Unconditioned reference bank member — " ++
          "informational, never gated, and NOT the gating control (whose statistic is a " ++
          "conditioned draw and is excluded from the bank).") raw gateCrops
    let aaBank := aaJudged.map (·.cropMaxAbsT)
    let rrN := opts.rrSessions.getD opts.nullSessions
    let rrSessionRaws ← collectSessions rrN "null-rr-ref" m.nullRrRef (List.range rrN)
    let rrDetail := rrSessionRaws.mapIdx fun k raw =>
      judge fn ("null-rr-ref-" ++ toString k)
        ("sign_compressed: fresh pool A vs fresh pool B — sign-rr's matched reference " ++
          "(v4.1 §2); used empirically, never against a fixed threshold") raw
    .ok ⟨⟨gateCrops, aaBank, rrDetail.map (·.cropMaxAbsT), some (rrDetail.map fun r => |r.rawT|)⟩,
      aaJudged, rrDetail⟩

/-- The raw reading of `sign-rr` against its reference bank.  In exact arithmetic no
statistic is a NaN. -/
def rrRawState (rawAbsT : F) (referenceRaw : List F) : RrRawState :=
  if referenceRaw.isEmpty then .noReferenceBank
  else if rawAbsT < tThreshold then .clears
  else if referenceRaw.any fun r => decide (rawAbsT ≤ r) then .inconclusivePoolOffset
  else .failBeyondReference

/-- The closure `push` of the experiments: judge one and apply the control rule. -/
def pushExperiment (controls : Controls F) (flatForRule : Verdict) (refs : CropRefs F)
    (id description : String) (gated : Bool) (raw : RawSamples) (bank : List F) : Judged F :=
  let r := judgeV2 fn id description raw bank
  let rrState := if id = "sign-rr" then refs.rrRaw.map (rrRawState |r.rawT|) else none
  { result := r
    verdict := applyControls r.isolatedVerdict flatForRule controls.leaky.isolatedVerdict
    gated
    rrRawState := rrState }

/-- The screening and informational lines. -/
def screeningPlan (m : Measurements) : List (String × String × Bool × RawSamples) :=
  [("sign-key",
    "sign_compressed: fixed message; fixed key K0 vs key drawn from a pool of 32 — v1 " ++
      "fixed-vs-random, SCREENING only in v2 (point mass vs mixture)", false, m.signKey),
   ("sign-msg",
    "sign_compressed: fixed key K0; fixed 64-byte message vs random 64-byte message — v1 " ++
      "design, SCREENING only in v2", false, m.signMsg),
   ("verify-ctrl",
    "verify_compressed: public data only; fixed (S0,pk0) vs pool (Sj,pkj) — reference " ++
      "point, not gated", false, m.verifyCtrl),
   ("keygen",
    "keygen: fixed seed vs fresh seed — rejection-sampled, EXPECTED variable-time; " ++
      "reported, not gated", false, m.keygen)]

def signKkDescription : String :=
  "sign_compressed: fixed key K_a vs fixed key K_b, with four fixed messages rotated " ++
    "in the SAME order for both classes (v3 §2), so the comparison is key-only and " ++
    "message-balanced. Gated. This describes the design, not a finding: a per-key timing " ++
    "difference is what the experiment tests for, never what it presupposes."

def signRrDescription : String :=
  "sign_compressed: fixed message M0; key from pool A vs key from pool B — symmetric " ++
    "mixture control (v2). Under --null-design ss its crop AND raw statistics are read " ++
    "against the matched null-rr reference bank (v4.1 §2); see rr_raw_state."

def falconExperiments (opts : Opts) (m : Measurements) (controls : Controls F) :
    Except String (ExperimentsOutput F) := do
  let (aaJudged, flatForRule) := runAaControl fn m controls
  let banks ← buildReferenceBanks fn opts m controls.nullCropStats
  let refs := banks.refs
  let aaRows := banks.aaExtra.map fun r => ⟨r, r.isolatedVerdict, false, none⟩
  let push := pushExperiment fn controls flatForRule refs
  let kkRows := (List.range kkPairs).map fun pair =>
    push ("sign-kk-" ++ toString pair) signKkDescription true (m.signKk pair) refs.kk
  let rrRow := push "sign-rr" signRrDescription true m.signRr refs.rrCrop
  let screening := (screeningPlan m).map fun (id, description, gated, raw) =>
    push id description gated raw refs.gate
  .ok ⟨aaJudged :: aaRows ++ kkRows ++ rrRow :: screening, banks.rrDetail⟩

/-! ## The verdict -/

/-- The verdicts of the gated `sign-kk` pairs. -/
def kkVerdicts (experiments : List (Judged F)) : List Verdict :=
  (experiments.filter fun j => j.gated && j.result.id.startsWith "sign-kk-").map (·.verdict)

/-- The combination rule for `sign-kk`, in the order of the code. -/
def kkCombined (kk : List Verdict) : Verdict :=
  if kk.contains .inconclusive then .inconclusive
  else if kk.contains .fail then .fail
  else if 2 ≤ (kk.filter (· == .shape)).length then .shape
  else .pass

/-- The verdict of the gated `sign-rr`. -/
def rrVerdict (experiments : List (Judged F)) : Verdict :=
  ((experiments.filter fun j => j.gated && j.result.id == "sign-rr").map (·.verdict)).foldl
    Verdict.worse .pass

/-- Record in the controls what the A/A control did. -/
def recordAa (experiments : List (Judged F)) (controls : Controls F) : Controls F :=
  match experiments.find? fun j => j.result.id == "sign-aa" with
  | some aa => { controls with aaVerdict := some aa.verdict, aaOk := some (aa.verdict == .pass) }
  | none => controls

/-- A session from its measurements to its report. -/
def session (opts : Opts) (m : Measurements) : Except String (Report F) := do
  let controls := nullAndControls fn opts m
  let out ← falconExperiments fn opts m controls
  let experiments := out.judged
  let controls := recordAa experiments { controls with rrDetail := out.rrDetail }
  let measuredVerdict := (kkCombined (kkVerdicts experiments)).worse (rrVerdict experiments)
  match opts.nullDesign with
  | .rr => .ok ⟨controls, experiments, measuredVerdict, false⟩
  | .ss =>
    .ok ⟨controls, experiments.map fun j => { j with gated := false }, .inconclusive, true⟩

end Trelyan.Ct
