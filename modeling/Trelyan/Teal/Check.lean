import Trelyan.Teal.Client
import Trelyan.Teal.Instructions

/-!
# `verify_teal_matches_source.py`

The check that the committed artifacts are what the source compiles to.  It
compiles the source again, compares the five artifacts with the fresh ones, and
compares the spec in the typed client with the committed one.

The exit code is 0 for agreement, 1 for drift, and 2 for a check that could not
be made.  Only a `CheckError` becomes 2.  Python itself turns any other
exception into 1, and a client that is missing or that cannot be read as a spec
is reported as drift.  So a check that could not be made is reported as one only
when what stops it first is among those that the code expects (`Reported`).
-/

namespace Trelyan.Teal

open Py Py.Str Json

/-! ## The world of a run -/

/-- An `OSError`. -/
structure OSError where
  error : Error
  isOSError : error.isOSError = true

/-- How `subprocess.run` ends. -/
inductive CompilerOutcome where
  /-- The process cannot be started. -/
  | notStarted (e : OSError)
  /-- What the process prints cannot be decoded. -/
  | undecodable (msg : String)
  /-- `CalledProcessError`. -/
  | failed (returncode : Int) (stdout stderr : List Char)
  /-- The output directory afterwards. -/
  | emitted (fresh : String → PathState)

/-- What a run finds on the disk, and what the compiler does. -/
structure World where
  executable : String
  sourcePath : String
  source : PathState
  outPath : String
  outIsDir : Bool
  /-- The committed artifacts. -/
  committed : String → PathState
  client : PathState
  /-- What stops `tempfile.TemporaryDirectory`. -/
  noScratch : Option OSError
  compiler : CompilerOutcome

/-! ## The source -/

/-- `AVM_TARGET`. -/
def avmTarget : List Char := "12".toList

/-- `raise CheckError`. -/
def checkError (msg : String) : Error := .exception "CheckError" msg

/-- `isinstance(e, CheckError)`. -/
def isCheckError (e : Error) : Bool := e.className == "CheckError"

/-- `_compile`. -/
def compile (executable : String) : CompilerOutcome → Except Error (String → PathState)
  | .notStarted e =>
    if e.error.isFileNotFound then
      .error (checkError ("could not invoke " ++ executable ++ ": " ++ e.error.message))
    else .error e.error
  | .undecodable msg => .error (.exception "UnicodeDecodeError" msg)
  | .failed returncode stdout stderr =>
    let detail := if Str.strip stdout ≠ [] then Str.strip stdout
      else if Str.strip stderr ≠ [] then Str.strip stderr else "no output".toList
    .error (checkError
      ("puya failed (exit " ++ toString returncode ++ "): " ++ String.ofList detail))
  | .emitted fresh => .ok fresh

def approvalName : String := "TrelyanInscription.approval.teal"

def arc56Name : String := "TrelyanInscription.arc56.json"

/-- `_assert_pragma_matches`. -/
def assertPragmaMatches (committed : PathState) : Except Error Unit := do
  let raw ← committed.readBytes
  match (splitlines (decodeReplace (normalise raw))).head? with
  | none => .error (checkError
      (approvalName ++ " does not begin with a '#pragma version' line"))
  | some first =>
    match after "#pragma version ".toList first with
    | none => .error (checkError
        (approvalName ++ " does not begin with a '#pragma version' line"))
    | some declared =>
      require (Str.strip declared = avmTarget) (checkError
        (approvalName ++ " declares '#pragma version " ++ String.ofList (Str.strip declared) ++
          "' but this check pins AVM 12 (falcon_verify is an AVM 12 opcode). Reconcile them " ++
          "deliberately - do not edit AVM_TARGET to whatever the artifact happens to say, " ++
          "which is the circularity this constant exists to avoid."))

/-- One turn of the loop over the artifacts. -/
def checkArtifact (outPath : String) (committed fresh : String → PathState) (name : String) :
    Except Error Finding := do
  require ((committed name).isThere = true)
    (checkError ("committed artifact missing: " ++ outPath ++ "/" ++ name))
  require ((fresh name).isThere = true)
    (checkError ("puya did not emit " ++ name ++ "; the artifact set has changed"))
  let old ← (committed name).readBytes
  let new ← (fresh name).readBytes
  pure (compareArtifact name old new)

/-- `tempfile.TemporaryDirectory`. -/
def makeScratch (w : World) : Except Error Unit :=
  match w.noScratch with
  | none => .ok ()
  | some e => .error e.error

/-- The end of `main`, with the fresh artifacts. -/
def compareAll (limits : Limits) (w : World) (fresh : String → PathState) : Except Error Nat := do
  let findings ← artifacts.mapM (checkArtifact w.outPath w.committed fresh)
  let clientProblem ← clientSpecMatches limits w.client (w.committed arc56Name)
  pure (if findings.all (· = .ok) && clientProblem.isNone then 0 else 1)

/-- `main`. -/
def main (limits : Limits) (w : World) : Except Error Nat := do
  require (w.source.isThere = true) (checkError ("source not found: " ++ w.sourcePath))
  require (w.outIsDir = true)
    (checkError ("committed artifact directory not found: " ++ w.outPath))
  assertPragmaMatches (w.committed approvalName)
  makeScratch w
  let fresh ← compile w.executable w.compiler
  compareAll limits w fresh

/-- `__main__`: what the process exits with.  An exception that is not caught is 1. -/
def exitStatus (r : Except Error Nat) : Nat :=
  match r with
  | .ok status => status
  | .error e => if isCheckError e || e.className == "KeyboardInterrupt" then 2 else 1

/-! ## What the exit code should say -/

/-- The file can be read. -/
def PathState.Readable (path : PathState) : Prop := ∃ contents, path = .file contents

/-- The artifact declares the pinned version. -/
def PinnedPragma (raw : Bytes) : Prop :=
  ∃ first rest declared, splitlines (decodeReplace (normalise raw)) = first :: rest ∧
    first = "#pragma version ".toList ++ declared ∧ Str.strip declared = avmTarget

/-- The run gets as far as the compiler. -/
def ReachesCompiler (w : World) : Prop :=
  w.source.isThere = true ∧ w.outIsDir = true ∧
    (∃ raw, w.committed approvalName = .file raw ∧ PinnedPragma raw) ∧ w.noScratch = none

/-- The fresh artifacts of the run. -/
def Fresh (w : World) (fresh : String → PathState) : Prop :=
  ReachesCompiler w ∧ w.compiler = .emitted fresh

/-- The artifact is there to be compared, on both sides. -/
def BothReadable (w : World) (fresh : String → PathState) (name : String) : Prop :=
  (w.committed name).Readable ∧ (fresh name).Readable

/-- The committed artifact is the fresh one, but for the line endings. -/
def SameArtifact (w : World) (fresh : String → PathState) (name : String) : Prop :=
  ∃ old new, w.committed name = .file old ∧ fresh name = .file new ∧ normalise old = normalise new

/-- The client embeds the spec. -/
def Embeds (limits : Limits) (client : PathState) (embedded : List (Text × Json)) : Prop :=
  ∃ text literal, client.readTextReplace = .ok text ∧ search looseAt text = some literal ∧
    loads limits literal = .ok (.dict embedded)

/-- The file holds the spec. -/
def Holds (limits : Limits) (path : PathState) (spec : List (Text × Json)) : Prop :=
  ∃ text, path.readText = .ok text ∧ loads limits text = .ok (.dict spec)

/-- Every comparison can be carried out. -/
def Comparable (limits : Limits) (w : World) : Prop :=
  (∃ fresh, Fresh w fresh ∧ ∀ name ∈ artifacts, BothReadable w fresh name) ∧
    ∃ embedded arc, Embeds limits w.client embedded ∧ Holds limits (w.committed arc56Name) arc

/-- The client has the committed spec. -/
def SpecInStep (limits : Limits) (w : World) : Prop :=
  ∃ embedded arc, Embeds limits w.client embedded ∧
    Holds limits (w.committed arc56Name) arc ∧ SameSpec embedded arc

/-- The artifacts are what the source compiles to, and the client has the committed spec. -/
def InStep (limits : Limits) (w : World) : Prop :=
  (∃ fresh, Fresh w fresh ∧ ∀ name ∈ artifacts, SameArtifact w fresh name) ∧ SpecInStep limits w

/-- What the exit code promises: 0 is agreement, 1 a difference that was found, and a check
that could not be made is 2. -/
structure Truthful (limits : Limits) (w : World) (status : Nat) : Prop where
  zero : status = 0 ↔ InStep limits w
  one : status = 1 → Comparable limits w ∧ ¬ InStep limits w
  two : ¬ Comparable limits w → status = 2

/-! ## What the code reports as not checked -/

/-- The compiler stops in a way that `_compile` expects. -/
def CompilerReports (compiler : CompilerOutcome) : Prop :=
  (∃ e, compiler = .notStarted e ∧ e.error.isFileNotFound = true) ∨
    ∃ returncode stdout stderr, compiler = .failed returncode stdout stderr

/-- The loop finds an artifact missing before it finds one that it cannot read. -/
def MeetsMissing (w : World) (fresh : String → PathState) : List String → Prop
  | [] => False
  | name :: names =>
    (w.committed name = .absent ∨ fresh name = .absent) ∨
      (BothReadable w fresh name ∧ MeetsMissing w fresh names)

/-- What stops the run first is something that the code expects. -/
def Reported (w : World) : Prop :=
  w.source = .absent ∨ w.outIsDir = false ∨
    ∃ raw, w.committed approvalName = .file raw ∧
      (¬ PinnedPragma raw ∨ (w.noScratch = none ∧
        (CompilerReports w.compiler ∨
          ∃ fresh, w.compiler = .emitted fresh ∧ MeetsMissing w fresh artifacts)))

/-! ## Exceptions -/

/-- An exception that ends the process with 1. -/
def Plain (e : Error) : Prop := isCheckError e = false ∧ e.className ≠ "KeyboardInterrupt"

theorem OSError.plain (e : OSError) : Plain e.error := by
  have hall : ∀ name ∈ Error.osErrors, (name == "CheckError") = false ∧
      name ≠ "KeyboardInterrupt" := by decide
  have hmem : e.error.className ∈ Error.osErrors := by
    simpa [Error.isOSError] using e.isOSError
  exact hall _ hmem

theorem exitStatus_plain {e : Error} (h : Plain e) : exitStatus (.error e) = 1 := by
  simp [exitStatus, h.1, h.2]

theorem exitStatus_checkError (msg : String) : exitStatus (.error (checkError msg)) = 2 := rfl

theorem exitStatus_require {p : Prop} [Decidable p] {msg : String}
    {f : Unit → Except Error Nat} :
    exitStatus (require p (checkError msg) >>= f) = if p then exitStatus (f ()) else 2 := by
  by_cases h : p <;> simp [require, h, bind, Except.bind, exitStatus_checkError]

theorem readBytes_plain (path : PathState) : Errors Plain path.readBytes := by
  cases path with
  | file contents => exact errors_ok contents
  | _ =>
    refine errors_error ⟨rfl, ?_⟩
    decide

theorem decodeUtf8_plain (b : Bytes) : Errors Plain (decodeUtf8 b) := by
  unfold decodeUtf8
  split
  · exact errors_ok _
  · refine errors_error ⟨rfl, ?_⟩
    decide

theorem loads_plain (limits : Limits) (s : List Char) : Errors Plain (loads limits s) := by
  refine (loads_decodes limits s).mono fun e he => ?_
  unfold Plain isCheckError
  rcases he with h | h | h <;> rw [h] <;> decide

theorem asDict_plain (method : String) (v : Json) : Errors Plain (asDict method v) := by
  cases v with
  | dict entries => exact errors_ok entries
  | _ =>
    refine errors_error ⟨rfl, ?_⟩
    show ¬ "AttributeError" = "KeyboardInterrupt"
    decide

theorem readText_plain (path : PathState) : Errors Plain path.readText := by
  unfold PathState.readText
  exact Errors.bind (readBytes_plain path) fun b =>
    Errors.bind (decodeUtf8_plain b) fun text => errors_ok _

theorem methodNames_plain (spec : List (Text × Json)) : Errors Plain (methodNames spec) := by
  unfold methodNames
  refine Errors.bind ?_ fun items => ?_
  · generalize (getItem? spec (Text.ofString "methods")).getD (.list []) = v
    unfold Json.iter
    split
    · exact errors_ok _
    · exact errors_ok _
    · exact errors_ok _
    · refine errors_error ⟨rfl, ?_⟩
      show ¬ "TypeError" = "KeyboardInterrupt"
      decide
  · exact Errors.mapM fun m => Errors.bind (asDict_plain "get" m) fun entries => errors_ok _

theorem compareSpecs_plain (embedded arc : List (Text × Json)) :
    Errors Plain (compareSpecs embedded arc) := by
  unfold compareSpecs
  dsimp only
  split
  · exact errors_ok none
  · refine Errors.bind (methodNames_plain _) fun _ => Errors.bind (methodNames_plain _) fun _ => ?_
    split <;> exact errors_ok _

/-! ## The spec in the client -/

theorem asDict_eq_ok {method : String} {v : Json} {entries : List (Text × Json)} :
    asDict method v = .ok entries ↔ v = .dict entries := by
  cases v <;> simp [asDict]

theorem clientSpecMatches_plain (limits : Limits) (client spec : PathState) :
    Errors Plain (clientSpecMatches limits client spec) := by
  unfold clientSpecMatches
  split
  · exact errors_ok _
  · refine Errors.bind ?_ fun src => ?_
    · exact Errors.bind (readBytes_plain client) fun b => errors_ok _
    · split
      · exact errors_ok _
      · next literal _ =>
        have hload := loads_plain limits literal
        cases hloads : loads limits literal with
        | error e =>
          dsimp only
          split
          · exact errors_ok _
          · exact errors_error (hload e hloads)
        | ok v =>
          refine Errors.bind (readText_plain spec) fun text => ?_
          refine Errors.bind (loads_plain limits text) fun committed => ?_
          refine Errors.bind (asDict_plain "items" v) fun embedded => ?_
          exact Errors.bind (asDict_plain "items" committed) fun arc => compareSpecs_plain _ _

/-- Either there are two specs to compare, or `_client_spec_matches` does not pass. -/
theorem clientSpecMatches_cases (limits : Limits) (client spec : PathState) :
    (∃ embedded arc, Embeds limits client embedded ∧ Holds limits spec arc ∧
        clientSpecMatches limits client spec = compareSpecs embedded arc) ∨
      ((¬ ∃ embedded arc, Embeds limits client embedded ∧ Holds limits spec arc) ∧
        clientSpecMatches limits client spec ≠ .ok none) := by
  by_cases h : ∃ embedded arc, Embeds limits client embedded ∧ Holds limits spec arc
  · obtain ⟨embedded, arc, hembeds, hholds⟩ := h
    refine Or.inl ⟨embedded, arc, hembeds, hholds, ?_⟩
    obtain ⟨text, literal, hread, hsearch, hloads⟩ := hembeds
    obtain ⟨text', hread', hloads'⟩ := hholds
    have hthere : client.isThere = true := by
      cases client with
      | absent => cases hread
      | _ => rfl
    unfold clientSpecMatches
    simp only [hthere, hread, hread', hloads', bind, Except.bind, hsearch, hloads, asDict]
    rfl
  · refine Or.inr ⟨h, fun heq => h ?_⟩
    unfold clientSpecMatches at heq
    split at heq
    · cases heq
    · obtain ⟨text, hread, heq⟩ := bind_eq_ok.mp heq
      cases hsearch : search looseAt text with
      | none =>
        rw [hsearch] at heq
        cases heq
      | some literal =>
        rw [hsearch] at heq
        dsimp only at heq
        cases hloads : loads limits literal with
        | error e =>
          rw [hloads] at heq
          dsimp only at heq
          split at heq <;> cases heq
        | ok v =>
          rw [hloads] at heq
          obtain ⟨text', hread', heq⟩ := bind_eq_ok.mp heq
          obtain ⟨committed, hloads', heq⟩ := bind_eq_ok.mp heq
          obtain ⟨embedded, hv, heq⟩ := bind_eq_ok.mp heq
          obtain ⟨arc, hc, -⟩ := bind_eq_ok.mp heq
          rw [asDict_eq_ok] at hv hc
          subst hv
          subst hc
          exact ⟨embedded, arc, ⟨text, literal, hread, hsearch, hloads⟩, text', hread', hloads'⟩

/-- The file holds one spec. -/
theorem Holds.unique {limits : Limits} {path : PathState} {arc arc' : List (Text × Json)}
    (h : Holds limits path arc) (h' : Holds limits path arc') : arc' = arc := by
  obtain ⟨text, hread, hloads⟩ := h
  obtain ⟨text', hread', hloads'⟩ := h'
  rw [hread] at hread'
  cases hread'
  rw [hloads] at hloads'
  cases hloads'
  rfl

theorem Embeds.unique {limits : Limits} {client : PathState}
    {embedded embedded' : List (Text × Json)} (h : Embeds limits client embedded)
    (h' : Embeds limits client embedded') : embedded' = embedded := by
  obtain ⟨text, literal, hread, hsearch, hloads⟩ := h
  obtain ⟨text', literal', hread', hsearch', hloads'⟩ := h'
  rw [hread] at hread'
  cases hread'
  rw [hsearch] at hsearch'
  cases hsearch'
  rw [hloads] at hloads'
  cases hloads'
  rfl

theorem clientSpecMatches_eq_none_iff_inStep {limits : Limits} {w : World} :
    clientSpecMatches limits w.client (w.committed arc56Name) = .ok none ↔
      SpecInStep limits w := by
  rcases clientSpecMatches_cases limits w.client (w.committed arc56Name) with
    ⟨embedded, arc, he, ha, hmatch⟩ | ⟨hnone, hne⟩
  · have hdistinct : DistinctKeys embedded ∧ DistinctKeys arc := by
      obtain ⟨_, _, -, -, hloads⟩ := he
      obtain ⟨_, -, hloads'⟩ := ha
      exact ⟨loads_distinctKeys hloads, loads_distinctKeys hloads'⟩
    rw [hmatch, compareSpecs_eq_none_iff hdistinct.1 hdistinct.2]
    constructor
    · intro hsame
      exact ⟨embedded, arc, he, ha, hsame⟩
    · rintro ⟨embedded', arc', he', ha', hsame⟩
      rw [he.unique he', ha.unique ha'] at hsame
      exact hsame
  · refine iff_of_false hne ?_
    rintro ⟨embedded, arc, he, ha, -⟩
    exact hnone ⟨embedded, arc, he, ha⟩

/-! ## The artifacts -/

section Artifacts

variable {w : World} {fresh : String → PathState}

theorem compareArtifact_eq_ok_iff {name : String} {old new : Bytes} :
    compareArtifact name old new = .ok ↔ normalise old = normalise new := by
  unfold compareArtifact
  dsimp only
  split_ifs with h <;> simp [h]

theorem sameArtifact_of_files {name : String} {old new : Bytes}
    (hold : w.committed name = .file old) (hnew : fresh name = .file new) :
    SameArtifact w fresh name ↔ normalise old = normalise new := by
  constructor
  · rintro ⟨old', new', hold', hnew', heq⟩
    rw [hold] at hold'
    rw [hnew] at hnew'
    cases hold'
    cases hnew'
    exact heq
  · intro heq
    exact ⟨old, new, hold, hnew, heq⟩

theorem SameArtifact.bothReadable {name : String} (h : SameArtifact w fresh name) :
    BothReadable w fresh name := by
  obtain ⟨old, new, hold, hnew, -⟩ := h
  exact ⟨⟨old, hold⟩, new, hnew⟩

/-- What one turn of the loop does. -/
theorem checkArtifact_cases (outPath name : String) :
    (∃ finding, checkArtifact outPath w.committed fresh name = .ok finding ∧
        BothReadable w fresh name ∧ (finding = .ok ↔ SameArtifact w fresh name)) ∨
      ((w.committed name = .absent ∨ fresh name = .absent) ∧
        ∃ msg, checkArtifact outPath w.committed fresh name = .error (checkError msg)) ∨
      (¬ (w.committed name = .absent ∨ fresh name = .absent) ∧ ¬ BothReadable w fresh name ∧
        ∃ e, checkArtifact outPath w.committed fresh name = .error e ∧ Plain e) := by
  have hplain : Plain (.exception "PermissionError" "Permission denied") := by
    refine ⟨rfl, ?_⟩
    decide
  unfold checkArtifact
  cases hold : w.committed name with
  | absent => exact Or.inr (Or.inl ⟨Or.inl rfl, _, rfl⟩)
  | unreadable =>
    have hnot : ¬ BothReadable w fresh name := by
      rintro ⟨⟨old, h⟩, -⟩
      rw [hold] at h
      cases h
    cases hnew : fresh name with
    | absent => exact Or.inr (Or.inl ⟨Or.inr rfl, _, rfl⟩)
    | unreadable => exact Or.inr (Or.inr ⟨by simp, hnot, _, rfl, hplain⟩)
    | file new => exact Or.inr (Or.inr ⟨by simp, hnot, _, rfl, hplain⟩)
  | file old =>
    cases hnew : fresh name with
    | absent => exact Or.inr (Or.inl ⟨Or.inr rfl, _, rfl⟩)
    | unreadable =>
      refine Or.inr (Or.inr ⟨by simp, ?_, _, rfl, hplain⟩)
      rintro ⟨-, new, h⟩
      rw [hnew] at h
      cases h
    | file new =>
      refine Or.inl ⟨compareArtifact name old new, rfl, ⟨⟨old, hold⟩, new, hnew⟩, ?_⟩
      rw [compareArtifact_eq_ok_iff, sameArtifact_of_files hold hnew]

theorem not_meetsMissing_of_readable {names : List String}
    (h : ∀ name ∈ names, BothReadable w fresh name) : ¬ MeetsMissing w fresh names := by
  induction names with
  | nil => exact fun hm => hm
  | cons name names ih =>
    rintro (habsent | ⟨-, hm⟩)
    · obtain ⟨⟨old, hold⟩, new, hnew⟩ := h name (by simp)
      rcases habsent with habsent | habsent
      · rw [habsent] at hold
        cases hold
      · rw [habsent] at hnew
        cases hnew
    · exact ih (fun n hn => h n (by simp [hn])) hm

/-- What the whole loop does. -/
theorem checkArtifacts_cases (outPath : String) (names : List String) :
    (∃ findings, names.mapM (checkArtifact outPath w.committed fresh) = .ok findings ∧
        (∀ name ∈ names, BothReadable w fresh name) ∧
        (findings.all (· = .ok) = true ↔ ∀ name ∈ names, SameArtifact w fresh name)) ∨
      (MeetsMissing w fresh names ∧
        ∃ msg, names.mapM (checkArtifact outPath w.committed fresh) = .error (checkError msg)) ∨
      (¬ MeetsMissing w fresh names ∧ (¬ ∀ name ∈ names, BothReadable w fresh name) ∧
        ∃ e, names.mapM (checkArtifact outPath w.committed fresh) = .error e ∧ Plain e) := by
  induction names with
  | nil => exact Or.inl ⟨[], rfl, by simp, by simp⟩
  | cons name names ih =>
    rw [List.mapM_cons]
    rcases @checkArtifact_cases w fresh outPath name with
      ⟨finding, hok, hreadable, hsame⟩ | ⟨habsent, msg, herror⟩ | ⟨hthere, hnot, e, herror, he⟩
    · rw [hok]
      rcases ih with ⟨findings, hoks, hall, hsames⟩ | ⟨hm, msg, herror⟩ | ⟨hm, hnot, e, herror, he⟩
      · refine Or.inl ⟨finding :: findings, by rw [hoks]; rfl, ?_, ?_⟩
        · intro n hn
          rcases List.mem_cons.mp hn with rfl | hn
          · exact hreadable
          · exact hall n hn
        · rw [List.all_cons, Bool.and_eq_true, decide_eq_true_eq, hsame, hsames,
            List.forall_mem_cons]
      · exact Or.inr (Or.inl ⟨Or.inr ⟨hreadable, hm⟩, msg, by rw [herror]; rfl⟩)
      · refine Or.inr (Or.inr ⟨?_, fun hall => hnot fun n hn => hall n (by simp [hn]), e,
          by rw [herror]; rfl, he⟩)
        rintro (habsent | ⟨-, hm'⟩)
        · have hone : ∀ n ∈ [name], BothReadable w fresh n := by simpa using hreadable
          exact not_meetsMissing_of_readable hone (Or.inl habsent)
        · exact hm hm'
    · exact Or.inr (Or.inl ⟨Or.inl habsent, msg, by rw [herror]; rfl⟩)
    · refine Or.inr (Or.inr ⟨?_, fun hall => hnot (hall name (by simp)), e, by rw [herror]; rfl,
        he⟩)
      rintro (habsent | ⟨hreadable, -⟩)
      · exact hthere habsent
      · exact hnot hreadable

end Artifacts

/-! ## The run -/

section Run

variable {limits : Limits} {w : World}

theorem InStep.comparable (h : InStep limits w) : Comparable limits w := by
  obtain ⟨⟨fresh, hfresh, hsame⟩, embedded, arc, he, ha, -⟩ := h
  exact ⟨⟨fresh, hfresh, fun name hname => (hsame name hname).bothReadable⟩, embedded, arc, he, ha⟩

theorem Comparable.reaches (h : Comparable limits w) : ReachesCompiler w := by
  obtain ⟨⟨fresh, hfresh, -⟩, -⟩ := h
  exact hfresh.1

theorem isThere_iff {path : PathState} : path.isThere = true ↔ path ≠ .absent := by
  cases path <;> simp [PathState.isThere]

theorem assertPragmaMatches_cases (raw : Bytes) :
    (PinnedPragma raw ∧ assertPragmaMatches (.file raw) = .ok ()) ∨
      (¬ PinnedPragma raw ∧ ∃ msg, assertPragmaMatches (.file raw) = .error (checkError msg)) := by
  unfold assertPragmaMatches PinnedPragma
  simp only [PathState.readBytes, bind, Except.bind]
  cases hlines : splitlines (decodeReplace (normalise raw)) with
  | nil =>
    refine Or.inr ⟨?_, _, rfl⟩
    rintro ⟨first, rest, declared, h, -⟩
    cases h
  | cons first rest =>
    dsimp only [List.head?_cons]
    cases hafter : after "#pragma version ".toList first with
    | none =>
      refine Or.inr ⟨?_, _, rfl⟩
      rintro ⟨first', rest', declared, h, hfirst, -⟩
      cases h
      rw [after_eq_some.mpr hfirst] at hafter
      cases hafter
    | some declared =>
      dsimp only
      by_cases hversion : Str.strip declared = avmTarget
      · refine Or.inl ⟨⟨first, rest, declared, rfl, after_eq_some.mp hafter, hversion⟩, ?_⟩
        unfold require
        rw [if_pos hversion]
      · refine Or.inr ⟨?_, _, by unfold require; rw [if_neg hversion]⟩
        rintro ⟨first', rest', declared', h, hfirst, hversion'⟩
        cases h
        rw [after_eq_some.mpr hfirst] at hafter
        cases hafter
        exact hversion hversion'

/-- An artifact that cannot be read stops the check of its first line. -/
theorem assertPragmaMatches_of_not_file {path : PathState} (h : ¬ path.Readable) :
    ∃ e, assertPragmaMatches path = .error e ∧ Plain e := by
  have hplain := readBytes_plain path
  cases hread : path.readBytes with
  | error e =>
    refine ⟨e, ?_, hplain e hread⟩
    unfold assertPragmaMatches
    rw [hread]
    rfl
  | ok contents =>
    cases path with
    | file contents => exact absurd ⟨contents, rfl⟩ h
    | _ => cases hread

theorem compile_cases (executable : String) (compiler : CompilerOutcome) :
    (∃ fresh, compiler = .emitted fresh ∧ compile executable compiler = .ok fresh) ∨
      (CompilerReports compiler ∧
        ∃ msg, compile executable compiler = .error (checkError msg)) ∨
      ((¬ CompilerReports compiler ∧ ∀ fresh, compiler ≠ .emitted fresh) ∧
        ∃ e, compile executable compiler = .error e ∧ Plain e) := by
  cases compiler with
  | emitted fresh => exact Or.inl ⟨fresh, rfl, rfl⟩
  | failed returncode stdout stderr =>
    exact Or.inr (Or.inl ⟨Or.inr ⟨returncode, stdout, stderr, rfl⟩, _, rfl⟩)
  | undecodable msg =>
    refine Or.inr (Or.inr ⟨⟨?_, fun fresh h => by cases h⟩, _, rfl, rfl, ?_⟩)
    · rintro (⟨e, h, -⟩ | ⟨_, _, _, h⟩) <;> cases h
    · show ¬ "UnicodeDecodeError" = "KeyboardInterrupt"
      decide
  | notStarted e =>
    by_cases hfound : e.error.isFileNotFound = true
    · exact Or.inr (Or.inl ⟨Or.inl ⟨e, rfl, hfound⟩, _, if_pos hfound⟩)
    · refine Or.inr (Or.inr ⟨⟨?_, fun fresh h => by cases h⟩, e.error, if_neg hfound, e.plain⟩)
      rintro (⟨e', h, hfound'⟩ | ⟨_, _, _, h⟩)
      · cases h
        exact hfound hfound'
      · cases h

/-- A run that does not get to the compiler. -/
theorem exitStatus_of_not_reaches (h : ¬ ReachesCompiler w) :
    (Reported w ∧ exitStatus (main limits w) = 2) ∨
      (¬ Reported w ∧ exitStatus (main limits w) = 1) := by
  unfold main
  rw [exitStatus_require]
  by_cases hsource : w.source = .absent
  · rw [if_neg (by rw [isThere_iff]; exact not_not.mpr hsource)]
    exact Or.inl ⟨Or.inl hsource, rfl⟩
  rw [if_pos (isThere_iff.mpr hsource), exitStatus_require]
  by_cases hdir : w.outIsDir = true
  swap
  · rw [if_neg hdir]
    exact Or.inl ⟨Or.inr (Or.inl (by simpa using hdir)), rfl⟩
  rw [if_pos hdir]
  have hdirs : ¬ (w.outIsDir = false) := by simp [hdir]
  by_cases hfile : ∃ raw, w.committed approvalName = .file raw
  swap
  · obtain ⟨e, herror, he⟩ := assertPragmaMatches_of_not_file hfile
    refine Or.inr ⟨?_, ?_⟩
    · rintro (hs | hd | ⟨raw, hraw, -⟩)
      · exact hsource hs
      · exact hdirs hd
      · exact hfile ⟨raw, hraw⟩
    · rw [herror]
      exact exitStatus_plain he
  obtain ⟨raw, hraw⟩ := hfile
  rw [hraw]
  rcases assertPragmaMatches_cases raw with ⟨hpragma, hok⟩ | ⟨hpragma, msg, herror⟩
  · have hscratch : w.noScratch ≠ none := by
      intro hnone
      exact h ⟨isThere_iff.mpr hsource, hdir, ⟨raw, hraw, hpragma⟩, hnone⟩
    obtain ⟨e, he⟩ := Option.ne_none_iff_exists'.mp hscratch
    have hmake : makeScratch w = .error e.error := by
      unfold makeScratch
      rw [he]
    refine Or.inr ⟨?_, ?_⟩
    · rintro (hs | hd | ⟨raw', hraw', hnot | ⟨hnone, -⟩⟩)
      · exact hsource hs
      · exact hdirs hd
      · rw [hraw] at hraw'
        cases hraw'
        exact hnot hpragma
      · exact hscratch hnone
    · rw [hok]
      show exitStatus (makeScratch w >>= _) = 1
      rw [hmake]
      exact exitStatus_plain e.plain
  · refine Or.inl ⟨Or.inr (Or.inr ⟨raw, hraw, Or.inl hpragma⟩), ?_⟩
    rw [herror]
    rfl

theorem main_of_reaches (h : ReachesCompiler w) :
    main limits w = compile w.executable w.compiler >>= compareAll limits w := by
  obtain ⟨hsource, hdir, ⟨raw, hraw, hpragma⟩, hscratch⟩ := h
  have hok : assertPragmaMatches (w.committed approvalName) = .ok () := by
    rw [hraw]
    rcases assertPragmaMatches_cases raw with ⟨-, hok⟩ | ⟨hnot, -⟩
    · exact hok
    · exact absurd hpragma hnot
  have hmake : makeScratch w = .ok () := by
    unfold makeScratch
    rw [hscratch]
  unfold main require
  rw [if_pos hsource, if_pos hdir, hok, hmake]
  rfl

/-- Once the compiler has run, the exit code is that of the comparison. -/
theorem exitStatus_compareAll {fresh : String → PathState} {findings : List Finding}
    (hfindings : artifacts.mapM (checkArtifact w.outPath w.committed fresh) = .ok findings) :
    (findings.all (· = .ok) = true ∧ SpecInStep limits w ∧
        exitStatus (compareAll limits w fresh) = 0) ∨
      (¬ (findings.all (· = .ok) = true ∧ SpecInStep limits w) ∧
        exitStatus (compareAll limits w fresh) = 1) := by
  have hstep := @clientSpecMatches_eq_none_iff_inStep limits w
  have hplain := clientSpecMatches_plain limits w.client (w.committed arc56Name)
  unfold compareAll
  rw [hfindings]
  cases hclient : clientSpecMatches limits w.client (w.committed arc56Name) with
  | error e =>
    rw [hclient] at hstep
    refine Or.inr ⟨fun h => absurd (hstep.mpr h.2) (by simp), ?_⟩
    exact exitStatus_plain (hplain e hclient)
  | ok problem =>
    rw [hclient] at hstep
    cases problem with
    | some problem =>
      refine Or.inr ⟨fun h => absurd (hstep.mpr h.2) (by simp), ?_⟩
      show (if findings.all (· = .ok) && false then 0 else 1) = 1
      simp
    | none =>
      have hspec : SpecInStep limits w := hstep.mp rfl
      show _ ∨ (_ ∧ (if findings.all (· = .ok) && true then 0 else 1) = 1)
      by_cases hall : findings.all (· = .ok) = true
      · refine Or.inl ⟨hall, hspec, ?_⟩
        show (if findings.all (· = .ok) && true then 0 else 1) = 0
        simp [hall]
      · exact Or.inr ⟨fun h => hall h.1, by simp [hall]⟩

/-- What is left of `Reported` once the compiler is reached. -/
theorem reported_iff_of_reaches (h : ReachesCompiler w) :
    Reported w ↔ CompilerReports w.compiler ∨
      ∃ fresh, w.compiler = .emitted fresh ∧ MeetsMissing w fresh artifacts := by
  obtain ⟨hsource, hdir, ⟨raw, hraw, hpragma⟩, hscratch⟩ := h
  constructor
  · rintro (hs | hd | ⟨raw', hraw', hnot | ⟨-, h⟩⟩)
    · exact absurd hs (isThere_iff.mp hsource)
    · rw [hd] at hdir
      cases hdir
    · rw [hraw] at hraw'
      cases hraw'
      exact absurd hpragma hnot
    · exact h
  · intro h
    exact Or.inr (Or.inr ⟨raw, hraw, Or.inr ⟨hscratch, h⟩⟩)

theorem Fresh.unique {fresh fresh' : String → PathState} (h : Fresh w fresh)
    (h' : w.compiler = .emitted fresh') : fresh' = fresh := by
  rw [h.2] at h'
  cases h'
  rfl

theorem Fresh.reported_iff {fresh : String → PathState} (h : Fresh w fresh) :
    Reported w ↔ MeetsMissing w fresh artifacts := by
  have hsilent : ¬ CompilerReports w.compiler := by
    rw [h.2]
    rintro (⟨e, h, -⟩ | ⟨_, _, _, h⟩) <;> cases h
  rw [reported_iff_of_reaches h.1]
  constructor
  · rintro (hreports | ⟨fresh', h', hm⟩)
    · exact absurd hreports hsilent
    · rwa [h.unique h'] at hm
  · intro hm
    exact Or.inr ⟨fresh, h.2, hm⟩

theorem Fresh.comparable_iff {fresh : String → PathState} (h : Fresh w fresh) :
    Comparable limits w ↔ (∀ name ∈ artifacts, BothReadable w fresh name) ∧
      ∃ embedded arc, Embeds limits w.client embedded ∧
        Holds limits (w.committed arc56Name) arc := by
  constructor
  · rintro ⟨⟨fresh', hfresh', hall⟩, hspecs⟩
    rw [h.unique hfresh'.2] at hall
    exact ⟨hall, hspecs⟩
  · rintro ⟨hall, hspecs⟩
    exact ⟨⟨fresh, h, hall⟩, hspecs⟩

theorem Fresh.inStep_iff {fresh : String → PathState} (h : Fresh w fresh) :
    InStep limits w ↔
      (∀ name ∈ artifacts, SameArtifact w fresh name) ∧ SpecInStep limits w := by
  constructor
  · rintro ⟨⟨fresh', hfresh', hsames⟩, hspec⟩
    rw [h.unique hfresh'.2] at hsames
    exact ⟨hsames, hspec⟩
  · rintro ⟨hsames, hspec⟩
    exact ⟨⟨fresh, h, hsames⟩, hspec⟩

/-- How a run ends that has its fresh artifacts. -/
theorem Fresh.exitStatus_cases {fresh : String → PathState} (h : Fresh w fresh) :
    (Reported w ∧ ¬ Comparable limits w ∧ exitStatus (compareAll limits w fresh) = 2) ∨
      (¬ Reported w ∧ ¬ Comparable limits w ∧ exitStatus (compareAll limits w fresh) = 1) ∨
      (Comparable limits w ∧
        ((InStep limits w ∧ exitStatus (compareAll limits w fresh) = 0) ∨
          (¬ InStep limits w ∧ exitStatus (compareAll limits w fresh) = 1))) := by
  rw [h.reported_iff, h.comparable_iff, h.inStep_iff]
  rcases @checkArtifacts_cases w fresh w.outPath artifacts with
    ⟨findings, hfindings, hall, hsame⟩ | ⟨hm, msg, herror⟩ | ⟨hm, hnot, e, herror, he⟩
  · have hexit := @exitStatus_compareAll limits w fresh findings hfindings
    rw [← hsame]
    by_cases hspecs : ∃ embedded arc, Embeds limits w.client embedded ∧
        Holds limits (w.committed arc56Name) arc
    · refine Or.inr (Or.inr ⟨⟨hall, hspecs⟩, ?_⟩)
      rcases hexit with ⟨hok, hspec, hexit⟩ | ⟨hnot, hexit⟩
      · exact Or.inl ⟨⟨hok, hspec⟩, hexit⟩
      · exact Or.inr ⟨hnot, hexit⟩
    · refine Or.inr (Or.inl ⟨not_meetsMissing_of_readable hall, fun h => hspecs h.2, ?_⟩)
      rcases hexit with ⟨-, ⟨embedded, arc, hembeds, hholds, -⟩, -⟩ | ⟨-, hexit⟩
      · exact absurd ⟨embedded, arc, hembeds, hholds⟩ hspecs
      · exact hexit
  · refine Or.inl ⟨hm, fun h => not_meetsMissing_of_readable h.1 hm, ?_⟩
    unfold compareAll
    rw [herror]
    rfl
  · refine Or.inr (Or.inl ⟨hm, fun h => hnot h.1, ?_⟩)
    unfold compareAll
    rw [herror]
    exact exitStatus_plain he

/-- How a run ends, and what the code could have known. -/
theorem exitStatus_main_cases (limits : Limits) (w : World) :
    (Reported w ∧ ¬ Comparable limits w ∧ exitStatus (main limits w) = 2) ∨
      (¬ Reported w ∧ ¬ Comparable limits w ∧ exitStatus (main limits w) = 1) ∨
      (Comparable limits w ∧ ((InStep limits w ∧ exitStatus (main limits w) = 0) ∨
        (¬ InStep limits w ∧ exitStatus (main limits w) = 1))) := by
  by_cases hreaches : ReachesCompiler w
  swap
  · have hnot : ¬ Comparable limits w := fun h => hreaches h.reaches
    rcases @exitStatus_of_not_reaches limits w hreaches with ⟨h, hexit⟩ | ⟨h, hexit⟩
    · exact Or.inl ⟨h, hnot, hexit⟩
    · exact Or.inr (Or.inl ⟨h, hnot, hexit⟩)
  rw [main_of_reaches hreaches]
  have hemitted : Comparable limits w → ∃ fresh, w.compiler = .emitted fresh := by
    rintro ⟨⟨fresh, hfresh, -⟩, -⟩
    exact ⟨fresh, hfresh.2⟩
  rcases compile_cases w.executable w.compiler with
    ⟨fresh, hcompiler, hok⟩ | ⟨hreports, msg, herror⟩ | ⟨⟨hnot, hno⟩, e, herror, he⟩
  · rw [hok]
    exact Fresh.exitStatus_cases ⟨hreaches, hcompiler⟩
  · refine Or.inl ⟨(reported_iff_of_reaches hreaches).mpr (Or.inl hreports), ?_, ?_⟩
    · intro h
      obtain ⟨fresh, hfresh⟩ := hemitted h
      rw [hfresh] at herror
      cases herror
    · rw [herror]
      rfl
  · refine Or.inr (Or.inl ⟨?_, ?_, ?_⟩)
    · rw [reported_iff_of_reaches hreaches]
      rintro (h | ⟨fresh, h, -⟩)
      · exact hnot h
      · exact hno fresh h
    · intro h
      obtain ⟨fresh, hfresh⟩ := hemitted h
      exact hno fresh hfresh
    · rw [herror]
      exact exitStatus_plain he

end Run

/-- The exit code says what it promises exactly when every comparison can be carried out, or
what stops the run first is something that the code expects. -/
theorem exitStatus_truthful_iff (limits : Limits) (w : World) :
    Truthful limits w (exitStatus (main limits w)) ↔ Comparable limits w ∨ Reported w := by
  rcases exitStatus_main_cases limits w with
    ⟨hreported, hnot, hexit⟩ | ⟨hnotReported, hnot, hexit⟩ | ⟨hcomparable, h⟩
  · rw [hexit]
    refine iff_of_true ⟨?_, fun h => absurd h (by decide), fun _ => rfl⟩ (Or.inr hreported)
    exact iff_of_false (by decide) fun h => hnot h.comparable
  · rw [hexit]
    refine iff_of_false (fun h => hnot (h.one rfl).1) ?_
    rintro (h | h)
    · exact hnot h
    · exact hnotReported h
  · refine iff_of_true ?_ (Or.inl hcomparable)
    rcases h with ⟨hstep, hexit⟩ | ⟨hstep, hexit⟩
    · rw [hexit]
      exact ⟨iff_of_true rfl hstep, fun h => absurd h (by decide), fun h => absurd hcomparable h⟩
    · rw [hexit]
      exact ⟨iff_of_false (by decide) hstep, fun _ => ⟨hcomparable, hstep⟩,
        fun h => absurd hcomparable h⟩

/-- The output directory is empty. -/
def emptyOut : World where
  executable := "python"
  sourcePath := "inscription.py"
  source := .file []
  outPath := "out"
  outIsDir := true
  committed := fun _ => .absent
  client := .absent
  noScratch := none
  compiler := .failed 1 [] []

/-- The first artifact is missing, and the exit code says that there is drift. -/
theorem missing_artifact_misreported :
    exitStatus (main Limits.default emptyOut) = 1 ∧
      ¬ Truthful Limits.default emptyOut (exitStatus (main Limits.default emptyOut)) := by
  have hexit : exitStatus (main Limits.default emptyOut) = 1 := rfl
  refine ⟨hexit, fun h => ?_⟩
  obtain ⟨-, -, ⟨raw, hraw, -⟩, -⟩ := (h.one hexit).1.reaches
  cases hraw

end Trelyan.Teal
