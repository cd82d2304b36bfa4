import Mathlib.Data.Finset.Sort
import Trelyan.Lib.Faults
import Trelyan.Lib.FileSystem
import Trelyan.Lib.JsonRoundTrip

/-!
# The seal stores

The two stores of `sdk/src/trelyan_pq/seal.py`.  A store records which cells
are sealed.  `InMemorySealStore` is a set.  `JsonFileSealStore` is a file with
a list of cell ids, and `record` replaces it: it writes the new list to a
temporary file, syncs the file, and renames it over the old one.

Every system call is a step that may be cut short.  What the file says is
`loadIds` of the contents of the path, so no other file of the directory has
a part in it.

What `record` writes, `_load` reads back (`payload_loads`), and a file that is
there is never taken for an absent one (`readIds_notFound`).
-/

namespace Trelyan.Seal

open Py Faults

/-- `SealStore`, over a state of the world outside the store. -/
structure SealStore (σ : Type) where
  isSealed : Value → Proc Error σ Bool
  record : Value → Proc Error σ Unit

/-! ## In memory -/

/-- `InMemorySealStore`. -/
def inMemorySealStore (limits : Limits) : SealStore (Finset Int) where
  isSealed cellId := do
    let n ← Proc.call (intOf limits cellId)
    Proc.perform { run := fun s => .ok (decide (n ∈ s), s) }
  record cellId := do
    let n ← Proc.call (intOf limits cellId)
    Proc.perform { run := fun s => .ok ((), insert n s) }

/-! ## In a file -/

/-- The random part of a temporary name: eight characters out of
`tempfile`'s alphabet. -/
structure RandomName where
  chars : List Char
  length_eq : chars.length = 8
  mem_alphabet : ∀ c ∈ chars, c ∈ "abcdefghijklmnopqrstuvwxyz0123456789_".toList

def RandomName.first : RandomName where
  chars := List.replicate 8 'a'
  length_eq := rfl
  mem_alphabet c hc := by
    rw [List.eq_of_mem_replicate hc]
    decide

/-- `prefix=".seal_", suffix=".json.tmp"`. -/
def tempName (r : RandomName) : String :=
  ".seal_" ++ String.ofList r.chars ++ ".json.tmp"

/-- The directory of the store, and the names that `tempfile` is going to
try. -/
structure Disk where
  fs : Fs
  candidates : List RandomName

def fileNotFound (path : String) : Error :=
  .exception "FileNotFoundError" ("No such file or directory: " ++ path)

def fileExists (path : String) : Error :=
  .exception "FileExistsError" ("No usable temporary file name found: " ++ path)

/-- The ids in the contents of the file:
`set(int(x) for x in json.load(f))`. -/
def idsOf (limits : Limits) (content : Bytes) : Except Error (Finset Int) := do
  let text ← Json.decodeUtf8 content
  let v ← Json.loads limits text
  let items ← v.iter
  let ids ← items.mapM (Json.toInt limits)
  .ok ids.toFinset

/-- The ids that the store has recorded.  No file is an empty list. -/
def loadIds (limits : Limits) : Option Bytes → Except Error (Finset Int)
  | some content => idsOf limits content
  | none => .ok ∅

/-- `json.dumps(sorted(sealed)).encode("utf-8")`. -/
def payload (limits : Limits) (sealed : Finset Int) : Except Error Bytes :=
  (Doc.dumps limits (.list ((sealed.sort (· ≤ ·)).map .int))).map Json.encodeUtf8

/-- `open(path)` and what is read from it.  Only an absent file makes it raise
`FileNotFoundError`. -/
def readIds (limits : Limits) (path : String) : Step Error Disk (Finset Int) where
  run d :=
    match d.fs.read path with
    | some content => (idsOf limits content).map fun ids => (ids, d)
    | none => .error (fileNotFound path)
  admits e := !e.isFileNotFound

/-- `JsonFileSealStore._load`. -/
def load (limits : Limits) (path : String) : Proc Error Disk (Finset Int) :=
  Proc.tryExcept (Proc.perform (readIds limits path)) fun e =>
    if e.isFileNotFound then pure ∅ else Proc.raise e

/-- `tempfile.mkstemp`, with the name it tries last. -/
def mkstemp : Step Error Disk (Nat × String) where
  run d :=
    let tmp := tempName (d.candidates.headD RandomName.first)
    match d.fs.entries tmp with
    | some _ => .error (fileExists tmp)
    | none => .ok ((d.fs.files.length, tmp), ⟨d.fs.create tmp, d.candidates.tail⟩)

/-- `f.write(data)`, which fills the buffer of the file object.  A part of it may
reach the file, also when the file is closed after an exception. -/
def bufferData (fd : Nat) (data : Bytes) : Step Error Disk Unit where
  run d := .ok ((), d)
  part n d := { d with fs := d.fs.write fd (data.take n) }

/-- `f.flush()`. -/
def flushData (fd : Nat) (data : Bytes) : Step Error Disk Unit where
  run d := .ok ((), { d with fs := d.fs.write fd data })
  part n d := { d with fs := d.fs.write fd (data.take n) }

/-- `os.fsync(f.fileno())`. -/
def syncData (fd : Nat) : Step Error Disk Unit where
  run d := .ok ((), { d with fs := d.fs.fsync fd })

/-- `os.replace(src, dst)`. -/
def replaceFile (src dst : String) : Step Error Disk Unit where
  run d :=
    match d.fs.replace src dst with
    | some fs => .ok ((), { d with fs })
    | none => .error (fileNotFound src)

/-- `os.unlink(path)`. -/
def unlinkFile (path : String) : Step Error Disk Unit where
  run d :=
    match d.fs.unlink path with
    | some fs => .ok ((), { d with fs })
    | none => .error (fileNotFound path)

/-- The body of the `try` of `record`: `os.fdopen` to `os.replace`. -/
def writeAndReplace (path : String) (fd : Nat) (tmp : String) (data : Bytes) :
    Proc Error Disk Unit := do
  -- `os.fdopen(fd, "wb")`
  Proc.call (.ok ())
  Proc.perform (bufferData fd data)
  Proc.perform (flushData fd data)
  Proc.perform (syncData fd)
  -- `f.close()` at the end of the `with`
  Proc.call (.ok ())
  Proc.perform (replaceFile tmp path)

/-- The handler: remove the temporary file if that works, and raise again. -/
def cleanUp (tmp : String) (e : Error) : Proc Error Disk Unit := do
  Proc.tryExcept (Proc.perform (unlinkFile tmp)) fun e' =>
    if e'.isOSError then pure () else Proc.raise e'
  Proc.raise e

/-- `JsonFileSealStore.record`. -/
def record (limits : Limits) (path : String) (cellId : Value) : Proc Error Disk Unit := do
  let sealed ← load limits path
  let n ← Proc.call (intOf limits cellId)
  let data ← Proc.call (payload limits (insert n sealed))
  let (fd, tmp) ← Proc.perform mkstemp
  Proc.tryExcept (writeAndReplace path fd tmp data) (cleanUp tmp)

/-- `JsonFileSealStore.is_sealed`. -/
def isSealed (limits : Limits) (path : String) (cellId : Value) : Proc Error Disk Bool := do
  let n ← Proc.call (intOf limits cellId)
  let sealed ← load limits path
  pure (decide (n ∈ sealed))

/-- `JsonFileSealStore`. -/
def jsonFileSealStore (limits : Limits) (path : String) : SealStore Disk where
  isSealed := isSealed limits path
  record := record limits path

/-! ## What is written can be loaded -/

/-- The contents are a JSON list of integers. -/
def ValidIds (limits : Limits) (content : Bytes) : Prop :=
  ∃ text, ∃ ns : List Int, Json.decodeUtf8 content = .ok text ∧
    Json.loads limits text = .ok (.list (ns.map Json.int))

theorem mapM_toInt (limits : Limits) (ns : List Int) :
    (ns.map Json.int).mapM (Json.toInt limits) = .ok ns := by
  induction ns with
  | nil => rfl
  | cons n ns ih =>
    rw [List.map_cons, List.mapM_cons, ih]
    rfl

theorem ValidIds.idsOf {limits : Limits} {content : Bytes} (h : ValidIds limits content) :
    ∃ ids, idsOf limits content = .ok ids := by
  rcases h with ⟨text, ns, htext, hv⟩
  refine ⟨ns.toFinset, ?_⟩
  unfold Seal.idsOf
  rw [htext]
  show (Json.loads limits text >>= _) = _
  rw [hv]
  show ((ns.map Json.int).mapM (Json.toInt limits) >>= _) = _
  rw [mapM_toInt]
  rfl

theorem toJsons_int (ns : List Int) : Doc.toJsons (ns.map Doc.int) = ns.map Json.int := by
  induction ns with
  | nil => rfl
  | cons n ns ih => exact congrArg (List.cons (Json.int n)) ih

theorem itemsDepth_int (ns : List Int) : Doc.itemsDepth (ns.map Doc.int) = 0 := by
  induction ns with
  | nil => rfl
  | cons n ns ih =>
    rw [List.map_cons, Doc.itemsDepth, ih]
    rfl

/-- What `record` writes, `_load` reads. -/
theorem payload_loads {limits : Limits} {ids : Finset Int} {data : Bytes}
    (h : payload limits ids = .ok data) :
    ValidIds limits data ∧ idsOf limits data = .ok ids := by
  unfold payload at h
  cases hdumps : Doc.dumps limits (.list ((ids.sort (· ≤ ·)).map .int)) with
  | error e =>
    rw [hdumps] at h
    cases h
  | ok text =>
    rw [hdumps] at h
    cases h
    have hdepth : Doc.depth (.list ((ids.sort (· ≤ ·)).map .int)) ≤ limits.maxDepth := by
      have hdepth := limits.two_le_maxDepth
      rw [Doc.depth, itemsDepth_int]
      omega
    have hloads := Doc.loads_dumps hdumps hdepth
    rw [Doc.toJson, toJsons_int] at hloads
    have htext := Json.decodeUtf8_encodeUtf8 text
    refine ⟨⟨text, _, htext, hloads⟩, ?_⟩
    unfold idsOf
    rw [htext]
    show (Json.loads limits text >>= _) = _
    rw [hloads]
    show (((ids.sort (· ≤ ·)).map Json.int).mapM (Json.toInt limits) >>= _) = _
    rw [mapM_toInt]
    show Except.ok (ids.sort (· ≤ ·)).toFinset = _
    rw [Finset.sort_toFinset]

/-! ## What a load raises -/

section LoadErrors

/-- What `_load` raises by itself when it has read the file. -/
def IsLoadError (e : Error) : Prop :=
  e.IsBuiltin ∨ e.className ∈ ["JSONDecodeError", "RecursionError", "UnicodeDecodeError"]

theorem IsLoadError.found {e : Error} (h : IsLoadError e) : e.isFileNotFound = false := by
  unfold Error.isFileNotFound
  simp only [IsLoadError, Error.IsBuiltin, List.mem_cons, List.not_mem_nil, or_false] at h
  rcases h with (h | h | h | h) | h | h | h <;> rw [h] <;> rfl

theorem loadError_of_raises {e : Error} (h : Json.Raises e) : IsLoadError e := by
  unfold IsLoadError Error.IsBuiltin
  rcases h with h | h | h <;> rw [h] <;> simp

theorem toInt_errors (limits : Limits) (v : Json) :
    Errors Error.IsBuiltin (v.toInt limits) := by
  cases v with
  | str s => exact intOfAscii_errors limits _
  | float bits => exact intOfFloat_errors bits
  | int n => exact errors_ok n
  | bool b => exact errors_ok _
  | null | list items | dict entries => exact errors_error (Error.isBuiltin_typeError _)

theorem mapM_toInt_errors (limits : Limits) (items : List Json) :
    Errors Error.IsBuiltin (items.mapM (Json.toInt limits)) := by
  induction items with
  | nil => exact errors_ok []
  | cons v items ih =>
    rw [List.mapM_cons]
    exact (toInt_errors limits v).bind fun n => ih.bind fun ns => errors_ok (n :: ns)

theorem iter_errors (v : Json) : Errors Error.IsBuiltin v.iter := by
  unfold Json.iter
  split
  · exact errors_ok _
  · exact errors_ok _
  · exact errors_ok _
  · exact errors_error (Error.isBuiltin_typeError _)

theorem idsOf_errors (limits : Limits) (content : Bytes) :
    Errors IsLoadError (idsOf limits content) := by
  unfold idsOf
  refine Errors.bind ?_ fun text => Errors.bind ?_ fun v => Errors.mono ?_ fun e => Or.inl
  · unfold Json.decodeUtf8
    split
    · exact errors_ok _
    · exact errors_error (Or.inr (by simp [Error.className]))
  · exact (Json.loads_decodes limits text).mono fun e => loadError_of_raises
  · exact (iter_errors v).bind fun items => (mapM_toInt_errors limits items).bind fun ns =>
      errors_ok _

theorem payload_errors (limits : Limits) (ids : Finset Int) :
    Errors Error.IsBuiltin (payload limits ids) := by
  refine Errors.map ?_ _
  unfold Doc.dumps
  split
  · exact errors_ok _
  · exact errors_error (Error.isBuiltin_valueError _)

end LoadErrors

/-! ## Specifications -/

variable {limits : Limits} {path : String}

/-- What a reading step returns. -/
theorem readIds_run {d d' : Disk} {ids : Finset Int}
    (h : (readIds limits path).run d = .ok (ids, d')) :
    d' = d ∧ loadIds limits (d.fs.read path) = .ok ids := by
  unfold readIds at h
  dsimp only at h
  split at h
  · rename_i content hcontent
    cases hids : idsOf limits content with
    | error e =>
      rw [hids] at h
      cases h
    | ok ids' =>
      rw [hids] at h
      cases h
      rw [hcontent]
      exact ⟨rfl, hids⟩
  · cases h

/-- Only an absent file is not found. -/
theorem readIds_notFound {d : Disk} {e : Error} (h : (readIds limits path).run d = .error e)
    (hnot : e.isFileNotFound = true) : d.fs.read path = none := by
  unfold readIds at h
  dsimp only at h
  split at h
  · rename_i content hcontent
    cases hids : idsOf limits content with
    | error e' =>
      rw [hids] at h
      cases h
      rw [(idsOf_errors limits content e hids).found] at hnot
      cases hnot
    | ok ids' =>
      rw [hids] at h
      cases h
  · rename_i hnone
    exact hnone

/-- The store does not change when it is read, and what is returned is what the
file says. -/
theorem load_spec (d : Disk) :
    Triple (· = d) (load limits path) fun r d' =>
      d' = d ∧ ∀ ids, r = .returned ids → loadIds limits (d.fs.read path) = .ok ids := by
  refine triple_tryExcept
    (fun e d' => d' = d ∧ (e.isFileNotFound = true → d.fs.read path = none)) ?_ ?_
  · refine triple_perform ?_ ?_ ?_
    · intro s ids s' hs hrun
      subst hs
      refine ⟨(readIds_run hrun).1, ?_⟩
      intro ids' heq
      cases heq
      exact (readIds_run hrun).2
    · intro s e hs hrun
      subst hs
      exact ⟨rfl, readIds_notFound hrun⟩
    · intro s progress hs
      subst hs
      rw [Step.cut_of_reads (fun _ _ _ hok => (readIds_run hok).1) (fun _ _ => rfl)]
      refine ⟨?_, rfl, ?_⟩
      · intro e hadmits
        refine ⟨rfl, ?_⟩
        intro hnot
        have hadmits : (!e.isFileNotFound) = true := hadmits
        rw [hnot] at hadmits
        cases hadmits
      · intro ids heq
        cases heq
  · intro e
    split
    · rename_i hnot
      refine triple_pure ?_
      intro s hs
      refine ⟨hs.1, ?_⟩
      intro ids heq
      cases heq
      rw [hs.2 hnot]
      rfl
    · refine triple_raise ?_
      intro s hs
      refine ⟨hs.1, ?_⟩
      intro ids heq
      cases heq

/-- `is_sealed` answers what the file says. -/
theorem isSealed_spec (cellId : Value) (d : Disk) :
    Triple (· = d) (isSealed limits path cellId) fun r d' =>
      d' = d ∧ ∀ b, r = .returned b → ∃ n ids, intOf limits cellId = .ok n ∧
        loadIds limits (d.fs.read path) = .ok ids ∧ b = decide (n ∈ ids) := by
  show Triple (· = d) _ (Post.keeps (· = d) fun b => ∃ n ids, intOf limits cellId = .ok n ∧
    loadIds limits (d.fs.read path) = .ok ids ∧ b = decide (n ∈ ids))
  refine keeps_bind (keeps_call _) ?_
  intro n hn
  refine keeps_bind (load_spec d) ?_
  intro ids hids
  exact keeps_pure ⟨n, ids, hn, hids, rfl⟩

/-! ## Runs without faults -/

section Runs

variable {fs : Fs} {candidates : List RandomName}

theorem load_run {ids : Finset Int} (h : loadIds limits (fs.read path) = .ok ids)
    (candidates : List RandomName) :
    load limits path ⟨[], ⟨fs, candidates⟩⟩ = (.returned ids, ⟨[], ⟨fs, candidates⟩⟩) := by
  unfold load
  cases hread : fs.read path with
  | none =>
    rw [hread] at h
    have hrun : (readIds limits path).run ⟨fs, candidates⟩ = .error (fileNotFound path) := by
      unfold readIds
      dsimp only
      rw [hread]
    rw [Proc.tryExcept_raised (Proc.perform_error hrun)]
    cases h
    rfl
  | some content =>
    rw [hread] at h
    have hids : idsOf limits content = .ok ids := h
    have hrun : (readIds limits path).run ⟨fs, candidates⟩ = .ok (ids, ⟨fs, candidates⟩) := by
      unfold readIds
      dsimp only
      rw [hread]
      dsimp only
      rw [hids]
      rfl
    exact Proc.tryExcept_returned (Proc.perform_ok hrun) _

/-- A file that is rejected. -/
theorem load_run_error {e : Error} (h : loadIds limits (fs.read path) = .error e)
    (candidates : List RandomName) :
    load limits path ⟨[], ⟨fs, candidates⟩⟩ = (.raised e, ⟨[], ⟨fs, candidates⟩⟩) ∧
      IsLoadError e := by
  cases hread : fs.read path with
  | none =>
    rw [hread] at h
    cases h
  | some content =>
    rw [hread] at h
    have hids : idsOf limits content = .error e := h
    have hclass := idsOf_errors limits content e hids
    have hrun : (readIds limits path).run ⟨fs, candidates⟩ = .error e := by
      unfold readIds
      dsimp only
      rw [hread]
      dsimp only
      rw [hids]
      rfl
    refine ⟨?_, hclass⟩
    unfold load
    rw [Proc.tryExcept_raised (Proc.perform_error hrun),
      if_neg (by rw [hclass.found]; decide)]
    rfl

theorem isSealed_run {cellId : Value} {n : Int} {ids : Finset Int}
    (hn : intOf limits cellId = .ok n)
    (hids : loadIds limits (fs.read path) = .ok ids) :
    isSealed limits path cellId ⟨[], ⟨fs, candidates⟩⟩ =
      (.returned (decide (n ∈ ids)), ⟨[], ⟨fs, candidates⟩⟩) := by
  unfold isSealed
  rw [Proc.bind_returned (Proc.call_ok hn _), Proc.bind_returned (load_run hids candidates)]
  rfl

end Runs

end Trelyan.Seal
