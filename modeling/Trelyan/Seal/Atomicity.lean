import Trelyan.Seal.Record

/-!
# Atomicity of the JSON store

What the store promises for a directory (`Promises`): `record` keeps the ids
or adds one, whatever faults occur, it adds it when it returns, a file that is
not a list of ids makes every call raise, and over a sequence of calls the ids
only grow.

It keeps the promises for exactly the directories in `SafeFile`.  The file may be
absent, a list of integers, or anything that `_load` rejects.  `_load` does not
reject everything else: `int` takes floats, booleans and strings, and iterating
takes objects and strings (`Coercible`).
-/

namespace Trelyan.Seal

open Py Faults

/-- One call of `record`, and what happens to it. -/
structure Attempt where
  cellId : Value
  candidates : List RandomName
  faults : List (Fault Error)

namespace Attempt

variable (limits : Limits) (path : String)

/-- Where the call starts, in a directory. -/
def world (a : Attempt) (fs : Fs) : World Error Disk := ⟨a.faults, ⟨fs, a.candidates⟩⟩

/-- How the call ends. -/
def ending (a : Attempt) (fs : Fs) : Ending Error Unit :=
  (record limits path a.cellId (a.world fs)).1

/-- The directory that the call leaves. -/
def leaves (a : Attempt) (fs : Fs) : Fs := (record limits path a.cellId (a.world fs)).2.state.fs

/-- The directory after some calls.  A call that is killed is followed by
another process. -/
def after : List Attempt → Fs → Fs
  | [], fs => fs
  | a :: attempts, fs => after attempts (a.leaves limits path fs)

/-- The call of `record` with this id was one of them, and it returned. -/
def Recorded (n : Int) : List Attempt → Fs → Prop
  | [], _ => False
  | a :: attempts, fs =>
    (a.ending limits path fs = .returned () ∧ intOf limits a.cellId = .ok n) ∨
      Recorded n attempts (a.leaves limits path fs)

end Attempt

/-! ## What `_load` returns -/

section Loads

variable {limits : Limits} {path : String} {fs : Fs}

/-- `_load` returns these ids. -/
def Loads (limits : Limits) (path : String) (fs : Fs) (ids : Finset Int) : Prop :=
  ∀ candidates, (load limits path ⟨[], ⟨fs, candidates⟩⟩).1 = .returned ids

/-- Only the contents of the path count. -/
theorem loads_iff {ids : Finset Int} :
    Loads limits path fs ids ↔ loadIds limits (fs.read path) = .ok ids := by
  constructor
  · intro h
    exact (load_spec ⟨fs, []⟩ ⟨[], ⟨fs, []⟩⟩ rfl).2 ids (h [])
  · intro h candidates
    rw [load_run h]

end Loads

/-! ## The promises -/

section Promises

variable (limits : Limits) (path : String)

/-- There is no file, or it is a list of ids. -/
def WellFormed (fs : Fs) : Prop :=
  ∀ content, fs.read path = some content → ValidIds limits content

/-- Whatever happens to `record`, the old ids are there, or the old ids and the
new one, and the new one is there when it returns. -/
def RecordsAtomically (fs : Fs) : Prop :=
  WellFormed limits path fs → ∃ ids, Loads limits path fs ids ∧ ∀ a : Attempt,
    (Loads limits path (a.leaves limits path fs) ids ∨
      ∃ n, intOf limits a.cellId = .ok n ∧
        Loads limits path (a.leaves limits path fs) (insert n ids)) ∧
    (a.ending limits path fs = .returned () →
      ∃ n, intOf limits a.cellId = .ok n ∧
        Loads limits path (a.leaves limits path fs) (insert n ids))

/-- A file that is not a list of ids stays as it is.  Neither call returns, and
without a kill both raise. -/
def FailsClosed (fs : Fs) : Prop :=
  ¬ WellFormed limits path fs → ∀ a : Attempt,
    (a.leaves limits path fs).read path = fs.read path ∧
    (isSealed limits path a.cellId (a.world fs)).2.state.fs = fs ∧
    a.ending limits path fs ≠ .returned () ∧
    (∀ b, (isSealed limits path a.cellId (a.world fs)).1 ≠ .returned b) ∧
    ((∀ fault ∈ a.faults, fault.isKill = false) →
      (∃ e, a.ending limits path fs = .raised e) ∧
        ∃ e, (isSealed limits path a.cellId (a.world fs)).1 = .raised e)

/-- Over a sequence of calls no id is lost, and those are there whose call
returned. -/
def Grows (fs : Fs) : Prop :=
  WellFormed limits path fs → ∀ attempts : List Attempt, ∃ ids ids',
    Loads limits path fs ids ∧ Loads limits path (Attempt.after limits path attempts fs) ids' ∧
      ids ⊆ ids' ∧ ∀ n, Attempt.Recorded limits path n attempts fs → n ∈ ids'

/-- Nothing else in the directory has a part in what is loaded. -/
def IgnoresOthers (fs : Fs) : Prop :=
  ∀ fs', fs'.read path = fs.read path → ∀ ids,
    Loads limits path fs' ids ↔ Loads limits path fs ids

/-- What the store promises, for every directory that a sequence of calls
leaves. -/
def Promises (fs : Fs) : Prop :=
  ∀ attempts : List Attempt,
    RecordsAtomically limits path (Attempt.after limits path attempts fs) ∧
    FailsClosed limits path (Attempt.after limits path attempts fs) ∧
    Grows limits path (Attempt.after limits path attempts fs) ∧
    IgnoresOthers limits path (Attempt.after limits path attempts fs)

end Promises

/-! ## What `_load` accepts -/

section Accepts

variable {limits : Limits}

/-- `int` takes the value. -/
def IntLike (limits : Limits) : Json → Prop
  | .int _ => True
  | .bool _ => True
  -- neither an infinity nor a NaN
  | .float bits => bits.toNat / 2 ^ 52 % 2048 ≠ 2047
  | .str s => ∃ n, intOfText limits s = .ok n
  | _ => False

/-- A document that is not a list of integers, and that becomes a set of them
all the same. -/
def Coercible (limits : Limits) : Json → Prop
  | .list items => (∀ v ∈ items, IntLike limits v) ∧ ∃ v ∈ items, ∀ n, v ≠ .int n
  | .dict entries => ∀ entry ∈ entries, ∃ n, intOfText limits entry.1 = .ok n
  | .str s => ∀ c ∈ s, ∃ n, intOfText limits [c] = .ok n
  | _ => False

/-- The contents are such a document. -/
def CoercibleIds (limits : Limits) (content : Bytes) : Prop :=
  ∃ text v, Json.decodeUtf8 content = .ok text ∧ Json.loads limits text = .ok v ∧
    Coercible limits v

theorem toInt_ok_iff {v : Json} : (∃ n, v.toInt limits = .ok n) ↔ IntLike limits v := by
  cases v with
  | int n => exact ⟨fun _ => trivial, fun _ => ⟨n, rfl⟩⟩
  | bool b => exact ⟨fun _ => trivial, fun _ => ⟨_, rfl⟩⟩
  | str s => exact Iff.rfl
  | float bits =>
    show (∃ n, intOfFloat bits = .ok n) ↔ _
    unfold intOfFloat IntLike
    dsimp only
    split
    · rename_i h
      constructor
      · rintro ⟨n, hn⟩
        split at hn <;> cases hn
      · intro hne
        exact absurd h hne
    · rename_i h
      exact ⟨fun _ => h, fun _ => ⟨_, rfl⟩⟩
  | null | list items | dict entries =>
    constructor
    · rintro ⟨n, hn⟩
      cases hn
    · intro h
      cases h

theorem mapM_toInt_ok_iff {items : List Json} :
    (∃ ns, items.mapM (Json.toInt limits) = .ok ns) ↔ ∀ v ∈ items, IntLike limits v := by
  induction items with
  | nil => exact ⟨fun _ => nofun, fun _ => ⟨[], rfl⟩⟩
  | cons v items ih =>
    rw [List.mapM_cons, List.forall_mem_cons, ← toInt_ok_iff, ← ih]
    constructor
    · rintro ⟨ns, h⟩
      obtain ⟨n, hn, h⟩ := bind_eq_ok.mp h
      obtain ⟨ns', hns, -⟩ := bind_eq_ok.mp h
      exact ⟨⟨n, hn⟩, ns', hns⟩
    · rintro ⟨⟨n, hn⟩, ns, hns⟩
      refine ⟨n :: ns, ?_⟩
      rw [hn, hns]
      rfl

/-- A list is one of integers, or it has another item. -/
theorem eq_map_int_or (items : List Json) :
    (∃ ns : List Int, items = ns.map .int) ∨ ∃ x ∈ items, ∀ n, x ≠ .int n := by
  induction items with
  | nil => exact Or.inl ⟨[], rfl⟩
  | cons x items ih =>
    by_cases hx : ∃ n, x = .int n
    · obtain ⟨n, rfl⟩ := hx
      rcases ih with ⟨ns, rfl⟩ | ⟨y, hy, hne⟩
      · exact Or.inl ⟨n :: ns, rfl⟩
      · exact Or.inr ⟨y, List.mem_cons_of_mem _ hy, hne⟩
    · exact Or.inr ⟨x, List.mem_cons_self, fun n heq => hx ⟨n, heq⟩⟩

/-- A document is accepted if it is a list of integers, or coercible. -/
theorem iter_mapM_ok_iff {v : Json} :
    (∃ ns, (v.iter >>= fun items => items.mapM (Json.toInt limits)) = .ok ns) ↔
      (∃ ns : List Int, v = .list (ns.map .int)) ∨ Coercible limits v := by
  have hiter : ∀ items, v.iter = .ok items →
      ((∃ ns, (v.iter >>= fun items => items.mapM (Json.toInt limits)) = .ok ns) ↔
        ∀ x ∈ items, IntLike limits x) := by
    intro items h
    rw [h]
    exact mapM_toInt_ok_iff
  cases v with
  | list items =>
    rw [hiter items rfl]
    constructor
    · intro h
      rcases eq_map_int_or items with ⟨ns, rfl⟩ | hother
      · exact Or.inl ⟨ns, rfl⟩
      · exact Or.inr ⟨h, hother⟩
    · rintro (⟨ns, heq⟩ | h)
      · cases heq
        intro x hx
        obtain ⟨n, -, rfl⟩ := List.mem_map.mp hx
        trivial
      · exact h.1
  | dict entries =>
    rw [hiter _ rfl]
    constructor
    · intro h
      exact Or.inr fun entry hentry => h _ (List.mem_map_of_mem hentry)
    · rintro (⟨ns, heq⟩ | h) x hx
      · cases heq
      · obtain ⟨entry, hentry, rfl⟩ := List.mem_map.mp hx
        exact h entry hentry
  | str s =>
    rw [hiter _ rfl]
    constructor
    · intro h
      exact Or.inr fun c hc => h _ (List.mem_map_of_mem hc)
    · rintro (⟨ns, heq⟩ | h) x hx
      · cases heq
      · obtain ⟨c, hc, rfl⟩ := List.mem_map.mp hx
        exact h c hc
  | null | bool b | int n | float bits =>
    constructor
    · rintro ⟨ns, h⟩
      cases h
    · rintro (⟨ns, h⟩ | h) <;> cases h

/-- What `_load` accepts is a list of ids, or coercible. -/
theorem idsOf_ok_iff {content : Bytes} :
    (∃ ids, idsOf limits content = .ok ids) ↔
      ValidIds limits content ∨ CoercibleIds limits content := by
  constructor
  · rintro ⟨ids, h⟩
    unfold idsOf at h
    obtain ⟨text, htext, h⟩ := bind_eq_ok.mp h
    obtain ⟨v, hv, h⟩ := bind_eq_ok.mp h
    obtain ⟨items, hitems, h⟩ := bind_eq_ok.mp h
    obtain ⟨ns, hns, -⟩ := bind_eq_ok.mp h
    have hok : ∃ ns, (v.iter >>= fun items => items.mapM (Json.toInt limits)) = .ok ns :=
      ⟨ns, bind_eq_ok.mpr ⟨items, hitems, hns⟩⟩
    rcases iter_mapM_ok_iff.mp hok with ⟨ns', rfl⟩ | hcoercible
    · exact Or.inl ⟨text, ns', htext, hv⟩
    · exact Or.inr ⟨text, v, htext, hv, hcoercible⟩
  · rintro (h | ⟨text, v, htext, hv, hcoercible⟩)
    · exact h.idsOf
    · obtain ⟨ns, h⟩ := iter_mapM_ok_iff.mpr (Or.inr hcoercible)
      obtain ⟨items, hitems, hns⟩ := bind_eq_ok.mp h
      refine ⟨ns.toFinset, ?_⟩
      unfold idsOf
      exact bind_eq_ok.mpr ⟨text, htext, bind_eq_ok.mpr ⟨v, hv,
        bind_eq_ok.mpr ⟨items, hitems, bind_eq_ok.mpr ⟨ns, hns, rfl⟩⟩⟩⟩

/-- The two cases exclude each other. -/
theorem CoercibleIds.not_valid {content : Bytes} (h : CoercibleIds limits content) :
    ¬ ValidIds limits content := by
  rintro ⟨text', ns, htext', hv'⟩
  rcases h with ⟨text, v, htext, hv, hcoercible⟩
  rw [htext] at htext'
  cases htext'
  rw [hv] at hv'
  cases hv'
  obtain ⟨x, hx, hne⟩ := hcoercible.2
  obtain ⟨n, -, rfl⟩ := List.mem_map.mp hx
  exact hne n rfl

end Accepts

/-! ## Steps -/

section Steps

variable {limits : Limits} {path : String} {fs : Fs}

/-- The file is not coercible, and if there is none, `tempfile` cannot make
one. -/
def SafeFile (limits : Limits) (path : String) (fs : Fs) : Prop :=
  (∀ content, fs.read path = some content → ¬ CoercibleIds limits content) ∧
    (fs.read path = none → ∀ r, path ≠ tempName r)

/-- The file holds the old ids and the new one. -/
def Extended (limits : Limits) (path : String) (cellId : Value) (fs fs' : Fs) : Prop :=
  ∃ (ids : Finset Int) (n : Int) (content : Bytes),
    loadIds limits (fs.read path) = .ok ids ∧ intOf limits cellId = .ok n ∧
      fs'.read path = some content ∧ ValidIds limits content ∧
      idsOf limits content = .ok (insert n ids)

/-- A name that was free is not the name of a safe file. -/
theorem SafeFile.ne_temp (h : SafeFile limits path fs) {r : RandomName}
    (hfresh : fs.entries (tempName r) = none) : path ≠ tempName r := by
  intro heq
  refine h.2 ?_ r heq
  unfold Fs.read
  rw [heq, hfresh]
  rfl

theorem SafeFile.of_read {fs' : Fs} (h : SafeFile limits path fs)
    (hread : fs'.read path = fs.read path) : SafeFile limits path fs' := by
  unfold SafeFile
  rw [hread]
  exact h

/-- What a call leaves, seen through the path: it is as before, or extended. -/
theorem Effect.read {cellId : Value} {fs' : Fs} (h : Effect limits path cellId fs fs')
    (hsafe : SafeFile limits path fs) :
    fs'.read path = fs.read path ∨ Extended limits path cellId fs fs' := by
  rcases h with rfl | ⟨r, hfresh, habandoned | hcommitted⟩
  · exact Or.inl rfl
  · exact Or.inl (habandoned.read (hsafe.ne_temp hfresh))
  · exact Or.inr hcommitted.read

variable (a : Attempt)

theorem Attempt.outcome :
    Outcome limits path a.cellId fs (a.ending limits path fs)
      (record limits path a.cellId (a.world fs)).2.state :=
  record_spec a.cellId ⟨fs, a.candidates⟩ (a.world fs) rfl

/-- What one call does to a safe file. -/
theorem Attempt.step (hsafe : SafeFile limits path fs) :
    ((a.leaves limits path fs).read path = fs.read path ∨
      Extended limits path a.cellId fs (a.leaves limits path fs)) ∧
    (a.ending limits path fs = .returned () →
      Extended limits path a.cellId fs (a.leaves limits path fs)) := by
  have h : Outcome limits path a.cellId fs (a.ending limits path fs)
      (record limits path a.cellId (a.world fs)).2.state := a.outcome
  refine ⟨h.1.read hsafe, fun heq => ?_⟩
  obtain ⟨r, -, hcommitted⟩ := h.2 heq
  exact hcommitted.read

/-- A safe file stays safe. -/
theorem Attempt.leaves_safe (hsafe : SafeFile limits path fs) :
    SafeFile limits path (a.leaves limits path fs) := by
  rcases (a.step hsafe).1 with hread | ⟨ids, n, content, -, -, hread, hvalid, -⟩
  · exact hsafe.of_read hread
  · constructor
    · intro content' hcontent' hcoercible
      rw [hread] at hcontent'
      cases hcontent'
      exact hcoercible.not_valid hvalid
    · intro hnone
      rw [hread] at hnone
      cases hnone

theorem after_safe (attempts : List Attempt) (hsafe : SafeFile limits path fs) :
    SafeFile limits path (Attempt.after limits path attempts fs) := by
  induction attempts generalizing fs with
  | nil => exact hsafe
  | cons a attempts ih => exact ih (a.leaves_safe hsafe)

/-- A well-formed file can be loaded. -/
theorem WellFormed.loads (h : WellFormed limits path fs) :
    ∃ ids, loadIds limits (fs.read path) = .ok ids := by
  cases hread : fs.read path with
  | none => exact ⟨∅, rfl⟩
  | some content => exact (h content hread).idsOf

/-- What a call does to the ids of a well-formed file. -/
theorem Attempt.step_ids (hsafe : SafeFile limits path fs) {ids : Finset Int}
    (hids : loadIds limits (fs.read path) = .ok ids) :
    (loadIds limits ((a.leaves limits path fs).read path) = .ok ids ∨
      ∃ n, intOf limits a.cellId = .ok n ∧
        loadIds limits ((a.leaves limits path fs).read path) = .ok (insert n ids)) ∧
    (a.ending limits path fs = .returned () → ∃ n, intOf limits a.cellId = .ok n ∧
      loadIds limits ((a.leaves limits path fs).read path) = .ok (insert n ids)) := by
  have hextended : Extended limits path a.cellId fs (a.leaves limits path fs) →
      ∃ n, intOf limits a.cellId = .ok n ∧
        loadIds limits ((a.leaves limits path fs).read path) = .ok (insert n ids) := by
    rintro ⟨ids', n, content, hids', hn, hread, -, hcontent⟩
    rw [hids] at hids'
    cases hids'
    refine ⟨n, hn, ?_⟩
    rw [hread]
    exact hcontent
  have h := a.step hsafe
  constructor
  · rcases h.1 with hread | hext
    · left
      rw [hread]
      exact hids
    · exact Or.inr (hextended hext)
  · intro heq
    exact hextended (h.2 heq)

/-- A call keeps the file well-formed. -/
theorem Attempt.leaves_wellFormed (hsafe : SafeFile limits path fs)
    (h : WellFormed limits path fs) : WellFormed limits path (a.leaves limits path fs) := by
  intro content hcontent
  rcases (a.step hsafe).1 with hread | ⟨ids, n, content', -, -, hread, hvalid, -⟩
  · rw [hread] at hcontent
    exact h content hcontent
  · rw [hread] at hcontent
    cases hcontent
    exact hvalid

end Steps

/-! ## The promises are kept -/

section Kept

variable {limits : Limits} {path : String} {fs : Fs}

theorem recordsAtomically_of_safe (hsafe : SafeFile limits path fs) :
    RecordsAtomically limits path fs := by
  intro hwf
  obtain ⟨ids, hids⟩ := hwf.loads
  refine ⟨ids, loads_iff.mpr hids, ?_⟩
  intro a
  have h := a.step_ids hsafe hids
  constructor
  · rcases h.1 with hsame | ⟨n, hn, hnew⟩
    · exact Or.inl (loads_iff.mpr hsame)
    · exact Or.inr ⟨n, hn, loads_iff.mpr hnew⟩
  · intro heq
    obtain ⟨n, hn, hnew⟩ := h.2 heq
    exact ⟨n, hn, loads_iff.mpr hnew⟩

theorem load_enduring : (load limits path).Enduring := by
  refine (enduring_perform _).tryExcept ?_
  intro e
  split
  · exact enduring_pure _
  · exact enduring_raise e

theorem call_enduring {α : Type} (x : Except Error α) :
    (Proc.call x : Proc Error Disk α).Enduring := enduring_perform _

theorem isSealed_enduring (cellId : Value) : (isSealed limits path cellId).Enduring :=
  (call_enduring _).bind fun _ => load_enduring.bind fun _ => enduring_pure _

theorem writeAndReplace_enduring (fd : Nat) (tmp : String) (data : Bytes) :
    (writeAndReplace path fd tmp data).Enduring :=
  (call_enduring _).bind fun _ => (enduring_perform _).bind fun _ =>
    (enduring_perform _).bind fun _ => (enduring_perform _).bind fun _ =>
      (call_enduring _).bind fun _ => enduring_perform _

theorem cleanUp_enduring (tmp : String) (e : Error) : (cleanUp tmp e).Enduring := by
  refine Proc.Enduring.bind ?_ fun _ => enduring_raise e
  refine (enduring_perform _).tryExcept ?_
  intro e'
  split
  · exact enduring_pure _
  · exact enduring_raise e'

theorem record_enduring (cellId : Value) : (record limits path cellId).Enduring :=
  load_enduring.bind fun _ => (call_enduring _).bind fun _ => (call_enduring _).bind fun _ =>
    (enduring_perform _).bind fun _ =>
      (writeAndReplace_enduring _ _ _).tryExcept fun _ => cleanUp_enduring _ _

/-- What neither returns nor is killed raises. -/
theorem raised_of_ne {α : Type} {ending : Ending Error α} (hret : ∀ a, ending ≠ .returned a)
    (hkill : ending ≠ .killed) : ∃ e, ending = .raised e := by
  cases ending with
  | returned a => exact absurd rfl (hret a)
  | raised e => exact ⟨e, rfl⟩
  | killed => exact absurd rfl hkill

theorem failsClosed_of_safe (hsafe : SafeFile limits path fs) : FailsClosed limits path fs := by
  intro hwf a
  have herror : ∀ ids, loadIds limits (fs.read path) ≠ .ok ids := by
    intro ids hids
    refine hwf fun content hcontent => ?_
    rw [hcontent] at hids
    rcases idsOf_ok_iff.mp ⟨ids, hids⟩ with hvalid | hcoercible
    · exact hvalid
    · exact absurd hcoercible (hsafe.1 content hcontent)
  have hnot : ¬ Extended limits path a.cellId fs (a.leaves limits path fs) := by
    rintro ⟨ids, n, content, hids, -⟩
    exact herror ids hids
  have hstep := a.step hsafe
  have hsealed : (isSealed limits path a.cellId (a.world fs)).2.state = ⟨fs, a.candidates⟩ ∧
      ∀ b, (isSealed limits path a.cellId (a.world fs)).1 = .returned b →
        ∃ n ids, intOf limits a.cellId = .ok n ∧ loadIds limits (fs.read path) = .ok ids ∧
          b = decide (n ∈ ids) :=
    isSealed_spec a.cellId ⟨fs, a.candidates⟩ (a.world fs) rfl
  have hrecord : a.ending limits path fs ≠ .returned () := fun heq => hnot (hstep.2 heq)
  have hanswer : ∀ b, (isSealed limits path a.cellId (a.world fs)).1 ≠ .returned b := by
    intro b heq
    obtain ⟨n, ids, -, hids, -⟩ := hsealed.2 b heq
    exact herror ids hids
  refine ⟨hstep.1.resolve_right hnot, congrArg Disk.fs hsealed.1, hrecord, hanswer, ?_⟩
  intro hfaults
  exact ⟨raised_of_ne (fun _ => hrecord) (record_enduring a.cellId (a.world fs) hfaults).1,
    raised_of_ne hanswer (isSealed_enduring a.cellId (a.world fs) hfaults).1⟩

/-- The ids only grow, and the ids whose call returned are among them. -/
theorem after_ids (hsafe : SafeFile limits path fs) (attempts : List Attempt) {ids : Finset Int}
    (hids : loadIds limits (fs.read path) = .ok ids) :
    ∃ ids', loadIds limits ((Attempt.after limits path attempts fs).read path) = .ok ids' ∧
      ids ⊆ ids' ∧ ∀ n, Attempt.Recorded limits path n attempts fs → n ∈ ids' := by
  induction attempts generalizing fs ids with
  | nil => exact ⟨ids, hids, Finset.Subset.refl ids, fun n h => h.elim⟩
  | cons a attempts ih =>
    have hstep := a.step_ids hsafe hids
    have hsafe' := a.leaves_safe hsafe
    have hleft : ∃ mid, loadIds limits ((a.leaves limits path fs).read path) = .ok mid ∧
        ids ⊆ mid := by
      rcases hstep.1 with hsame | ⟨n, -, hnew⟩
      · exact ⟨ids, hsame, Finset.Subset.refl ids⟩
      · exact ⟨_, hnew, Finset.subset_insert n ids⟩
    obtain ⟨mid, hmid, hsub⟩ := hleft
    obtain ⟨ids', hids', hsub', hrecorded⟩ := ih hsafe' hmid
    refine ⟨ids', hids', hsub.trans hsub', ?_⟩
    rintro n (⟨heq, hn⟩ | hlater)
    · obtain ⟨n', hn', hnew⟩ := hstep.2 heq
      rw [hn] at hn'
      cases hn'
      rw [hmid] at hnew
      cases hnew
      exact hsub' (Finset.mem_insert_self n ids)
    · exact hrecorded n hlater

theorem grows_of_safe (hsafe : SafeFile limits path fs) : Grows limits path fs := by
  intro hwf attempts
  obtain ⟨ids, hids⟩ := hwf.loads
  obtain ⟨ids', hids', hsub, hrecorded⟩ := after_ids hsafe attempts hids
  exact ⟨ids, ids', loads_iff.mpr hids, loads_iff.mpr hids', hsub, hrecorded⟩

theorem ignoresOthers (limits : Limits) (path : String) (fs : Fs) :
    IgnoresOthers limits path fs := by
  intro fs' hread ids
  rw [loads_iff, loads_iff, hread]

end Kept

/-! ## The promises are broken otherwise -/

section Broken

variable {limits : Limits} {path : String} {fs : Fs}

/-- A coercible file is answered from. -/
theorem not_failsClosed {content : Bytes} (hread : fs.read path = some content)
    (h : CoercibleIds limits content) : ¬ FailsClosed limits path fs := by
  intro hcloses
  obtain ⟨ids, hids⟩ := idsOf_ok_iff.mpr (Or.inr h)
  have hloads : loadIds limits (fs.read path) = .ok ids := by
    rw [hread]
    exact hids
  have hclosed := hcloses (fun hwf => h.not_valid (hwf content hread)) ⟨.int 0, [], []⟩
  have hrun : isSealed limits path (.int 0) ⟨[], ⟨fs, []⟩⟩ =
      (.returned (decide ((0 : Int) ∈ ids)), ⟨[], ⟨fs, []⟩⟩) := isSealed_run rfl hloads
  exact hclosed.2.2.2.1 _ (congrArg Prod.fst hrun)

/-- Some list can always be written. -/
theorem payload_singleton (limits : Limits) : ∃ data, payload limits (insert 1 ∅) = .ok data := by
  have hsort : (insert (1 : Int) ∅ : Finset Int).sort (· ≤ ·) = [1] := Finset.sort_singleton _ _
  have hfits : Doc.fits limits (.list [.int 1]) = true := by
    have hallows : limits.Allows 1 := by
      have hvalid := limits.maxStrDigits_valid
      unfold Limits.Allows
      omega
    show (decide (limits.Allows 1) && true) = true
    rw [decide_eq_true hallows]
    rfl
  refine ⟨Json.encodeUtf8 (Doc.print (.list [.int 1])), ?_⟩
  unfold payload
  rw [hsort]
  show Except.map _ (Doc.dumps limits (.list [.int 1])) = _
  unfold Doc.dumps
  rw [if_pos hfits]
  rfl

/-- An empty file is not a document. -/
theorem idsOf_nil (limits : Limits) : ∃ e, idsOf limits [] = .error e := by
  have htext : Json.decodeUtf8 [] = .ok [] := Json.decodeUtf8_encodeUtf8 []
  obtain ⟨msg, he⟩ := Json.loads_nil limits
  refine ⟨Json.decodeError msg, ?_⟩
  unfold idsOf
  rw [htext]
  show (Json.loads limits [] >>= _) = _
  rw [he]
  rfl

/-- A process that is killed behind `mkstemp` leaves an empty file. -/
theorem killed_at_mkstemp {r : RandomName} (hfresh : fs.entries (tempName r) = none)
    (hread : fs.read path = none) :
    (Attempt.mk (.int 1) [r] [.pass, .pass, .pass, .kill .everything]).leaves limits path fs =
      fs.create (tempName r) := by
  obtain ⟨data, hdata⟩ := payload_singleton limits
  let faults : List (Fault Error) := [.pass, .pass, .kill .everything]
  have hload : load limits path ⟨.pass :: faults, ⟨fs, [r]⟩⟩ =
      (.returned ∅, ⟨faults, ⟨fs, [r]⟩⟩) := by
    have hraised : Proc.perform (readIds limits path) ⟨.pass :: faults, ⟨fs, [r]⟩⟩ =
        (.raised (fileNotFound path), ⟨faults, ⟨fs, [r]⟩⟩) := by
      show (readIds limits path).pass faults ⟨fs, [r]⟩ = _
      unfold Step.pass readIds
      dsimp only
      rw [hread]
    unfold load
    rw [Proc.tryExcept_raised hraised]
    rfl
  have hcall : Proc.call (payload limits (insert 1 ∅))
      ⟨[.pass, .kill .everything], (⟨fs, [r]⟩ : Disk)⟩ =
      (.returned data, ⟨[.kill .everything], ⟨fs, [r]⟩⟩) := by
    rw [hdata]
    rfl
  have hmkstemp : Proc.perform mkstemp ⟨[.kill .everything], (⟨fs, [r]⟩ : Disk)⟩ =
      (.killed, ⟨[], ⟨fs.create (tempName r), []⟩⟩) := by
    have hrun : mkstemp.run (⟨fs, [r]⟩ : Disk) =
        .ok ((fs.files.length, tempName r), ⟨fs.create (tempName r), []⟩) := by
      unfold mkstemp
      dsimp only [List.headD_cons]
      rw [hfresh]
      rfl
    show (Ending.killed, (⟨[], mkstemp.after ⟨fs, [r]⟩⟩ : World Error Disk)) = _
    unfold Step.after
    rw [hrun]
  show (record limits path (.int 1) ⟨.pass :: faults, ⟨fs, [r]⟩⟩).2.state.fs = _
  unfold record
  rw [Proc.bind_returned hload]
  show ((Proc.call (payload limits (insert 1 ∅)) >>= _)
    ⟨[.pass, .kill .everything], (⟨fs, [r]⟩ : Disk)⟩).2.state.fs = _
  rw [Proc.bind_returned hcall, Proc.bind_killed hmkstemp]

/-- Where the store's own name is one of `tempfile`'s, the empty file is in
place. -/
theorem not_recordsAtomically {r : RandomName} (hread : fs.read (tempName r) = none) :
    ¬ RecordsAtomically limits (tempName r) fs := by
  intro hrecords
  have hfresh : fs.entries (tempName r) = none := by
    cases hentry : fs.entries (tempName r) with
    | none => rfl
    | some file =>
      have hsome := fs.read_isSome hentry
      rw [hread] at hsome
      cases hsome
  obtain ⟨ids, -, hall⟩ := hrecords fun content hcontent => by
    rw [hread] at hcontent
    cases hcontent
  obtain ⟨e, he⟩ := idsOf_nil limits
  have hempty : (fs.create (tempName r)).read (tempName r) = some [] := by
    have hlinked : Linked fs (tempName r) ⟨[], 0, Nat.le_refl 0⟩ (fs.create (tempName r)) :=
      fs.create_extends _
    exact Fs.Extends.read_new hlinked hlinked.entries
  have hloads : ∀ ids', ¬ Loads limits (tempName r) (fs.create (tempName r)) ids' := by
    intro ids' hids'
    rw [loads_iff, hempty] at hids'
    have hids' : idsOf limits [] = .ok ids' := hids'
    rw [he] at hids'
    cases hids'
  have h := (hall ⟨.int 1, [r], [.pass, .pass, .pass, .kill .everything]⟩).1
  rw [killed_at_mkstemp hfresh hread] at h
  rcases h with h | ⟨n, -, h⟩
  · exact hloads _ h
  · exact hloads _ h

end Broken

/-- The store keeps its promises for exactly the directories in which the file is
safe. -/
theorem promises_iff (limits : Limits) (path : String) (fs : Fs) :
    Promises limits path fs ↔ SafeFile limits path fs := by
  constructor
  · intro h
    have h := h []
    constructor
    · intro content hread hcoercible
      exact not_failsClosed hread hcoercible h.2.1
    · intro hread r heq
      subst heq
      exact not_recordsAtomically hread h.1
  · intro hsafe attempts
    have hsafe := after_safe attempts hsafe
    exact ⟨recordsAtomically_of_safe hsafe, failsClosed_of_safe hsafe, grows_of_safe hsafe,
      ignoresOthers limits path _⟩

/-- A directory with one file, which is on disk. -/
def oneFile (path : String) (content : Bytes) : Fs where
  files := [⟨content, content.length, Nat.le_refl _⟩]
  persisted := Function.update (fun _ => none) path (some 0)
  pending := []
  persisted_allocated name file h := by
    by_cases hname : name = path
    · rw [hname, Function.update_self] at h
      cases h
      exact Nat.zero_lt_one
    · rw [Function.update_of_ne hname] at h
      cases h
  pending_allocated := nofun

/-- The file `{}` is no list of ids, and every cell is unsealed. -/
theorem empty_object_unsealed :
    ¬ WellFormed Limits.default "sealed.json" (oneFile "sealed.json" [0x7b, 0x7d]) ∧
    (isSealed Limits.default "sealed.json" (.int 5)
      ⟨[], ⟨oneFile "sealed.json" [0x7b, 0x7d], []⟩⟩).1 = .returned false ∧
    ¬ Promises Limits.default "sealed.json" (oneFile "sealed.json" [0x7b, 0x7d]) := by
  have hread : (oneFile "sealed.json" [0x7b, 0x7d]).read "sealed.json" = some [0x7b, 0x7d] := by
    decide
  have hloads : loadIds Limits.default
      ((oneFile "sealed.json" [0x7b, 0x7d]).read "sealed.json") = .ok ∅ := by
    rw [hread]
    decide
  have hcoercible : CoercibleIds Limits.default [0x7b, 0x7d] :=
    ⟨['{', '}'], .dict [], rfl, rfl, nofun⟩
  refine ⟨fun hwf => hcoercible.not_valid (hwf _ hread), ?_, fun h => ?_⟩
  · rw [isSealed_run rfl hloads]
    rfl
  · exact not_failsClosed hread hcoercible (h []).2.1

end Trelyan.Seal
