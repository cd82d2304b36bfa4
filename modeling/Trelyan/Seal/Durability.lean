import Trelyan.Seal.Once

/-!
# Durability of the JSON store

After a crash of the machine the file may be an older one.  `record` syncs the
data of the new file, and it does not sync the directory, so the crash may lose
the renaming.  What is recovered then is what a crash before the call would
have left.

So an id is durable after `record` returns in exactly the case in which it would
have survived a crash before the call, and a cell that is sealed now is not
durable (`durable_iff`).
-/

namespace Trelyan.Seal

open Py Faults

/-- What can happen to the directory: another call of `record`, a sync of the
directory by someone else, a crash of the machine. -/
inductive Event where
  | record (cellId : Value) (candidates : List RandomName) (faults : List (Fault Error))
  | syncEntries
  | crash (loss : Loss)

def Event.apply (limits : Limits) (path : String) : Event → Fs → Fs
  | record cellId candidates faults, fs =>
    (Seal.record limits path cellId ⟨faults, ⟨fs, candidates⟩⟩).2.state.fs
  | syncEntries, fs => fs.syncEntries
  | crash loss, fs => fs.crash loss

def applyEvents (limits : Limits) (path : String) (events : List Event) (fs : Fs) : Fs :=
  events.foldl (fun fs event => event.apply limits path fs) fs

/-- Whatever a crash takes now, the recovered file has the id. -/
def SurvivesCrash (limits : Limits) (path : String) (n : Int) (fs : Fs) : Prop :=
  ∀ loss, LoadsId limits path n (fs.crash loss)

/-- Whatever happens from now on, and whatever a crash takes then, the recovered
file has the id. -/
def Durable (limits : Limits) (path : String) (n : Int) (fs : Fs) : Prop :=
  ∀ events, SurvivesCrash limits path n (applyEvents limits path events fs)

section Survives

variable {limits : Limits} {path : String} {n : Int} {fs fs' : Fs}

theorem SurvivesCrash.loadsId (h : SurvivesCrash limits path n fs) :
    LoadsId limits path n fs := by
  obtain ⟨ids, hids, hn⟩ := h fs.keepAll
  rw [fs.crash_keepAll_read] at hids
  exact ⟨ids, hids, hn⟩

/-- Changes that avoid the path do not count. -/
theorem crash_read_avoids {f : File} {changes : List Change} (hext : fs.Extends f changes fs')
    (loss : Loss) (havoid : ∀ change ∈ survivors changes (loss.stays.drop fs.pending.length),
      change.Avoids path) : (fs'.crash loss).read path = (fs.crash loss).read path := by
  unfold Fs.read
  rw [hext.crash_entries, applyAll_avoids havoid]
  cases hfile : (fs.crash loss).entries path with
  | none => rfl
  | some file =>
    have hlt : file < fs.files.length := by
      have := (fs.crash loss).entries_lt hfile
      rwa [Fs.crash, List.length_mapIdx] at this
    exact hext.crash_contents_old loss hlt

theorem Abandoned.survives {r : RandomName} (h : Abandoned r fs fs') (hpath : path ≠ tempName r)
    (hfs : SurvivesCrash limits path n fs) : SurvivesCrash limits path n fs' := by
  rcases h with ⟨f, changes, hext, honly⟩
  intro loss
  refine LoadsId.of_read (crash_read_avoids hext loss ?_) (hfs loss)
  intro change hmem
  exact honly change (survivors_subset _ _ change hmem) path hpath

/-- When the renaming stays, the new file is there with the ids of the old one.
When it is lost, the old file is. -/
theorem Committed.survives {cellId : Value} {r : RandomName}
    (h : Committed limits path cellId r fs fs') (hpath : path ≠ tempName r)
    (hfs : SurvivesCrash limits path n fs) : SurvivesCrash limits path n fs' := by
  rcases h with ⟨f, ids, m, hext, hids, -, hdata, hsync⟩
  intro loss
  have hlink : (Change.link (tempName r) fs.files.length).Avoids path := avoids_link _ hpath
  have hnew : (fs'.crash loss).entries path = some fs.files.length →
      LoadsId limits path n (fs'.crash loss) := by
    intro hentry
    obtain ⟨ids', hids', hn⟩ := hfs.loadsId
    rw [hids] at hids'
    cases hids'
    refine ⟨insert m ids, ?_, Finset.mem_insert_of_mem hn⟩
    unfold Fs.read
    rw [hentry]
    show loadIds limits ((fs'.crash loss).contents fs.files.length) = _
    rw [hext.crash_contents_new loss hsync]
    exact (payload_loads hdata).2
  have hold : (∀ change ∈ survivors
      [.link (tempName r) fs.files.length, .rename (tempName r) path fs.files.length]
      (loss.stays.drop fs.pending.length), change.Avoids path) →
      LoadsId limits path n (fs'.crash loss) := by
    intro havoid
    exact LoadsId.of_read (crash_read_avoids hext loss havoid) (hfs loss)
  have hentries := hext.crash_entries loss
  -- Which of the two changes stay.
  rcases hstays : loss.stays.drop fs.pending.length with _ | ⟨_ | _, _ | ⟨_ | _, stays⟩⟩ <;>
    rw [hstays] at hold hentries
  · exact hold nofun
  · exact hold nofun
  · exact hold nofun
  · exact hnew ((congrFun hentries path).trans (Function.update_self ..))
  · exact hold fun change hmem => List.mem_singleton.mp hmem ▸ hlink
  · exact hold fun change hmem => List.mem_singleton.mp hmem ▸ hlink
  · exact hnew ((congrFun hentries path).trans (Function.update_self ..))

/-- No call of `record` loses an id that would survive. -/
theorem Effect.survives {cellId : Value} (h : Effect limits path cellId fs fs')
    (hfs : SurvivesCrash limits path n fs) : SurvivesCrash limits path n fs' := by
  rcases h with rfl | ⟨r, hfresh, habandoned | hcommitted⟩
  · exact hfs
  · exact habandoned.survives (hfs.loadsId.ne_temp hfresh) hfs
  · exact hcommitted.survives (hfs.loadsId.ne_temp hfresh) hfs

/-- No event loses one. -/
theorem Event.survives (event : Event) (hfs : SurvivesCrash limits path n fs) :
    SurvivesCrash limits path n (event.apply limits path fs) := by
  cases event with
  | record cellId candidates faults =>
    exact (record_spec cellId ⟨fs, candidates⟩ ⟨faults, ⟨fs, candidates⟩⟩ rfl).1.survives hfs
  | syncEntries =>
    intro loss
    exact LoadsId.of_read (fs.syncEntries_crash_read loss path) (hfs _)
  | crash loss =>
    intro loss'
    exact LoadsId.of_read (fs.crash_crash_read loss loss' path) (hfs loss)

theorem SurvivesCrash.durable (hfs : SurvivesCrash limits path n fs) :
    Durable limits path n fs := by
  intro events
  induction events generalizing fs with
  | nil => exact hfs
  | cons event events ih => exact ih (event.survives hfs)

/-- What a crash leaves before the renaming, it may leave after it. -/
theorem Committed.survives_before {cellId : Value} {r : RandomName}
    (h : Committed limits path cellId r fs fs') (hfs' : SurvivesCrash limits path n fs') :
    SurvivesCrash limits path n fs := by
  rcases h with ⟨f, ids, m, hext, -⟩
  intro loss
  exact LoadsId.of_read (hext.crash_read_old loss path).symm (hfs' _)

end Survives

/-! ## What a call makes durable -/

section Calls

variable {limits : Limits} {path : String}

/-- When `record` has returned, the id is durable if and only if it would have
survived a crash before the call. -/
theorem record_durable_iff {cellId : Value} {w : World Error Disk} {n : Int}
    (hreturned : (record limits path cellId w).1 = .returned ()) :
    Durable limits path n (record limits path cellId w).2.state.fs ↔
      SurvivesCrash limits path n w.state.fs := by
  have h := @record_spec limits path cellId w.state w rfl
  constructor
  · intro hdurable
    obtain ⟨r, -, hcommitted⟩ := h.2 hreturned
    exact hcommitted.survives_before (hdurable [])
  · intro hfs
    exact (h.1.survives hfs).durable

/-- A call that returns has put a new file in place. -/
theorem SealCall.committed (call : SealCall) (d : Disk) :
    Triple (· = d) (call.run limits (jsonFileSealStore limits path)) fun ending d' =>
      ∀ result, ending = .returned result →
        ∃ r, Committed limits path call.args.cellId r d.fs d'.fs := by
  rw [call.run_eq]
  refine triple_bind (fun _ d' => d' = d) ?_ ?_
  · refine (call.verified_spec (jsonFile_lawful limits path) d).conseq (fun _ h => h) ?_
    intro ending d' h
    cases ending with
    | returned out => exact h.1
    | raised e => exact nofun
    | killed => exact nofun
  intro out
  refine triple_bind (fun _ d' => ∃ r, Committed limits path call.args.cellId r d.fs d'.fs) ?_ ?_
  · refine (record_spec call.args.cellId d).conseq (fun _ h => h) ?_
    intro ending d' h
    cases ending with
    | returned u =>
      obtain ⟨r, -, hcommitted⟩ := h.2 rfl
      exact ⟨r, hcommitted⟩
    | raised e => exact nofun
    | killed => exact nofun
  · intro u
    refine triple_bind (fun _ d' => ∃ r, Committed limits path call.args.cellId r d.fs d'.fs) ?_ ?_
    · exact triple_call (fun d' n hd _ => hd) (fun d' e _ => nofun) (fun d' _ => nofun)
    · intro n
      exact triple_pure fun d' hd _ _ => hd

end Calls

/-- What `record` makes durable: nothing.  When it has returned, the id is
durable if and only if it would have survived a crash before the call.  A call
that seals a cell records one that was not there, and that is never durable. -/
theorem durable_iff (limits : Limits) (path : String) :
    (∀ (cellId : Value) (w : World Error Disk) (n : Int),
      (record limits path cellId w).1 = .returned () → intOf limits cellId = .ok n →
        (Durable limits path n (record limits path cellId w).2.state.fs ↔
          SurvivesCrash limits path n w.state.fs)) ∧
    ∀ (call : SealCall) (w : World Error Disk) (result : SealResult),
      (call.run limits (jsonFileSealStore limits path) w).1 = .returned result →
        ¬ Durable limits path result.cellId
          (call.run limits (jsonFileSealStore limits path) w).2.state.fs := by
  constructor
  · intro cellId w n hreturned _
    exact record_durable_iff hreturned
  · intro call w result hreturned hdurable
    obtain ⟨r, hcommitted⟩ := call.committed w.state w rfl result hreturned
    have hbefore := (hcommitted.survives_before (hdurable [])).loadsId
    exact ((call.run_spec (jsonFile_lawful limits path) w.state w rfl).2 result hreturned).2.2.1
      hbefore

/-! ## An empty directory -/

/-- A directory without files. -/
def emptyDirectory : Fs where
  files := []
  persisted _ := none
  pending := []
  persisted_allocated := nofun
  pending_allocated := nofun

/-- The file `[5]`. -/
theorem payload_five : payload Limits.default (insert 5 ∅) = .ok [0x5b, 0x35, 0x5d] := by
  have hsort : (insert (5 : Int) ∅ : Finset Int).sort (· ≤ ·) = [5] := Finset.sort_singleton _ _
  unfold payload
  rw [hsort]
  decide

theorem record_five : ∃ d', record Limits.default "sealed.json" (.int 5)
    ⟨[], ⟨emptyDirectory, []⟩⟩ = (.returned (), ⟨[], d'⟩) :=
  record_run rfl rfl payload_five rfl

/-- The call returns, and a crash leaves a directory in which the cell is not
sealed. -/
theorem seal_lost : ∃ d' loss,
    record Limits.default "sealed.json" (.int 5) ⟨[], ⟨emptyDirectory, []⟩⟩ =
      (.returned (), ⟨[], d'⟩) ∧
    (isSealed Limits.default "sealed.json" (.int 5) ⟨[], ⟨d'.fs.crash loss, []⟩⟩).1 =
      .returned false := by
  obtain ⟨d', hrun⟩ := record_five
  refine ⟨d', ⟨[], fun _ => 0⟩, hrun, ?_⟩
  have hcommitted := (@record_spec Limits.default "sealed.json" (.int 5)
    ⟨emptyDirectory, []⟩ ⟨[], ⟨emptyDirectory, []⟩⟩ rfl).2
  rw [hrun] at hcommitted
  obtain ⟨r, -, f, ids, n, hext, -⟩ := hcommitted rfl
  have hread : (d'.fs.crash ⟨[], fun _ => 0⟩).read "sealed.json" = none :=
    hext.crash_read_old ⟨[], fun _ => 0⟩ "sealed.json"
  have hloads : loadIds Limits.default ((d'.fs.crash ⟨[], fun _ => 0⟩).read "sealed.json") =
      .ok ∅ := by
    rw [hread]
    rfl
  rw [isSealed_run rfl hloads]
  rfl

/-- The call returns, and the id is not durable. -/
theorem sample_durable : ∃ d',
    record Limits.default "sealed.json" (.int 5) ⟨[], ⟨emptyDirectory, []⟩⟩ =
      (.returned (), ⟨[], d'⟩) ∧ ¬ Durable Limits.default "sealed.json" 5 d'.fs := by
  obtain ⟨d', hrun⟩ := record_five
  have hiff := (durable_iff Limits.default "sealed.json").1 (.int 5) ⟨[], ⟨emptyDirectory, []⟩⟩ 5
    (by rw [hrun]) rfl
  rw [hrun] at hiff
  refine ⟨d', hrun, ?_⟩
  intro hdurable
  obtain ⟨ids, hids, hmem⟩ := hiff.mp hdurable ⟨[], fun _ => 0⟩
  cases hids
  cases hmem

end Trelyan.Seal
