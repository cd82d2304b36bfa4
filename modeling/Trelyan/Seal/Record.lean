import Trelyan.Seal.Store

/-!
# What `record` does

Whatever faults occur, `JsonFileSealStore.record` does nothing, or it leaves a
new file under a temporary name that was free, or it has put a new file under
the path, which holds the old ids and the new one and was synced before it was
renamed (`Effect`).  It returns only in the last case (`record_spec`).

The proof follows the steps of the body: until the replacement the new file has
its temporary name (`Linked`), and the handler removes that name.
-/

namespace Trelyan.Seal

open Py Faults

variable {limits : Limits} {path : String}

/-- There is one new file.  No entry but its temporary one has changed. -/
def Abandoned (r : RandomName) (fs fs' : Fs) : Prop :=
  ∃ (f : File) (changes : List Change), fs.Extends f changes fs' ∧
    ∀ change ∈ changes, ∀ name ≠ tempName r, change.Avoids name

/-- There is one new file under the path, with the old ids and the new one.  It
was synced before it was renamed. -/
def Committed (limits : Limits) (path : String) (cellId : Value) (r : RandomName) (fs fs' : Fs) :
    Prop :=
  ∃ (f : File) (ids : Finset Int) (n : Int),
    fs.Extends f
        [.link (tempName r) fs.files.length, .rename (tempName r) path fs.files.length] fs' ∧
      loadIds limits (fs.read path) = .ok ids ∧ intOf limits cellId = .ok n ∧
      payload limits (insert n ids) = .ok f.data ∧ f.durable = f.data.length

/-- The three things that a run of `record` can do.  The temporary name was
free. -/
def Effect (limits : Limits) (path : String) (cellId : Value) (fs fs' : Fs) : Prop :=
  fs' = fs ∨ ∃ r, fs.entries (tempName r) = none ∧
    (Abandoned r fs fs' ∨ Committed limits path cellId r fs fs')

section Record

variable {cellId : Value} {fs fs' fs'' : Fs} {r : RandomName} {f : File}

/-- The new file has its temporary name. -/
def Linked (fs : Fs) (tmp : String) (f : File) (fs' : Fs) : Prop :=
  fs.Extends f [.link tmp fs.files.length] fs'

theorem Linked.entries {tmp : String} (h : Linked fs tmp f fs') :
    fs'.entries tmp = some fs.files.length := by
  rw [h.entries_eq]
  exact Change.apply_target (.link tmp fs.files.length) fs.entries

theorem avoids_link {tmp name : String} (file : Nat) (h : name ≠ tmp) :
    (Change.link tmp file).Avoids name :=
  ⟨h, fun dst file' heq => by cases heq⟩

theorem avoids_unlink {tmp name : String} (h : name ≠ tmp) : (Change.unlink tmp).Avoids name :=
  ⟨h, fun dst file heq => by cases heq⟩

theorem avoids_rename {src dst name : String} (file : Nat) (hsrc : name ≠ src)
    (hdst : name ≠ dst) : (Change.rename src dst file).Avoids name :=
  ⟨hdst, fun dst' file' heq => by cases heq; exact hsrc rfl⟩

theorem Linked.abandoned (h : Linked fs (tempName r) f fs') : Abandoned r fs fs' := by
  refine ⟨f, _, h, ?_⟩
  intro change hmem name hname
  rw [List.mem_singleton.mp hmem]
  exact avoids_link _ hname

/-- Without its entry the file is abandoned, whatever the entry was. -/
theorem Abandoned.unlink (h : Abandoned r fs fs') (hrun : fs'.unlink (tempName r) = some fs'') :
    Abandoned r fs fs'' := by
  rcases h with ⟨f, changes, hext, honly⟩
  refine ⟨f, _, hext.unlink hrun, ?_⟩
  intro change hmem name hname
  rcases List.mem_append.mp hmem with hmem | hmem
  · exact honly change hmem name hname
  · rw [List.mem_singleton.mp hmem]
    exact avoids_unlink hname

/-- A new file that replaced itself is still a new file with one entry. -/
theorem Committed.abandoned (h : Committed limits (tempName r) cellId r fs fs') :
    Abandoned r fs fs' := by
  rcases h with ⟨f, ids, n, hext, -⟩
  refine ⟨f, _, hext, ?_⟩
  intro change hmem name hname
  rcases List.mem_cons.mp hmem with rfl | hmem
  · exact avoids_link _ hname
  · rw [List.mem_singleton.mp hmem]
    exact avoids_rename _ hname hname

/-- The file has no temporary name any more. -/
theorem Committed.entries_temp (h : Committed limits path cellId r fs fs')
    (hpath : tempName r ≠ path) : fs'.entries (tempName r) = none := by
  rcases h with ⟨f, ids, n, hext, -⟩
  rw [hext.entries_eq]
  exact (Function.update_of_ne hpath ..).trans (Function.update_self ..)

/-- What the body of the `try` leaves: the file under its temporary name, or in
place.  It returns only when the file is in place. -/
def Replaced (limits : Limits) (path : String) (cellId : Value) (r : RandomName) (fs : Fs) :
    Post Error Disk Unit := fun ending d' =>
  ((∃ f, Linked fs (tempName r) f d'.fs) ∨ Committed limits path cellId r fs d'.fs) ∧
    (ending = .returned () → Committed limits path cellId r fs d'.fs)

/-- A run that ends early, with the file under its temporary name. -/
theorem Replaced.early {ending : Ending Error Unit} {d' : Disk} (hend : ending ≠ .returned ())
    (h : ∃ f, Linked fs (tempName r) f d'.fs) :
    Replaced limits path cellId r fs ending d' :=
  ⟨Or.inl h, fun heq => absurd heq hend⟩

/-- A step before the replacement: it does not raise by itself, and the file
keeps its temporary name, also when the step is cut short. -/
theorem triple_linked {P R : Disk → Prop} {step : Step Error Disk Unit}
    {rest : Unit → Proc Error Disk Unit}
    (hrun : ∀ s, P s → ∃ s', step.run s = .ok ((), s') ∧ R s')
    (hcut : ∀ s progress, P s → ∃ f, Linked fs (tempName r) f (step.cut progress s).fs)
    (hrest : Triple R (rest ()) (Replaced limits path cellId r fs)) :
    Triple P (Proc.perform step >>= rest) (Replaced limits path cellId r fs) := by
  refine triple_bind (fun _ => R) ?_ fun _ => hrest
  refine triple_perform ?_ ?_ ?_
  · intro s a s' hs hok
    obtain ⟨s'', hok', hR⟩ := hrun s hs
    rw [hok'] at hok
    cases hok
    exact hR
  · intro s e hs herror
    obtain ⟨s', hok, -⟩ := hrun s hs
    rw [hok] at herror
    cases herror
  · intro s progress hs
    constructor
    · intro e _
      exact Replaced.early (by intro h; cases h) (hcut s progress hs)
    · exact Replaced.early (by intro h; cases h) (hcut s progress hs)

/-- `os.fdopen` and `f.close`, which do nothing to the file. -/
theorem triple_linked_call {P : Disk → Prop} {rest : Unit → Proc Error Disk Unit}
    (hP : ∀ s, P s → ∃ f, Linked fs (tempName r) f s.fs)
    (hrest : Triple P (rest ()) (Replaced limits path cellId r fs)) :
    Triple P (Proc.call (.ok ()) >>= rest) (Replaced limits path cellId r fs) := by
  refine triple_linked (fun s hs => ⟨s, rfl, hs⟩) ?_ hrest
  intro s progress hs
  cases progress <;> exact hP s hs

/-- The replacement takes place, or it does not. -/
theorem replaceFile_spec {ids : Finset Int} {n : Int} {data : Bytes}
    (hold : loadIds limits (fs.read path) = .ok ids) (hcell : intOf limits cellId = .ok n)
    (hdata : payload limits (insert n ids) = .ok data) :
    Triple (fun d' => ∃ f, Linked fs (tempName r) f d'.fs ∧ f.data = data ∧
        f.durable = f.data.length)
      (Proc.perform (replaceFile (tempName r) path)) (Replaced limits path cellId r fs) := by
  have hreplace : ∀ s s' : Disk, (∃ f, Linked fs (tempName r) f s.fs ∧ f.data = data ∧
      f.durable = f.data.length) → (replaceFile (tempName r) path).run s = .ok ((), s') →
      Committed limits path cellId r fs s'.fs := by
    intro s s' hs hrun
    rcases hs with ⟨f, hf, rfl, hsync⟩
    unfold replaceFile at hrun
    dsimp only at hrun
    split at hrun
    · rename_i fs' hfs'
      cases hrun
      exact ⟨f, ids, n, hf.replace hf.entries hfs', hold, hcell, hdata, hsync⟩
    · cases hrun
  refine triple_atomic (fun _ _ => rfl) ?_ ?_
  · intro s hs
    have hlinked : ∃ f, Linked fs (tempName r) f s.fs := ⟨_, hs.choose_spec.1⟩
    exact ⟨fun e => Replaced.early nofun hlinked, Replaced.early nofun hlinked⟩
  · intro s a s' hs hok
    have hcommitted := hreplace s s' hs hok
    exact ⟨⟨Or.inr hcommitted, fun _ => hcommitted⟩, fun e => ⟨Or.inr hcommitted, nofun⟩,
      Or.inr hcommitted, nofun⟩

theorem writeAndReplace_spec {ids : Finset Int} {n : Int} {data : Bytes}
    (hold : loadIds limits (fs.read path) = .ok ids) (hcell : intOf limits cellId = .ok n)
    (hdata : payload limits (insert n ids) = .ok data) :
    Triple (fun d' => Linked fs (tempName r) ⟨[], 0, Nat.le_refl 0⟩ d'.fs)
      (writeAndReplace path fs.files.length (tempName r) data)
      (Replaced limits path cellId r fs) := by
  refine triple_linked_call (fun s hs => ⟨_, hs⟩) ?_
  refine triple_linked (fun s hs => ⟨s, rfl, hs⟩) ?_ ?_
  · intro s progress hs
    cases progress with
    | nothing => exact ⟨_, hs⟩
    | part k => exact ⟨_, hs.write _⟩
    | everything => exact ⟨_, hs⟩
  refine triple_linked
    (R := fun s => ∃ f, Linked fs (tempName r) f s.fs ∧ f.data = data) ?_ ?_ ?_
  · intro s hs
    exact ⟨_, rfl, _, hs.write data, List.nil_append data⟩
  · intro s progress hs
    cases progress with
    | nothing => exact ⟨_, hs⟩
    | part k => exact ⟨_, hs.write _⟩
    | everything => exact ⟨_, hs.write data⟩
  refine triple_linked
    (R := fun s => ∃ f, Linked fs (tempName r) f s.fs ∧ f.data = data ∧
      f.durable = f.data.length) ?_ ?_ ?_
  · intro s hs
    rcases hs with ⟨f, hf, rfl⟩
    exact ⟨_, rfl, _, hf.fsync, rfl, rfl⟩
  · intro s progress hs
    rcases hs with ⟨f, hf, -⟩
    cases progress with
    | nothing => exact ⟨_, hf⟩
    | part k => exact ⟨_, hf⟩
    | everything => exact ⟨_, hf.fsync⟩
  refine triple_linked_call (fun s hs => ⟨_, hs.choose_spec.1⟩) ?_
  exact replaceFile_spec hold hcell hdata

/-- What `record` leaves once its temporary file exists. -/
def Left (limits : Limits) (path : String) (cellId : Value) (r : RandomName) (fs : Fs) :
    Post Error Disk Unit := fun ending d' =>
  (Abandoned r fs d'.fs ∨ Committed limits path cellId r fs d'.fs) ∧
    (ending = .returned () → Committed limits path cellId r fs d'.fs)

/-- The handler does not return.  When it finds an entry to remove, no other
entry has changed. -/
theorem cleanUp_spec (e : Error) :
    Triple (fun d' => (∃ f, Linked fs (tempName r) f d'.fs) ∨
        Committed limits path cellId r fs d'.fs)
      (cleanUp (tempName r) e) (Left limits path cellId r fs) := by
  have hleft : ∀ d' : Disk, ((∃ f, Linked fs (tempName r) f d'.fs) ∨
      Committed limits path cellId r fs d'.fs) →
      Abandoned r fs d'.fs ∨ Committed limits path cellId r fs d'.fs := by
    intro d' h
    rcases h with ⟨f, hf⟩ | h
    · exact Or.inl hf.abandoned
    · exact Or.inr h
  have hunlink : ∀ s s' : Disk, ((∃ f, Linked fs (tempName r) f s.fs) ∨
      Committed limits path cellId r fs s.fs) →
      (unlinkFile (tempName r)).run s = .ok ((), s') → Abandoned r fs s'.fs := by
    intro s s' hs hrun
    unfold unlinkFile at hrun
    dsimp only at hrun
    split at hrun
    · rename_i fs' hfs'
      cases hrun
      rcases hs with ⟨f, hf⟩ | hs
      · exact hf.abandoned.unlink hfs'
      · by_cases hpath : tempName r = path
        · subst hpath
          exact hs.abandoned.unlink hfs'
        · unfold Fs.unlink at hfs'
          rw [hs.entries_temp hpath] at hfs'
          cases hfs'
    · cases hrun
  refine triple_bind (fun _ d' => Abandoned r fs d'.fs ∨ Committed limits path cellId r fs d'.fs)
    ?_ ?_
  · refine triple_tryExcept
      (fun _ d' => Abandoned r fs d'.fs ∨ Committed limits path cellId r fs d'.fs) ?_ ?_
    · refine triple_atomic (fun _ _ => rfl) ?_ ?_
      · intro s hs
        exact ⟨fun e' => hleft s hs, hleft s hs, nofun⟩
      · intro s a s' hs hrun
        have habandoned := hunlink s s' hs hrun
        exact ⟨Or.inl habandoned, fun e' => Or.inl habandoned, Or.inl habandoned, nofun⟩
    · intro e'
      split
      · exact triple_pure fun s hs => hs
      · exact triple_raise fun s hs => ⟨hs, fun heq => by cases heq⟩
  · intro _
    exact triple_raise fun s hs => ⟨hs, fun heq => by cases heq⟩

/-- A temporary file appears under a name that was free, or nothing happens. -/
theorem mkstemp_run {d d' : Disk} {fd : Nat} {tmp : String}
    (h : mkstemp.run d = .ok ((fd, tmp), d')) :
    ∃ r, d.fs.entries (tempName r) = none ∧ fd = d.fs.files.length ∧ tmp = tempName r ∧
      Linked d.fs (tempName r) ⟨[], 0, Nat.le_refl 0⟩ d'.fs := by
  unfold mkstemp at h
  dsimp only at h
  split at h
  · cases h
  · rename_i hfresh
    cases h
    exact ⟨_, hfresh, rfl, rfl, d.fs.create_extends _⟩

/-- What a run of `record` does, and what it has done when it returns. -/
def Outcome (limits : Limits) (path : String) (cellId : Value) (fs : Fs) :
    Post Error Disk Unit := fun ending d' =>
  Effect limits path cellId fs d'.fs ∧
    (ending = .returned () →
      ∃ r, fs.entries (tempName r) = none ∧ Committed limits path cellId r fs d'.fs)

theorem Outcome.early {ending : Ending Error Unit} {d' : Disk} (hend : ending ≠ .returned ())
    (h : Effect limits path cellId fs d'.fs) : Outcome limits path cellId fs ending d' :=
  ⟨h, fun heq => absurd heq hend⟩

/-- A computation before the temporary file exists. -/
theorem triple_outcome_call {α : Type} {d : Disk} {x : Except Error α}
    {f : α → Proc Error Disk Unit}
    (hf : ∀ a, x = .ok a → Triple (· = d) (f a) (Outcome limits path cellId d.fs)) :
    Triple (· = d) (Proc.call x >>= f) (Outcome limits path cellId d.fs) := by
  refine triple_bind (fun a d' => d' = d ∧ x = .ok a) ?_ ?_
  · refine triple_call (fun s a hs hx => ⟨hs, hx⟩) ?_ ?_
    · intro s e hs
      subst hs
      exact Outcome.early (by intro h; cases h) (Or.inl rfl)
    · intro s hs
      subst hs
      exact Outcome.early (by intro h; cases h) (Or.inl rfl)
  · intro a w hw
    exact hf a hw.2 w hw.1

/-- The file is created, and then written and put in place, or cleaned up. -/
theorem replacement_spec {d : Disk} {ids : Finset Int} {n : Int} {data : Bytes}
    (hold : loadIds limits (d.fs.read path) = .ok ids) (hcell : intOf limits cellId = .ok n)
    (hdata : payload limits (insert n ids) = .ok data) :
    Triple (· = d)
      (Proc.perform mkstemp >>= fun file =>
        Proc.tryExcept (writeAndReplace path file.1 file.2 data) (cleanUp file.2))
      (Outcome limits path cellId d.fs) := by
  refine triple_bind (fun file d' => ∃ r, d.fs.entries (tempName r) = none ∧
    file = (d.fs.files.length, tempName r) ∧
      Linked d.fs (tempName r) ⟨[], 0, Nat.le_refl 0⟩ d'.fs) ?_ ?_
  · refine triple_atomic (fun _ _ => rfl) ?_ ?_
    · intro s hs
      subst hs
      exact ⟨fun e => Outcome.early nofun (Or.inl rfl), Outcome.early nofun (Or.inl rfl)⟩
    · intro s file s' hs hrun
      subst hs
      obtain ⟨r, hfresh, hfd, htmp, hlinked⟩ := mkstemp_run hrun
      have heffect : Effect limits path cellId s.fs s'.fs :=
        Or.inr ⟨r, hfresh, Or.inl hlinked.abandoned⟩
      exact ⟨⟨r, hfresh, Prod.ext hfd htmp, hlinked⟩, fun e => Outcome.early nofun heffect,
        Outcome.early nofun heffect⟩
  · intro file w hw
    rcases hw with ⟨r, hfresh, rfl, hlinked⟩
    have hleft : Triple (fun d' => Linked d.fs (tempName r) ⟨[], 0, Nat.le_refl 0⟩ d'.fs)
        (Proc.tryExcept (writeAndReplace path d.fs.files.length (tempName r) data)
          (cleanUp (tempName r))) (Left limits path cellId r d.fs) := by
      refine triple_tryExcept (fun _ d' => (∃ f, Linked d.fs (tempName r) f d'.fs) ∨
        Committed limits path cellId r d.fs d'.fs) ?_ cleanUp_spec
      refine (writeAndReplace_spec hold hcell hdata).conseq (fun _ h => h) ?_
      intro ending d' h
      cases ending with
      | returned a => exact ⟨Or.inr (h.2 rfl), h.2⟩
      | raised e => exact h.1
      | killed =>
        rcases h.1 with ⟨f, hf⟩ | hcommitted
        · exact ⟨Or.inl hf.abandoned, h.2⟩
        · exact ⟨Or.inr hcommitted, h.2⟩
    have h := hleft w hlinked
    exact ⟨Or.inr ⟨r, hfresh, h.1⟩, fun heq => ⟨r, hfresh, h.2 heq⟩⟩

/-- Whatever faults occur, `record` does nothing, or leaves a temporary file,
or puts a new file in place, and it returns only in the last case. -/
theorem record_spec (cellId : Value) (d : Disk) :
    Triple (· = d) (record limits path cellId) (Outcome limits path cellId d.fs) := by
  refine triple_bind (fun ids d' => d' = d ∧ loadIds limits (d.fs.read path) = .ok ids) ?_ ?_
  · refine (load_spec d).conseq (fun _ h => h) ?_
    intro ending d' h
    rcases h with ⟨rfl, hids⟩
    cases ending with
    | returned ids => exact ⟨rfl, hids ids rfl⟩
    | raised e => exact Outcome.early (by intro h; cases h) (Or.inl rfl)
    | killed => exact Outcome.early (by intro h; cases h) (Or.inl rfl)
  · intro ids
    refine Triple.of_states fun s hs => ?_
    rcases hs with ⟨rfl, hold⟩
    exact triple_outcome_call fun n hcell => triple_outcome_call fun data hdata =>
      replacement_spec hold hcell hdata

/-- Without faults the body of the `try` puts the file in place. -/
theorem writeAndReplace_run {d : Disk} {fd : Nat} {tmp : String} {data : Bytes} {fs' : Fs}
    (hreplace : ((d.fs.write fd data).fsync fd).replace tmp path = some fs') :
    writeAndReplace path fd tmp data ⟨[], d⟩ = (.returned (), ⟨[], { d with fs := fs' }⟩) := by
  have hrun : (replaceFile tmp path).run { d with fs := (d.fs.write fd data).fsync fd } =
      .ok ((), { d with fs := fs' }) := by
    unfold replaceFile
    dsimp only
    rw [hreplace]
  exact Proc.perform_ok hrun

/-- Without faults `record` returns. -/
theorem record_run {ids : Finset Int} {n : Int} {data : Bytes} {candidates : List RandomName}
    (hold : loadIds limits (fs.read path) = .ok ids) (hcell : intOf limits cellId = .ok n)
    (hdata : payload limits (insert n ids) = .ok data)
    (hfresh : fs.entries (tempName (candidates.headD RandomName.first)) = none) :
    ∃ d', record limits path cellId ⟨[], ⟨fs, candidates⟩⟩ = (.returned (), ⟨[], d'⟩) := by
  let tmp := tempName (candidates.headD RandomName.first)
  have hmkstemp : Proc.perform mkstemp ⟨[], (⟨fs, candidates⟩ : Disk)⟩ =
      (.returned (fs.files.length, tmp), ⟨[], ⟨fs.create tmp, candidates.tail⟩⟩) := by
    have hrun : mkstemp.run (⟨fs, candidates⟩ : Disk) =
        .ok ((fs.files.length, tmp), ⟨fs.create tmp, candidates.tail⟩) := by
      unfold mkstemp
      dsimp only
      rw [hfresh]
    exact Proc.perform_ok hrun
  have hlinked : fs.Extends _ [.link tmp fs.files.length]
      (((fs.create tmp).write fs.files.length data).fsync fs.files.length) :=
    ((fs.create_extends tmp).write data).fsync
  obtain ⟨fs', hreplace⟩ : ∃ fs', (((fs.create tmp).write fs.files.length data).fsync
      fs.files.length).replace tmp path = some fs' := by
    unfold Fs.replace
    split
    · exact ⟨_, rfl⟩
    · rename_i hnone
      rw [hlinked.entries_eq] at hnone
      have htarget := Change.apply_target (.link tmp fs.files.length) fs.entries
      exact absurd (htarget.symm.trans hnone) nofun
  have hbody := writeAndReplace_run (d := ⟨fs.create tmp, candidates.tail⟩) hreplace
  refine ⟨⟨fs', candidates.tail⟩, ?_⟩
  unfold record
  rw [Proc.bind_returned (load_run hold candidates), Proc.bind_returned (Proc.call_ok hcell _),
    Proc.bind_returned (Proc.call_ok hdata _), Proc.bind_returned hmkstemp]
  exact Proc.tryExcept_returned hbody _

/-- What `record` needs: the file loads, the id is a number, the new list can be
written, and the name for the temporary file is free. -/
def Recordable (limits : Limits) (path : String) (cellId : Value) (d : Disk) : Prop :=
  ∃ ids n data, loadIds limits (d.fs.read path) = .ok ids ∧ intOf limits cellId = .ok n ∧
    payload limits (insert n ids) = .ok data ∧
    d.fs.entries (tempName (d.candidates.headD RandomName.first)) = none

/-- Otherwise it raises, and leaves the directory as it was. -/
theorem record_run_error {d : Disk} (h : ¬ Recordable limits path cellId d) :
    ∃ e, record limits path cellId ⟨[], d⟩ = (.raised e, ⟨[], d⟩) ∧
      (IsLoadError e ∨ e.className = "FileExistsError") := by
  obtain ⟨fs, candidates⟩ := d
  cases hold : loadIds limits (fs.read path) with
  | error e =>
    have hload := load_run_error hold candidates
    exact ⟨e, Proc.bind_raised hload.1 _, Or.inl hload.2⟩
  | ok ids =>
    have hload := load_run hold candidates
    unfold record
    rw [Proc.bind_returned hload]
    cases hcell : intOf limits cellId with
    | error e =>
      refine ⟨e, Proc.bind_raised (Proc.call_error rfl _) _, Or.inl (Or.inl ?_)⟩
      exact intOf_errors limits cellId e hcell
    | ok n =>
      rw [Proc.bind_returned (Proc.call_ok rfl _)]
      cases hdata : payload limits (insert n ids) with
      | error e =>
        refine ⟨e, Proc.bind_raised (Proc.call_error rfl _) _, Or.inl (Or.inl ?_)⟩
        exact payload_errors limits _ e hdata
      | ok data =>
        rw [Proc.bind_returned (Proc.call_ok rfl _)]
        cases hfresh : fs.entries (tempName (candidates.headD RandomName.first)) with
        | none => exact absurd ⟨ids, n, data, hold, hcell, hdata, hfresh⟩ h
        | some file =>
          have hrun : mkstemp.run (⟨fs, candidates⟩ : Disk) =
              .error (fileExists (tempName (candidates.headD RandomName.first))) := by
            unfold mkstemp
            dsimp only
            rw [hfresh]
          exact ⟨_, Proc.bind_raised (Proc.perform_error hrun) _, Or.inr rfl⟩

end Record

/-! ## What is seen through the path -/

/-- The file loads, and the id is there. -/
def LoadsId (limits : Limits) (path : String) (n : Int) (fs : Fs) : Prop :=
  ∃ ids, loadIds limits (fs.read path) = .ok ids ∧ n ∈ ids

section LoadsId

variable {n : Int} {cellId : Value} {fs fs' : Fs}

/-- A file that has an id exists, so its name is not a free one. -/
theorem LoadsId.ne_temp (h : LoadsId limits path n fs) {r : RandomName}
    (hfresh : fs.entries (tempName r) = none) : path ≠ tempName r := by
  rintro rfl
  obtain ⟨ids, hids, hn⟩ := h
  unfold Fs.read at hids
  rw [hfresh] at hids
  cases hids
  cases hn

theorem LoadsId.of_read (hread : fs'.read path = fs.read path)
    (h : LoadsId limits path n fs) : LoadsId limits path n fs' := by
  unfold LoadsId
  rw [hread]
  exact h

/-- The new file is under the path, with the old ids and the new one. -/
theorem Committed.read {r : RandomName} (h : Committed limits path cellId r fs fs') :
    ∃ (ids : Finset Int) (m : Int) (content : Bytes),
      loadIds limits (fs.read path) = .ok ids ∧ intOf limits cellId = .ok m ∧
        fs'.read path = some content ∧ ValidIds limits content ∧
        idsOf limits content = .ok (insert m ids) := by
  rcases h with ⟨f, ids, m, hext, hids, hm, hdata, -⟩
  have hentry : fs'.entries path = some fs.files.length := by
    rw [hext.entries_eq]
    exact Change.apply_target (.rename (tempName r) path fs.files.length) _
  exact ⟨ids, m, f.data, hids, hm, hext.read_new hentry, payload_loads hdata⟩

theorem Abandoned.read {r : RandomName} (h : Abandoned r fs fs') (hpath : path ≠ tempName r) :
    fs'.read path = fs.read path := by
  rcases h with ⟨f, changes, hext, honly⟩
  exact hext.read_avoids fun change hmem => honly change hmem path hpath

/-- `record` takes no id away. -/
theorem Effect.loadsId (h : Effect limits path cellId fs fs') (hn : LoadsId limits path n fs) :
    LoadsId limits path n fs' := by
  rcases h with rfl | ⟨r, hfresh, habandoned | hcommitted⟩
  · exact hn
  · exact hn.of_read (habandoned.read (hn.ne_temp hfresh))
  · obtain ⟨ids, hids, hmem⟩ := hn
    obtain ⟨ids', m, content, hids', -, hread, -, hcontent⟩ := hcommitted.read
    rw [hids] at hids'
    cases hids'
    refine ⟨insert m ids, ?_, Finset.mem_insert_of_mem hmem⟩
    rw [hread]
    exact hcontent

/-- The id is there when `record` returns. -/
theorem Outcome.loadsId {d' : Disk} (h : Outcome limits path cellId fs (.returned ()) d') :
    ∃ m, intOf limits cellId = .ok m ∧ LoadsId limits path m d'.fs := by
  obtain ⟨r, -, hcommitted⟩ := h.2 rfl
  obtain ⟨ids, m, content, -, hm, hread, -, hcontent⟩ := hcommitted.read
  refine ⟨m, hm, insert m ids, ?_, Finset.mem_insert_self m ids⟩
  rw [hread]
  exact hcontent

end LoadsId

end Trelyan.Seal
