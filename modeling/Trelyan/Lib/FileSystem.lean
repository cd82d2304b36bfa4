import Trelyan.Lib.BigEndian
import Mathlib.Logic.Function.Basic

/-!
# A directory that survives crashes

One directory of regular files, as POSIX promises it.  What a running process
sees is the current state.  What the disk holds lags behind.  Data that was
written reaches it with an `fsync` of the file.  A change of an entry reaches
it with an `fsync` of the directory.  Until then a crash of the machine may
lose the end of the data of a file, and it may lose each pending change of an
entry, whichever of the others it loses (`Loss`).

A process that dies loses nothing here: the state is the kernel's.

Every entry refers to a file that exists, which the structure carries as a
field.  So the file that `create` makes is not the file of any other entry,
and writing to it changes nothing that another name reads (`read_write`).
-/

namespace Trelyan

/-- A file: its data, and how much of it is on disk. -/
structure File where
  data : Bytes
  durable : Nat
  durable_le : durable ≤ data.length

/-- A change of a directory entry. -/
inductive Change where
  | link (name : String) (file : Nat)
  | rename (src dst : String) (file : Nat)
  | unlink (name : String)

/-- The entries of a directory: which file a name refers to. -/
abbrev Entries := String → Option Nat

namespace Change

def apply : Change → Entries → Entries
  | link name file, entries => Function.update entries name (some file)
  | rename src dst file, entries =>
    Function.update (Function.update entries src none) dst (some file)
  | unlink name, entries => Function.update entries name none

/-- The file that the change makes an entry refer to. -/
def file? : Change → Option Nat
  | link _ file => some file
  | rename _ _ file => some file
  | unlink _ => none

/-- The name whose entry comes to refer to another file, or to none. -/
def target : Change → String
  | link name _ => name
  | rename _ dst _ => dst
  | unlink name => name

theorem apply_target (change : Change) (entries : Entries) :
    change.apply entries change.target = change.file? := by
  cases change <;> exact Function.update_self ..

/-- An entry that is not the target stays, or it is the old name of a file that
was renamed. -/
theorem apply_of_ne {change : Change} (entries : Entries) {name : String}
    (h : name ≠ change.target) :
    change.apply entries name = entries name ∨
      change.apply entries name = none ∧ ∃ dst file, change = .rename name dst file := by
  cases change with
  | link name' file => exact Or.inl (Function.update_of_ne h ..)
  | unlink name' => exact Or.inl (Function.update_of_ne h ..)
  | rename src dst file =>
    have hdst : Change.apply (.rename src dst file) entries name =
        Function.update entries src none name := Function.update_of_ne h ..
    by_cases hsrc : name = src
    · subst hsrc
      exact Or.inr ⟨hdst.trans (Function.update_self ..), dst, file, rfl⟩
    · exact Or.inl (hdst.trans (Function.update_of_ne hsrc ..))

/-- The change does not touch the entry. -/
def Avoids (change : Change) (name : String) : Prop :=
  name ≠ change.target ∧ ∀ dst file, change ≠ .rename name dst file

theorem Avoids.apply {change : Change} {name : String} (h : change.Avoids name)
    (entries : Entries) : change.apply entries name = entries name := by
  rcases apply_of_ne entries h.1 with heq | ⟨-, dst, file, heq⟩
  · exact heq
  · exact absurd heq (h.2 dst file)

end Change

/-- The entries after some changes, the first one first. -/
def applyAll (changes : List Change) (entries : Entries) : Entries :=
  changes.foldl (fun entries change => change.apply entries) entries

/-- A directory and its files. -/
structure Fs where
  /-- Files by number. -/
  files : List File
  /-- The entries at the last `fsync` of the directory. -/
  persisted : Entries
  /-- The changes since then. -/
  pending : List Change
  persisted_allocated : ∀ name file, persisted name = some file → file < files.length
  pending_allocated : ∀ change ∈ pending, ∀ file, change.file? = some file → file < files.length

/-- What a crash takes: which of the pending changes stay, and how much of the
data of each file. -/
structure Loss where
  stays : List Bool
  length : Nat → Nat

/-- The changes that stay.  Those beyond the list are lost. -/
def survivors : List Change → List Bool → List Change
  | change :: changes, true :: stays => change :: survivors changes stays
  | _ :: changes, false :: stays => survivors changes stays
  | _, _ => []

theorem survivors_subset : ∀ (changes : List Change) (stays : List Bool),
    ∀ change ∈ survivors changes stays, change ∈ changes
  | [], _, _, h => by simp [survivors] at h
  | _ :: _, [], _, h => by simp [survivors] at h
  | c :: changes, true :: stays, change, h => by
    rcases List.mem_cons.mp h with rfl | h
    · exact List.mem_cons_self
    · exact List.mem_cons_of_mem c (survivors_subset changes stays change h)
  | c :: changes, false :: stays, change, h =>
    List.mem_cons_of_mem c (survivors_subset changes stays change h)

/-- A change in an entry comes from a change that was applied. -/
theorem applyAll_eq_some {changes : List Change} {entries : Entries} {name : String}
    {file : Nat} (h : applyAll changes entries name = some file) :
    entries name = some file ∨ ∃ change ∈ changes, change.file? = some file := by
  induction changes generalizing entries with
  | nil => exact Or.inl h
  | cons change changes ih =>
    rcases ih h with h | ⟨change', hmem, hfile⟩
    · have h : change.apply entries name = some file := h
      by_cases hname : name = change.target
      · rw [hname, Change.apply_target] at h
        exact Or.inr ⟨change, List.mem_cons_self, h⟩
      · rcases Change.apply_of_ne entries hname with heq | ⟨heq, -⟩
        · rw [heq] at h
          exact Or.inl h
        · rw [heq] at h
          cases h
    · exact Or.inr ⟨change', List.mem_cons_of_mem _ hmem, hfile⟩

theorem applyAll_append (changes changes' : List Change) (entries : Entries) :
    applyAll (changes ++ changes') entries = applyAll changes' (applyAll changes entries) := by
  unfold applyAll
  rw [List.foldl_append]

theorem applyAll_avoids {changes : List Change} {name : String}
    (h : ∀ change ∈ changes, change.Avoids name) (entries : Entries) :
    applyAll changes entries name = entries name := by
  induction changes generalizing entries with
  | nil => rfl
  | cons change changes ih =>
    calc applyAll (change :: changes) entries name = change.apply entries name :=
          ih (fun c hc => h c (List.mem_cons_of_mem _ hc)) _
      _ = entries name := (h change List.mem_cons_self).apply entries

theorem survivors_append : ∀ (changes changes' : List Change) (stays : List Bool),
    survivors (changes ++ changes') stays =
      survivors changes stays ++ survivors changes' (stays.drop changes.length)
  | [], _, _ => by simp [survivors]
  | _ :: _, changes', [] => by cases changes' <;> simp [survivors]
  | _ :: changes, changes', true :: stays => by
    simp [survivors, survivors_append changes changes' stays]
  | _ :: changes, changes', false :: stays => by
    simp [survivors, survivors_append changes changes' stays]

theorem survivors_take : ∀ (changes : List Change) (stays : List Bool),
    survivors changes (stays.take changes.length) = survivors changes stays
  | [], _ => by simp [survivors]
  | _ :: _, [] => by simp [survivors]
  | _ :: changes, true :: stays => by simp [survivors, survivors_take changes stays]
  | _ :: changes, false :: stays => by simp [survivors, survivors_take changes stays]

theorem survivors_all : ∀ changes : List Change,
    survivors changes (changes.map fun _ => true) = changes
  | [] => rfl
  | change :: changes => congrArg (List.cons change) (survivors_all changes)

/-- The data that a crash leaves of a file. -/
def File.crash (f : File) (length : Nat) : File where
  data := f.data.take (max f.durable length)
  durable := min (max f.durable length) f.data.length
  durable_le := by simp [Nat.min_comm]

namespace Fs

/-- The entries that a process sees. -/
def entries (fs : Fs) : Entries := applyAll fs.pending fs.persisted

/-- The contents of a file. -/
def contents (fs : Fs) (file : Nat) : Option Bytes := fs.files[file]?.map (·.data)

/-- `open(name).read()`: the contents under a name, if there is such an entry. -/
def read (fs : Fs) (name : String) : Option Bytes := (fs.entries name).bind fs.contents

theorem entries_lt (fs : Fs) {name : String} {file : Nat} (h : fs.entries name = some file) :
    file < fs.files.length := by
  rcases applyAll_eq_some h with h | ⟨change, hmem, hfile⟩
  · exact fs.persisted_allocated name file h
  · exact fs.pending_allocated change hmem file hfile

/-- An entry can be read. -/
theorem read_isSome (fs : Fs) {name : String} {file : Nat} (h : fs.entries name = some file) :
    (fs.read name).isSome = true := by
  rw [read, h]
  show (fs.files[file]?.map _).isSome = true
  rw [List.getElem?_eq_getElem (fs.entries_lt h)]
  rfl

/-! ## Operations -/

/-- Add a pending change. -/
def addChange (fs : Fs) (change : Change)
    (h : ∀ file, change.file? = some file → file < fs.files.length) : Fs :=
  { fs with
    pending := fs.pending ++ [change]
    pending_allocated := by
      intro c hc file hfile
      rcases List.mem_append.mp hc with hc | hc
      · exact fs.pending_allocated c hc file hfile
      · rw [List.mem_singleton.mp hc] at hfile
        exact h file hfile }

/-- Replace a file. -/
def setFile (fs : Fs) (file : Nat) (f : File) : Fs :=
  { fs with
    files := fs.files.set file f
    persisted_allocated := by simpa using fs.persisted_allocated
    pending_allocated := by simpa using fs.pending_allocated }

/-- A new file, without an entry. -/
def newFile (fs : Fs) : Fs :=
  { fs with
    files := fs.files ++ [⟨[], 0, Nat.le_refl 0⟩]
    persisted_allocated := fun name file h => by
      have := fs.persisted_allocated name file h
      simp
      omega
    pending_allocated := fun change hc file h => by
      have := fs.pending_allocated change hc file h
      simp
      omega }

/-- `open(name, O_CREAT | O_EXCL)`: a new empty file under a new name. -/
def create (fs : Fs) (name : String) : Fs :=
  fs.newFile.addChange (.link name fs.files.length) (by
    intro file h
    cases h
    simp [newFile])

/-- `write(fd, data)` at the end of a file. -/
def write (fs : Fs) (file : Nat) (data : Bytes) : Fs :=
  match fs.files[file]? with
  | some f => fs.setFile file
      ⟨f.data ++ data, f.durable, Nat.le_trans f.durable_le (by simp)⟩
  | none => fs

/-- `fsync(fd)`. -/
def fsync (fs : Fs) (file : Nat) : Fs :=
  match fs.files[file]? with
  | some f => fs.setFile file ⟨f.data, f.data.length, Nat.le_refl _⟩
  | none => fs

/-- `os.replace(src, dst)`, if there is such a file. -/
def replace (fs : Fs) (src dst : String) : Option Fs :=
  match h : fs.entries src with
  | some file => some (fs.addChange (.rename src dst file) (by
      intro file' h'
      cases h'
      exact fs.entries_lt h))
  | none => none

/-- `os.unlink(name)`, if there is such a file. -/
def unlink (fs : Fs) (name : String) : Option Fs :=
  match fs.entries name with
  | some _ => some (fs.addChange (.unlink name) (by
      intro file h
      cases h))
  | none => none

/-- `fsync` of the directory. -/
def syncEntries (fs : Fs) : Fs where
  files := fs.files
  persisted := fs.entries
  pending := []
  persisted_allocated _ _ h := fs.entries_lt h
  pending_allocated _ h := by cases h

/-- What is on disk after a crash of the machine. -/
def crash (fs : Fs) (loss : Loss) : Fs where
  files := fs.files.mapIdx fun file f => f.crash (loss.length file)
  persisted := applyAll (survivors fs.pending loss.stays) fs.persisted
  pending := []
  persisted_allocated name file h := by
    rw [List.length_mapIdx]
    rcases applyAll_eq_some h with h | ⟨change, hmem, hfile⟩
    · exact fs.persisted_allocated name file h
    · exact fs.pending_allocated change (survivors_subset _ _ change hmem) file hfile
  pending_allocated _ h := by cases h

/-! ## A new file and some changes -/

/-- `fs'` is `fs` with one more file and some more changes. -/
structure Extends (fs : Fs) (f : File) (changes : List Change) (fs' : Fs) : Prop where
  files : fs'.files = fs.files ++ [f]
  persisted : fs'.persisted = fs.persisted
  pending : fs'.pending = fs.pending ++ changes

theorem create_extends (fs : Fs) (name : String) :
    fs.Extends ⟨[], 0, Nat.le_refl 0⟩ [.link name fs.files.length] (fs.create name) :=
  ⟨rfl, rfl, rfl⟩

namespace Extends

variable {fs fs' : Fs} {f : File} {changes : List Change}

theorem getElem_new (h : fs.Extends f changes fs') : fs'.files[fs.files.length]? = some f := by
  rw [h.files]
  simp

theorem setFile_new (h : fs.Extends f changes fs') (f' : File) :
    fs.Extends f' changes (fs'.setFile fs.files.length f') := by
  refine ⟨?_, h.persisted, h.pending⟩
  show fs'.files.set fs.files.length f' = _
  rw [h.files]
  simp

theorem write (h : fs.Extends f changes fs') (data : Bytes) :
    fs.Extends ⟨f.data ++ data, f.durable,
        Nat.le_trans f.durable_le (List.prefix_append f.data data).length_le⟩ changes
      (fs'.write fs.files.length data) := by
  unfold Fs.write
  rw [h.getElem_new]
  exact h.setFile_new _

theorem fsync (h : fs.Extends f changes fs') :
    fs.Extends ⟨f.data, f.data.length, Nat.le_refl _⟩ changes (fs'.fsync fs.files.length) := by
  unfold Fs.fsync
  rw [h.getElem_new]
  exact h.setFile_new _

theorem entries_eq (h : fs.Extends f changes fs') :
    fs'.entries = applyAll changes fs.entries := by
  unfold Fs.entries
  rw [h.persisted, h.pending, applyAll_append]

theorem replace {fs'' : Fs} {src dst : String} (h : fs.Extends f changes fs')
    (hsrc : fs'.entries src = some fs.files.length) (hrun : fs'.replace src dst = some fs'') :
    fs.Extends f (changes ++ [.rename src dst fs.files.length]) fs'' := by
  unfold Fs.replace at hrun
  split at hrun
  · rename_i file hfile
    cases hrun
    rw [hsrc] at hfile
    cases hfile
    refine ⟨h.files, h.persisted, ?_⟩
    show fs'.pending ++ _ = _
    rw [h.pending, List.append_assoc]
  · cases hrun

theorem unlink {fs'' : Fs} {name : String} (h : fs.Extends f changes fs')
    (hrun : fs'.unlink name = some fs'') :
    fs.Extends f (changes ++ [.unlink name]) fs'' := by
  unfold Fs.unlink at hrun
  split at hrun
  · cases hrun
    refine ⟨h.files, h.persisted, ?_⟩
    show fs'.pending ++ _ = _
    rw [h.pending, List.append_assoc]
  · cases hrun

/-- The contents of the files that were there before. -/
theorem contents_old (h : fs.Extends f changes fs') {file : Nat} (hlt : file < fs.files.length) :
    fs'.contents file = fs.contents file := by
  unfold Fs.contents
  rw [h.files, List.getElem?_append_left hlt]

theorem contents_new (h : fs.Extends f changes fs') :
    fs'.contents fs.files.length = some f.data := by
  unfold Fs.contents
  rw [h.getElem_new]
  rfl

/-- A name that the changes avoid reads as before. -/
theorem read_avoids {name : String} (h : fs.Extends f changes fs')
    (havoid : ∀ change ∈ changes, change.Avoids name) : fs'.read name = fs.read name := by
  unfold Fs.read
  rw [h.entries_eq, applyAll_avoids havoid]
  cases hfile : fs.entries name with
  | none => rfl
  | some file => exact h.contents_old (fs.entries_lt hfile)

theorem read_new {name : String} (h : fs.Extends f changes fs')
    (hname : fs'.entries name = some fs.files.length) : fs'.read name = some f.data := by
  unfold Fs.read
  rw [hname]
  exact h.contents_new

/-! ## What a crash leaves -/

/-- After a crash the new changes that stay stand on top of what the crash
would have left before them. -/
theorem crash_entries (h : fs.Extends f changes fs') (loss : Loss) :
    (fs'.crash loss).entries =
      applyAll (survivors changes (loss.stays.drop fs.pending.length))
        (fs.crash loss).entries := by
  show applyAll (survivors fs'.pending loss.stays) fs'.persisted = _
  rw [h.persisted, h.pending, survivors_append, applyAll_append]
  rfl

theorem crash_contents_old (h : fs.Extends f changes fs') (loss : Loss) {file : Nat}
    (hlt : file < fs.files.length) :
    (fs'.crash loss).contents file = (fs.crash loss).contents file := by
  unfold Fs.contents Fs.crash
  rw [List.getElem?_mapIdx, List.getElem?_mapIdx, h.files, List.getElem?_append_left hlt]

/-- A file that was synced keeps its data. -/
theorem crash_contents_new (h : fs.Extends f changes fs') (loss : Loss)
    (hsync : f.durable = f.data.length) :
    (fs'.crash loss).contents fs.files.length = some f.data := by
  unfold Fs.contents Fs.crash
  rw [List.getElem?_mapIdx, h.getElem_new]
  show some (f.data.take (max f.durable _)) = _
  rw [List.take_of_length_le (by omega)]

/-- If the crash loses all new changes, it leaves what it would have left
before them. -/
theorem crash_read_old (h : fs.Extends f changes fs') (loss : Loss) (name : String) :
    (fs'.crash ⟨loss.stays.take fs.pending.length, loss.length⟩).read name =
      (fs.crash loss).read name := by
  have hentries : (fs'.crash ⟨loss.stays.take fs.pending.length, loss.length⟩).entries =
      (fs.crash loss).entries := by
    show applyAll (survivors fs'.pending _) fs'.persisted = applyAll _ fs.persisted
    rw [h.persisted, h.pending, survivors_append, survivors_take,
      List.drop_of_length_le (by simp)]
    cases changes <;> simp [survivors]
  unfold Fs.read
  rw [hentries]
  cases hfile : (fs.crash loss).entries name with
  | none => rfl
  | some file =>
    have hlt : file < fs.files.length := by
      have := (fs.crash loss).entries_lt hfile
      rwa [Fs.crash, List.length_mapIdx] at this
    exact h.crash_contents_old ⟨_, loss.length⟩ hlt

end Extends

/-- A second crash finds everything on disk. -/
theorem crash_crash_read (fs : Fs) (loss loss' : Loss) (name : String) :
    ((fs.crash loss).crash loss').read name = (fs.crash loss).read name := by
  have hcontents : ((fs.crash loss).crash loss').contents = (fs.crash loss).contents := by
    funext file
    unfold contents crash
    rw [List.getElem?_mapIdx]
    cases hfile : (fs.files.mapIdx fun file f => f.crash (loss.length file))[file]? with
    | none => rfl
    | some f =>
      have hdurable : f.data.length ≤ f.durable := by
        rw [List.getElem?_mapIdx] at hfile
        obtain ⟨f', -, rfl⟩ := Option.map_eq_some_iff.mp hfile
        show (f'.data.take _).length ≤ min _ _
        rw [List.length_take]
      show some (f.data.take (max f.durable _)) = some f.data
      rw [List.take_of_length_le (by omega)]
  have hentries : ((fs.crash loss).crash loss').entries = (fs.crash loss).entries := by
    show applyAll (survivors [] loss'.stays) (fs.crash loss).entries = _
    simp [survivors, applyAll]
  unfold read
  rw [hentries, hcontents]

/-- With the entries on disk, a crash takes data only. -/
theorem syncEntries_crash_read (fs : Fs) (loss : Loss) (name : String) :
    (fs.syncEntries.crash loss).read name =
      (fs.crash ⟨fs.pending.map fun _ => true, loss.length⟩).read name := by
  have hentries : (fs.syncEntries.crash loss).entries =
      (fs.crash ⟨fs.pending.map fun _ => true, loss.length⟩).entries := by
    show applyAll (survivors [] loss.stays) fs.entries =
      applyAll (survivors fs.pending (fs.pending.map fun _ => true)) fs.persisted
    rw [survivors_all]
    simp [survivors, applyAll, entries]
  unfold read
  rw [hentries]
  rfl

/-- A crash that takes nothing. -/
def keepAll (fs : Fs) : Loss where
  stays := fs.pending.map fun _ => true
  length file := (fs.files[file]?.map (·.data.length)).getD 0

theorem crash_keepAll_read (fs : Fs) (name : String) :
    (fs.crash fs.keepAll).read name = fs.read name := by
  have hentries : (fs.crash fs.keepAll).entries = fs.entries := by
    show applyAll (survivors fs.pending _) fs.persisted = _
    rw [keepAll, survivors_all]
    rfl
  unfold read
  rw [hentries]
  cases fs.entries name with
  | none => rfl
  | some file =>
    show (fs.crash fs.keepAll).contents file = fs.contents file
    unfold contents crash
    rw [List.getElem?_mapIdx]
    cases hfile : fs.files[file]? with
    | none => rfl
    | some f =>
      have hlength : fs.keepAll.length file = f.data.length := by
        show ((fs.files[file]?.map _).getD 0) = _
        rw [hfile]
        rfl
      show some (f.data.take (max f.durable (fs.keepAll.length file))) = some f.data
      rw [hlength, List.take_of_length_le (by omega)]

end Fs

end Trelyan
