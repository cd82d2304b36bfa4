import Mathlib.Data.List.Perm.Basic
import Trelyan.Lib.BigEndian

/-!
# Directory trees and their walks

A finite tree of regular files and directories, with names of any type, and the
files that it holds outside the directories that a walk skips (`entriesUnder`).

A walk keeps a stack of directories, takes one off, and puts its subdirectories
on.  Whatever order the operating system lists a directory in, and whatever
order the walk puts the subdirectories on the stack in, it finds these files
(`visited_files`).  That is an instance of a fact about any such loop: if what
an item yields in all is what it yields itself and what its children yield in
all, the loop yields what the items of the stack yield in all
(`visited_flatMap_perm`).
-/

namespace Trelyan.FileTree

/-! ## Loops over a stack -/

section Visited

variable {D α : Type}

/-- The items that a loop takes off its stack, in this order. -/
def visited (children : D → List D) : Nat → List D → List D
  | 0, _ => []
  | _ + 1, [] => []
  | fuel + 1, d :: stack => d :: visited children fuel (children d ++ stack)

theorem visited_flatMap_perm {children : D → List D} {size : D → Nat} {own total : D → List α}
    (hsize : ∀ d, ((children d).map size).sum + 1 ≤ size d)
    (htotal : ∀ d, (total d).Perm (own d ++ (children d).flatMap total)) {fuel : Nat}
    {stack : List D} (hfuel : (stack.map size).sum ≤ fuel) :
    ((visited children fuel stack).flatMap own).Perm (stack.flatMap total) := by
  induction fuel generalizing stack with
  | zero =>
    cases stack with
    | nil => exact List.Perm.refl _
    | cons d stack =>
      have hd := hsize d
      rw [List.map_cons, List.sum_cons] at hfuel
      omega
  | succ fuel ih =>
    cases stack with
    | nil => exact List.Perm.refl _
    | cons d stack =>
      have hd := hsize d
      rw [List.map_cons, List.sum_cons] at hfuel
      have hrest := @ih (children d ++ stack) (by
        rw [List.map_append, List.sum_append]
        omega)
      rw [visited, List.flatMap_cons, List.flatMap_cons]
      refine (hrest.append_left (own d)).trans ?_
      rw [List.flatMap_append, ← List.append_assoc]
      exact (htotal d).symm.append_right _

end Visited

/-! ## Trees -/

/-- What an entry of a directory refers to. -/
inductive Node (N : Type) where
  | file (contents : Bytes)
  | dir (entries : List (N × Node N))

variable {N : Type}

/-- A directory, with the names of those it lies in below the root. -/
structure Dir (N : Type) where
  path : List N
  entries : List (N × Node N)

/-- A file of a tree, with the names of the directories it lies in. -/
structure Leaf (N : Type) where
  dirs : List N
  name : N
  contents : Bytes

def Leaf.path (f : Leaf N) : List N := f.dirs ++ [f.name]

/-- The order in which the operating system lists the directories. -/
structure Listing (N : Type) where
  list : Dir N → List (N × Node N)
  perm : ∀ d, (list d).Perm d.entries

/-- The entries as they stand. -/
def Listing.inOrder : Listing N := ⟨Dir.entries, fun _ => List.Perm.refl _⟩

/-- The files among some entries. -/
def filesAmong (path : List N) (entries : List (N × Node N)) : List (Leaf N) :=
  entries.filterMap fun entry =>
    match entry.2 with
    | .file contents => some ⟨path, entry.1, contents⟩
    | .dir _ => none

/-- The directories among some entries, except those with a name to skip. -/
def dirsAmong (skip : N → Bool) (path : List N) (entries : List (N × Node N)) : List (Dir N) :=
  entries.filterMap fun entry =>
    match entry.2 with
    | .file _ => none
    | .dir entries => if skip entry.1 then none else some ⟨path ++ [entry.1], entries⟩

mutual

/-- The files under a node. -/
def filesUnder (skip : N → Bool) (path : List N) (name : N) : Node N → List (Leaf N)
  | .file contents => [⟨path, name, contents⟩]
  | .dir entries => if skip name then [] else entriesUnder skip (path ++ [name]) entries

/-- The files under some entries. -/
def entriesUnder (skip : N → Bool) (path : List N) : List (N × Node N) → List (Leaf N)
  | [] => []
  | (name, node) :: entries => filesUnder skip path name node ++ entriesUnder skip path entries

end

mutual

/-- How many directories there are. -/
def nodeSize : Node N → Nat
  | .file _ => 0
  | .dir entries => entriesSize entries + 1

def entriesSize : List (N × Node N) → Nat
  | [] => 0
  | (_, node) :: entries => nodeSize node + entriesSize entries

end

def Dir.size (d : Dir N) : Nat := entriesSize d.entries + 1

theorem dirsAmong_cons_skipped {skip : N → Bool} {name : N} (h : skip name = true) (path : List N)
    (sub entries : List (N × Node N)) :
    dirsAmong skip path ((name, .dir sub) :: entries) = dirsAmong skip path entries := by
  simp [dirsAmong, h]

theorem dirsAmong_cons_kept {skip : N → Bool} {name : N} (h : skip name = false) (path : List N)
    (sub entries : List (N × Node N)) :
    dirsAmong skip path ((name, .dir sub) :: entries) =
      ⟨path ++ [name], sub⟩ :: dirsAmong skip path entries := by
  simp [dirsAmong, h]

theorem dirsAmong_size (skip : N → Bool) (path : List N) (entries : List (N × Node N)) :
    ((dirsAmong skip path entries).map Dir.size).sum ≤ entriesSize entries := by
  induction entries with
  | nil => exact Nat.le_refl _
  | cons entry entries ih =>
    obtain ⟨name, node⟩ := entry
    cases node with
    | file contents =>
      rw [entriesSize, nodeSize, Nat.zero_add]
      exact ih
    | dir sub =>
      rw [entriesSize, nodeSize]
      cases hskip : skip name with
      | true =>
        rw [dirsAmong_cons_skipped hskip]
        omega
      | false =>
        rw [dirsAmong_cons_kept hskip, List.map_cons, List.sum_cons]
        show entriesSize sub + 1 + _ ≤ _
        omega

/-- What a directory holds is its own files and what its subdirectories hold. -/
theorem entriesUnder_perm (skip : N → Bool) (path : List N) (entries : List (N × Node N)) :
    (entriesUnder skip path entries).Perm (filesAmong path entries ++
      (dirsAmong skip path entries).flatMap fun d => entriesUnder skip d.path d.entries) := by
  induction entries with
  | nil => exact List.Perm.refl _
  | cons entry entries ih =>
    obtain ⟨name, node⟩ := entry
    rw [entriesUnder]
    cases node with
    | file contents =>
      rw [filesUnder]
      exact List.Perm.cons _ ih
    | dir sub =>
      rw [filesUnder]
      have hfiles : filesAmong path ((name, .dir sub) :: entries) = filesAmong path entries := rfl
      rw [hfiles]
      cases hskip : skip name with
      | true =>
        rw [dirsAmong_cons_skipped hskip]
        simpa using ih
      | false =>
        rw [dirsAmong_cons_kept hskip, List.flatMap_cons, if_neg (by simp)]
        exact (ih.append_left _).trans (List.perm_append_comm_assoc _ _ _)

/-- A walk finds the files that lie in no directory that it skips. -/
theorem visited_files {skip : N → Bool} {children : Dir N → List (Dir N)}
    {own : Dir N → List (Leaf N)}
    (hchildren : ∀ d, (children d).Perm (dirsAmong skip d.path d.entries))
    (hown : ∀ d, (own d).Perm (filesAmong d.path d.entries)) {fuel : Nat} {d : Dir N}
    (hfuel : d.size ≤ fuel) :
    ((visited children fuel [d]).flatMap own).Perm (entriesUnder skip d.path d.entries) := by
  have hsize : ∀ d, ((children d).map Dir.size).sum + 1 ≤ d.size := by
    intro d
    have hle := dirsAmong_size skip d.path d.entries
    rw [((hchildren d).map Dir.size).sum_nat]
    exact Nat.succ_le_succ hle
  have htotal : ∀ d : Dir N, (entriesUnder skip d.path d.entries).Perm
      (own d ++ (children d).flatMap fun d => entriesUnder skip d.path d.entries) := by
    intro d
    exact (entriesUnder_perm skip d.path d.entries).trans
      ((hown d).symm.append ((hchildren d).symm.flatMap_right _))
  have hstack : ([d].map Dir.size).sum ≤ fuel := by simpa using hfuel
  simpa using visited_flatMap_perm hsize htotal hstack

/-! ## What is skipped -/

mutual

theorem prefix_of_mem_filesUnder {skip : N → Bool} {path : List N} {name : N} {f : Leaf N} :
    ∀ node : Node N, f ∈ filesUnder skip path name node → path <+: f.dirs
  | .file contents, h => by
    rw [filesUnder, List.mem_singleton] at h
    subst h
    exact List.prefix_refl path
  | .dir entries, h => by
    rw [filesUnder] at h
    by_cases hskip : skip name = true
    · rw [if_pos hskip] at h
      cases h
    · rw [if_neg hskip] at h
      exact (List.prefix_append path [name]).trans (prefix_of_mem_entriesUnder entries h)

theorem prefix_of_mem_entriesUnder {skip : N → Bool} {path : List N} {f : Leaf N} :
    ∀ entries : List (N × Node N), f ∈ entriesUnder skip path entries → path <+: f.dirs
  | [], h => by cases h
  | (name, node) :: entries, h => by
    rw [entriesUnder, List.mem_append] at h
    exact h.elim (prefix_of_mem_filesUnder node) (prefix_of_mem_entriesUnder entries)

end

/-- The file lies in no directory with a name to skip. -/
def Outside (skip : N → Bool) (f : Leaf N) : Bool := f.dirs.all fun name => !skip name

mutual

theorem filesUnder_skip {skip : N → Bool} {path : List N} (hpath : ∀ n ∈ path, skip n = false)
    (name : N) : ∀ node : Node N, filesUnder skip path name node =
      (filesUnder (fun _ => false) path name node).filter (Outside skip)
  | .file contents => by
    have houtside : Outside skip ⟨path, name, contents⟩ = true := by
      simpa [Outside] using hpath
    rw [filesUnder, filesUnder, List.filter_cons_of_pos houtside, List.filter_nil]
  | .dir entries => by
    rw [filesUnder, filesUnder, if_neg Bool.false_ne_true]
    cases hskip : skip name with
    | true =>
      -- Every file below has the name among its directories.
      have hnone : ∀ f ∈ entriesUnder (fun _ => false) (path ++ [name]) entries,
          ¬ Outside skip f = true := by
        intro f hf houtside
        have hmem : name ∈ f.dirs :=
          (prefix_of_mem_entriesUnder entries hf).subset (by simp)
        have := List.all_eq_true.mp houtside name hmem
        rw [hskip] at this
        cases this
      rw [if_pos rfl, List.filter_eq_nil_iff.mpr hnone]
    | false =>
      rw [if_neg (by simp)]
      refine entriesUnder_skip (fun n hn => ?_) entries
      rcases List.mem_append.mp hn with hn | hn
      · exact hpath n hn
      · rw [List.mem_singleton.mp hn]
        exact hskip

theorem entriesUnder_skip {skip : N → Bool} {path : List N}
    (hpath : ∀ n ∈ path, skip n = false) : ∀ entries : List (N × Node N),
      entriesUnder skip path entries =
        (entriesUnder (fun _ => false) path entries).filter (Outside skip)
  | [] => rfl
  | (name, node) :: entries => by
    rw [entriesUnder, entriesUnder, List.filter_append, filesUnder_skip hpath name node,
      entriesUnder_skip hpath entries]

end

end Trelyan.FileTree
