import Mathlib.Data.Char
import Mathlib.Data.List.Lex
import Mathlib.Data.List.Nodup
import Trelyan.Lib.FileTree
import Trelyan.Lib.PyText

/-!
# The digest of the pinned tree

Two gates compare the vendored Falcon source with its pin: `build.rs` of the
Rust crate before it compiles the signer, and `sdk/ci/verify_pinned_digest.py`
in CI.  Each walks the tree, sorts the files, and hashes one line for each file:
its relative path, a colon, the digest of its contents, and a line feed.

`build.rs` skips a directory that is called `.git` below the root, writes every
backslash of a relative path as a slash, and sorts by the result.  The Python
verifier skips a file when any component of the path of its directory is
`.git`, the root included, writes the separator of the platform as a slash, and
sorts by the full native path.

So the two hash the same text only for trees and roots where these come to the
same (`Alike`).
-/

namespace Trelyan.Pin

open FileTree

/-! ## Paths -/

/-- The paths of POSIX or of Windows. -/
inductive Convention where
  | posix
  | windows
deriving DecidableEq

namespace Convention

/-- `os.sep`. -/
def sep : Convention → Char
  | posix => '/'
  | windows => '\\'

/-- The characters of a name. -/
def allows : Convention → Char → Bool
  | posix, c => c ≠ '/' && c.toNat ≠ 0
  | windows, c => c ≠ '/' && c ≠ '\\' && c ≠ ':' && c.toNat ≠ 0

end Convention

/-- The name of a file or of a directory.  Windows drops a dot or a space at the end. -/
@[ext]
structure Name (conv : Convention) where
  chars : List Char
  ne_nil : chars ≠ []
  allowed : ∀ c ∈ chars, conv.allows c = true
  not_dots : chars ≠ ['.'] ∧ chars ≠ ['.', '.']
  kept : conv = .windows → chars.getLast? ≠ some '.' ∧ chars.getLast? ≠ some ' '

section Paths

variable {conv : Convention}

/-- The names, with the separator between them. -/
def joined (names : List (Name conv)) : List Char :=
  [conv.sep].intercalate (names.map Name.chars)

def isGit (name : Name conv) : Bool := name.chars = ".git".toList

/-- A drive and nothing else. -/
def isDrive : List Char → Bool
  | [c, ':'] => c ≠ '/' && c ≠ '\\'
  | _ => false

/-- No separator goes behind the path. -/
def closes (conv : Convention) (path : List Char) : Bool :=
  path.isEmpty || path.getLast? = some conv.sep ||
    (conv = .windows && (path.getLast? = some '/' || isDrive path))

/-- `os.path.join`. -/
def joinPath (conv : Convention) (path name : List Char) : List Char :=
  if closes conv path then path ++ name else path ++ conv.sep :: name

end Paths

/-- A finite tree below a root, whose files have different paths. -/
structure Tree (conv : Convention) where
  entries : List (Name conv × Node (Name conv))
  distinct : ((entriesUnder (fun _ => false) [] entries).map Leaf.path).Nodup

variable {conv : Convention}

namespace Tree

def root (t : Tree conv) : Dir (Name conv) := ⟨[], t.entries⟩

/-- Every file. -/
def files (t : Tree conv) : List (Leaf (Name conv)) :=
  entriesUnder (fun _ => false) [] t.entries

theorem nodup_files (t : Tree conv) : t.files.Nodup := List.Nodup.of_map _ t.distinct

/-- A path leads to one file. -/
theorem eq_of_path_eq (t : Tree conv) {f g : Leaf (Name conv)} (hf : f ∈ t.files)
    (hg : g ∈ t.files) (h : f.path = g.path) : f = g :=
  List.inj_on_of_nodup_map t.distinct hf hg h

end Tree

/-- Sort by a string.  Rust compares the bytes and Python the code points, which is the
same. -/
def sortBy (key : Leaf (Name conv) → List Char) (files : List (Leaf (Name conv))) :
    List (Leaf (Name conv)) :=
  files.mergeSort fun f g => decide (key f ≤ key g)

/-- The text that is hashed: one line for each file. -/
def treeText (digest : Bytes → List Char) (rel : Leaf (Name conv) → List Char)
    (files : List (Leaf (Name conv))) : List Char :=
  files.flatMap fun f => rel f ++ ':' :: digest f.contents ++ ['\n']

/-! ## `build.rs` -/

namespace BuildScript

/-- `rel`: the relative path, with every backslash replaced. -/
def rel (f : Leaf (Name conv)) : List Char :=
  (joined f.path).map fun c => if c = '\\' then '/' else c

/-- One turn of the loop over the entries of a directory. -/
def visitEntry (dir : Dir (Name conv))
    (state : List (Dir (Name conv)) × List (Leaf (Name conv)))
    (entry : Name conv × Node (Name conv)) :
    List (Dir (Name conv)) × List (Leaf (Name conv)) :=
  match entry.2 with
  | .dir entries =>
    if isGit entry.1 then state else (⟨dir.path ++ [entry.1], entries⟩ :: state.1, state.2)
  | .file contents => (state.1, state.2 ++ [⟨dir.path, entry.1, contents⟩])

/-- The loop over the stack. -/
def walkLoop (listing : Listing (Name conv)) :
    Nat → List (Dir (Name conv)) → List (Leaf (Name conv)) → List (Leaf (Name conv))
  | 0, _, out => out
  | _ + 1, [], out => out
  | fuel + 1, dir :: stack, out =>
    let (stack, out) := (listing.list dir).foldl (visitEntry dir) (stack, out)
    walkLoop listing fuel stack out

/-- `walk`. -/
def walk (listing : Listing (Name conv)) (t : Tree conv) : List (Leaf (Name conv)) :=
  sortBy rel (walkLoop listing t.root.size [t.root] [])

/-- The tree digest of `main`, and the number of files. -/
def treeDigest (digest : Bytes → List Char) (listing : Listing (Name conv)) (t : Tree conv) :
    List Char × Nat :=
  (digest (Json.encodeUtf8 (treeText digest rel (walk listing t))), (walk listing t).length)

end BuildScript

/-! ## `verify_pinned_digest.py` -/

namespace Verifier

/-- The path that `os.walk` yields for a directory. -/
def dirPath (root : List Char) (names : List (Name conv)) : List Char :=
  names.foldl (fun path name => joinPath conv path name.chars) root

/-- `".git" not in r.split(os.sep)`. -/
def keeps (root : List Char) (names : List (Name conv)) : Bool :=
  !((dirPath root names).splitOn conv.sep).contains ".git".toList

/-- `os.path.join(r, f)`. -/
def fullPath (root : List Char) (f : Leaf (Name conv)) : List Char :=
  joinPath conv (dirPath root f.dirs) f.name.chars

/-- `os.path.relpath(f, root).replace(os.sep, "/")`. -/
def rel (f : Leaf (Name conv)) : List Char :=
  (joined f.path).map fun c => if c = conv.sep then '/' else c

/-- `os.walk`: the directories, each with its files. -/
def osWalk (listing : Listing (Name conv)) :
    Nat → List (Dir (Name conv)) → List (List (Name conv) × List (Leaf (Name conv)))
  | 0, _ => []
  | _ + 1, [] => []
  | fuel + 1, dir :: stack =>
    let entries := listing.list dir
    (dir.path, filesAmong dir.path entries) ::
      osWalk listing fuel (dirsAmong (fun _ => false) dir.path entries ++ stack)

/-- `files` in `tree_digest`. -/
def files (listing : Listing (Name conv)) (root : List Char) (t : Tree conv) :
    List (Leaf (Name conv)) :=
  sortBy (fullPath root) ((osWalk listing t.root.size [t.root]).flatMap fun r =>
    if keeps root r.1 then r.2 else [])

/-- `tree_digest`. -/
def treeDigest (digest : Bytes → List Char) (listing : Listing (Name conv)) (root : List Char)
    (t : Tree conv) : List Char × Nat :=
  (digest (Json.encodeUtf8 (treeText digest rel (files listing root t))),
    (files listing root t).length)

end Verifier

/-! ## What the walks find -/

theorem sortBy_perm (key : Leaf (Name conv) → List Char) (files : List (Leaf (Name conv))) :
    (sortBy key files).Perm files :=
  List.mergeSort_perm files _

theorem sortBy_pairwise (key : Leaf (Name conv) → List Char) (files : List (Leaf (Name conv))) :
    (sortBy key files).Pairwise fun f g => key f ≤ key g := by
  have htrans : ∀ f g h : Leaf (Name conv), decide (key f ≤ key g) = true →
      decide (key g ≤ key h) = true → decide (key f ≤ key h) = true := by
    intro f g h hfg hgh
    rw [decide_eq_true_eq] at hfg hgh ⊢
    exact hfg.trans hgh
  have htotal : ∀ f g : Leaf (Name conv),
      (decide (key f ≤ key g) || decide (key g ≤ key f)) = true := by
    intro f g
    rw [Bool.or_eq_true, decide_eq_true_eq, decide_eq_true_eq]
    exact le_total (key f) (key g)
  exact (List.pairwise_mergeSort htrans htotal files).imp fun h => of_decide_eq_true h

theorem dirsAmong_listing (skip : Name conv → Bool) (listing : Listing (Name conv))
    (d : Dir (Name conv)) :
    (dirsAmong skip d.path (listing.list d)).Perm (dirsAmong skip d.path d.entries) :=
  (listing.perm d).filterMap _

theorem filesAmong_listing (listing : Listing (Name conv)) (d : Dir (Name conv)) :
    (filesAmong d.path (listing.list d)).Perm (filesAmong d.path d.entries) :=
  (listing.perm d).filterMap _

namespace BuildScript

theorem foldl_visitEntry (dir : Dir (Name conv)) (entries : List (Name conv × Node (Name conv)))
    (stack : List (Dir (Name conv))) (out : List (Leaf (Name conv))) :
    entries.foldl (visitEntry dir) (stack, out) =
      ((dirsAmong isGit dir.path entries).reverse ++ stack,
        out ++ filesAmong dir.path entries) := by
  induction entries generalizing stack out with
  | nil => simp [dirsAmong, filesAmong]
  | cons entry entries ih =>
    obtain ⟨name, node⟩ := entry
    rw [List.foldl_cons]
    cases node with
    | file contents =>
      show entries.foldl (visitEntry dir) (stack, out ++ [⟨dir.path, name, contents⟩]) = _
      rw [ih]
      simp [dirsAmong, filesAmong]
    | dir sub =>
      by_cases hgit : isGit name = true
      · have hvisit : visitEntry dir (stack, out) (name, .dir sub) = (stack, out) := by
          simp [visitEntry, hgit]
        rw [hvisit, ih]
        simp [dirsAmong, filesAmong, hgit]
      · have hvisit : visitEntry dir (stack, out) (name, .dir sub) =
            (⟨dir.path ++ [name], sub⟩ :: stack, out) := by simp [visitEntry, hgit]
        rw [hvisit, ih]
        simp [dirsAmong, filesAmong, hgit]

theorem walkLoop_eq (listing : Listing (Name conv)) (fuel : Nat) (stack : List (Dir (Name conv)))
    (out : List (Leaf (Name conv))) :
    walkLoop listing fuel stack out = out ++
      (visited (fun d => (dirsAmong isGit d.path (listing.list d)).reverse) fuel stack).flatMap
        fun d => filesAmong d.path (listing.list d) := by
  induction fuel generalizing stack out with
  | zero => simp [walkLoop, visited]
  | succ fuel ih =>
    cases stack with
    | nil => simp [walkLoop, visited]
    | cons dir stack =>
      rw [walkLoop, foldl_visitEntry]
      dsimp only
      rw [ih, visited, List.flatMap_cons, List.append_assoc]

/-- `walk` finds the files outside the `.git` directories. -/
theorem walk_perm (listing : Listing (Name conv)) (t : Tree conv) :
    (walk listing t).Perm (t.files.filter (Outside isGit)) := by
  refine (sortBy_perm _ _).trans ?_
  rw [walkLoop_eq, List.nil_append]
  refine (@visited_files (Name conv) isGit _ _ (fun d => ?_) (filesAmong_listing listing) _ _
    (Nat.le_refl _)).trans ?_
  · exact (List.reverse_perm _).trans (dirsAmong_listing isGit listing d)
  · have hskip := @entriesUnder_skip (Name conv) isGit [] (by simp) t.entries
    exact List.Perm.of_eq hskip

end BuildScript

namespace Verifier

theorem osWalk_eq (listing : Listing (Name conv)) (fuel : Nat) (stack : List (Dir (Name conv))) :
    osWalk listing fuel stack =
      (visited (fun d => dirsAmong (fun _ => false) d.path (listing.list d)) fuel stack).map
        fun d => (d.path, filesAmong d.path (listing.list d)) := by
  induction fuel generalizing stack with
  | zero => simp [osWalk, visited]
  | succ fuel ih =>
    cases stack with
    | nil => simp [osWalk, visited]
    | cons dir stack =>
      rw [osWalk, visited, List.map_cons, ih]

theorem dirs_of_mem_filesAmong {path : List (Name conv)}
    {entries : List (Name conv × Node (Name conv))} {f : Leaf (Name conv)}
    (h : f ∈ filesAmong path entries) : f.dirs = path := by
  obtain ⟨⟨name, node⟩, -, hf⟩ := List.mem_filterMap.mp h
  cases node with
  | file contents =>
    cases hf
    rfl
  | dir sub => cases hf

/-- The verifier finds the files that it keeps. -/
theorem files_perm (listing : Listing (Name conv)) (root : List Char) (t : Tree conv) :
    (files listing root t).Perm (t.files.filter fun f => keeps root f.dirs) := by
  have hfilter : ∀ d : Dir (Name conv),
      (if keeps root d.path then filesAmong d.path (listing.list d) else []) =
        (filesAmong d.path (listing.list d)).filter fun f => keeps root f.dirs := by
    intro d
    have hdirs := fun f => @dirs_of_mem_filesAmong conv d.path (listing.list d) f
    cases hkeeps : keeps root d.path with
    | true =>
      rw [if_pos rfl, List.filter_eq_self.mpr fun f hf => by rw [hdirs f hf, hkeeps]]
    | false =>
      rw [if_neg (by simp), List.filter_eq_nil_iff.mpr fun f hf => by rw [hdirs f hf, hkeeps]; simp]
  refine (sortBy_perm _ _).trans ?_
  rw [osWalk_eq, List.flatMap_map]
  simp only [hfilter]
  rw [← List.filter_flatMap]
  have hchildren := dirsAmong_listing (fun _ => false) listing
  exact (visited_files hchildren (filesAmong_listing listing) (Nat.le_refl _)).filter _

end Verifier

end Trelyan.Pin
