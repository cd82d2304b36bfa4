import Mathlib.Data.Set.Function
import Trelyan.Lib.Hex
import Trelyan.Lib.Lines
import Trelyan.Pin.Construction

/-!
# What the tree digest binds

On POSIX, two trees with the same digest and the same number of files ought to
hold the same files.  `tree_digest_binds_iff` says when they do, for a digest
that does not collide on what the two runs hash.

Nothing marks where a name ends in the text that is hashed, so a name with a
line feed can hold a whole line of another file.  The two texts are the same
when they are the same lines, cut at every line feed; what is lost is how many
of these belong to each file (`Regrouped`).  No such loss is possible if one of
the trees has no line feed in a name (`not_regrouped_of_not_mem`).

`build.rs` also takes the name `a\b` for the path `a/b` (`Respelled`), and the
verifier leaves every file out below a root with `.git` in its path
(`Overlooked`).
-/

namespace Trelyan.Pin

open FileTree

/-! ## The digest -/

/-- SHA-512/256, of which nothing but the length is used. -/
structure Sha where
  sum : Bytes → Bytes
  length : ∀ b, (sum b).length = 32

namespace Sha

/-- `hexdigest`. -/
def hex (sha : Sha) (b : Bytes) : List Char := (sha.sum b).flatMap Hex.ofByte

theorem length_hex (sha : Sha) (b : Bytes) : (sha.hex b).length = 64 := by
  have htwo : ∀ s : Bytes, (s.flatMap Hex.ofByte).length = 2 * s.length := by
    intro s
    induction s with
    | nil => rfl
    | cons x s ih =>
      rw [List.flatMap_cons, List.length_append, ih, List.length_cons]
      simp only [Hex.ofByte, List.length_cons, List.length_nil]
      omega
  rw [hex, htwo, sha.length]

theorem newline_not_mem_hex (sha : Sha) (b : Bytes) : '\n' ∉ sha.hex b := by
  have hdigit : ∀ k < 16, '\n' ≠ Hex.digit k := by decide
  intro h
  obtain ⟨x, -, hx⟩ := List.mem_flatMap.mp h
  have hlt := x.toNat_lt
  rcases List.mem_pair.mp hx with hx | hx
  · exact hdigit _ (by omega) hx
  · exact hdigit _ (by omega) hx

end Sha

/-! ## Listings -/

section Listings

variable {conv : Convention}

/-- The line of a file, without the line feed at its end. -/
def entry (sha : Sha) (rel : Leaf (Name conv) → List Char) (f : Leaf (Name conv)) : List Char :=
  rel f ++ ':' :: sha.hex f.contents

theorem treeText_eq (sha : Sha) (rel : Leaf (Name conv) → List Char)
    (files : List (Leaf (Name conv))) :
    treeText sha.hex rel files = Lines.terminated '\n' (files.map (entry sha rel)) := by
  rw [Lines.terminated, List.flatMap_map]
  rfl

/-- What is hashed for these files. -/
def hashed (sha : Sha) (rel : Leaf (Name conv) → List Char) (files : List (Leaf (Name conv))) :
    Set Bytes :=
  {b | b = Json.encodeUtf8 (treeText sha.hex rel files) ∨ ∃ f ∈ files, b = f.contents}

/-- Cut at every line feed, the two listings are the same lines, for as many files. -/
structure SameListing (sha : Sha) (rel : Leaf (Name conv) → List Char)
    (files files' : List (Leaf (Name conv))) : Prop where
  pieces : Lines.pieces '\n' (files.map (entry sha rel)) =
    Lines.pieces '\n' (files'.map (entry sha rel))
  length : files.length = files'.length

/-- The line feeds stand in the paths of other files. -/
def Regrouped (rel : Leaf (Name conv) → List Char) (files files' : List (Leaf (Name conv))) :
    Prop :=
  files.map (fun f => (rel f).count '\n') ≠ files'.map fun f => (rel f).count '\n'

/-- A file that is not among the others has the spelling and the contents of one of them. -/
def Respelled (rel : Leaf (Name conv) → List Char) (files files' : List (Leaf (Name conv))) :
    Prop :=
  ∃ f ∈ files, f ∉ files' ∧ ∃ g ∈ files', rel g = rel f ∧ g.contents = f.contents

variable {sha : Sha} {rel : Leaf (Name conv) → List Char} {files files' : List (Leaf (Name conv))}

theorem SameListing.symm (h : SameListing sha rel files files') :
    SameListing sha rel files' files :=
  ⟨h.pieces.symm, h.length.symm⟩

/-- Equal digests and counts are equal listings. -/
theorem digest_eq_iff (hinj : Set.InjOn sha.hex (hashed sha rel files ∪ hashed sha rel files')) :
    (sha.hex (Json.encodeUtf8 (treeText sha.hex rel files)), files.length) =
        (sha.hex (Json.encodeUtf8 (treeText sha.hex rel files')), files'.length) ↔
      SameListing sha rel files files' := by
  have htext : sha.hex (Json.encodeUtf8 (treeText sha.hex rel files)) =
      sha.hex (Json.encodeUtf8 (treeText sha.hex rel files')) ↔
        treeText sha.hex rel files = treeText sha.hex rel files' := by
    rw [hinj.eq_iff (Or.inl (Or.inl rfl)) (Or.inr (Or.inl rfl))]
    exact ⟨Py.Str.encodeUtf8_injective, congrArg Json.encodeUtf8⟩
  rw [Prod.mk.injEq, htext, treeText_eq, treeText_eq, Lines.terminated_eq_iff]
  exact ⟨fun h => ⟨h.1, h.2⟩, fun h => ⟨h.pieces, h.length⟩⟩

theorem count_entry (f : Leaf (Name conv)) : (entry sha rel f).count '\n' = (rel f).count '\n' := by
  rw [entry, List.count_append, List.count_cons_of_ne (by decide),
    List.count_eq_zero.mpr (sha.newline_not_mem_hex f.contents), Nat.add_zero]

theorem counts_entries (files : List (Leaf (Name conv))) :
    Lines.counts '\n' (files.map (entry sha rel)) = files.map fun f => (rel f).count '\n' := by
  rw [Lines.counts, List.map_map]
  exact List.map_congr_left fun f _ => count_entry f

/-- Where the line feeds stand in the same paths, the listings have the same lines. -/
theorem SameListing.entries (h : SameListing sha rel files files')
    (hgroup : ¬ Regrouped rel files files') :
    files.map (entry sha rel) = files'.map (entry sha rel) := by
  refine @Lines.terminated_injOn Char _ _ '\n' _ _ ?_ (Lines.terminated_eq_iff.mpr h.pieces)
  rw [counts_entries, counts_entries]
  exact not_not.mp hgroup

/-- The digest at the end of a line has a fixed length. -/
theorem entry_eq_iff {f g : Leaf (Name conv)} :
    entry sha rel f = entry sha rel g ↔
      rel f = rel g ∧ sha.hex f.contents = sha.hex g.contents := by
  constructor
  · intro h
    obtain ⟨hrel, hhex⟩ := List.append_inj' h (by simp [Sha.length_hex])
    exact ⟨hrel, (List.cons.inj hhex).2⟩
  · rintro ⟨hrel, hhex⟩
    rw [entry, entry, hrel, hhex]

theorem SameListing.exists_of_mem (h : SameListing sha rel files files')
    (hgroup : ¬ Regrouped rel files files')
    (hinj : Set.InjOn sha.hex (hashed sha rel files ∪ hashed sha rel files'))
    {f : Leaf (Name conv)} (hf : f ∈ files) :
    ∃ g ∈ files', rel g = rel f ∧ g.contents = f.contents := by
  have hentry : entry sha rel f ∈ files'.map (entry sha rel) := by
    rw [← h.entries hgroup]
    exact List.mem_map_of_mem hf
  obtain ⟨g, hg, hgf⟩ := List.mem_map.mp hentry
  obtain ⟨hrel, hhex⟩ := entry_eq_iff.mp hgf
  exact ⟨g, hg, hrel, hinj (Or.inr (Or.inr ⟨g, hg, rfl⟩)) (Or.inl (Or.inr ⟨f, hf, rfl⟩)) hhex⟩

/-- The same files have their line feeds in the same places. -/
theorem not_regrouped_of_mem_iff (hmem : ∀ f, f ∈ files ↔ f ∈ files') (hnodup : files.Nodup)
    (hnodup' : files'.Nodup) (hsorted : files.Pairwise fun f g => rel f ≤ rel g)
    (hsorted' : files'.Pairwise fun f g => rel f ≤ rel g) : ¬ Regrouped rel files files' := by
  have hperm : files.Perm files' := (List.perm_ext_iff_of_nodup hnodup hnodup').mpr hmem
  have hrel : files.map rel = files'.map rel :=
    List.Perm.eq_of_pairwise (fun _ _ _ _ => le_antisymm) (List.pairwise_map.mpr hsorted)
      (List.pairwise_map.mpr hsorted') (hperm.map rel)
  have hcounts := congrArg (List.map (List.count '\n')) hrel
  rw [List.map_map, List.map_map] at hcounts
  exact fun h => h hcounts

/-- Without a line feed in a path of the one there is none in a path of the other. -/
theorem not_regrouped_of_not_mem (h : SameListing sha rel files files')
    (hfiles : ∀ f ∈ files, '\n' ∉ rel f) : ¬ Regrouped rel files files' := by
  have hentries : ∀ e ∈ files.map (entry sha rel), '\n' ∉ e := by
    intro e he
    obtain ⟨f, hf, rfl⟩ := List.mem_map.mp he
    rw [← List.count_eq_zero, count_entry, List.count_eq_zero]
    exact hfiles f hf
  have hcounts := Lines.counts_eq_of_not_mem (by simpa using h.length) hentries
    (Lines.terminated_eq_iff.mpr h.pieces)
  rw [counts_entries, counts_entries] at hcounts
  exact not_not.mpr hcounts

end Listings

/-! ## What a tree holds -/

/-- The files outside the `.git` directories, with their relative paths. -/
def Tree.contents {conv : Convention} (t : Tree conv) : Set (List (Name conv) × Bytes) :=
  {p | ∃ f ∈ t.files, Outside isGit f = true ∧ p = (f.path, f.contents)}

theorem file_eq {conv : Convention} {f g : Leaf (Name conv)} (hpath : f.path = g.path)
    (hcontents : f.contents = g.contents) : f = g := by
  obtain ⟨dirs, name, contents⟩ := f
  obtain ⟨dirs', name', contents'⟩ := g
  obtain ⟨hdirs, hname⟩ := List.append_inj' hpath rfl
  rw [Leaf.mk.injEq]
  exact ⟨hdirs, (List.cons.inj hname).1, hcontents⟩

theorem contents_eq_iff {conv : Convention} {t t' : Tree conv} :
    t.contents = t'.contents ↔
      ∀ f : Leaf (Name conv), Outside isGit f = true → (f ∈ t.files ↔ f ∈ t'.files) := by
  have hmem : ∀ (t : Tree conv) (f : Leaf (Name conv)),
      (f.path, f.contents) ∈ t.contents ↔ f ∈ t.files ∧ Outside isGit f = true := by
    intro t f
    constructor
    · rintro ⟨g, hg, hout, hfg⟩
      rw [Prod.mk.injEq] at hfg
      rw [file_eq hfg.1 hfg.2]
      exact ⟨hg, hout⟩
    · rintro ⟨hf, hout⟩
      exact ⟨f, hf, hout, rfl⟩
  constructor
  · intro h f hout
    have hboth := hmem t f
    rw [h, hmem t' f] at hboth
    exact ⟨fun hf => (hboth.mpr ⟨hf, hout⟩).1, fun hf => (hboth.mp ⟨hf, hout⟩).1⟩
  · intro h
    ext p
    constructor
    · rintro ⟨f, hf, hout, rfl⟩
      exact (hmem t' f).mpr ⟨(h f hout).mp hf, hout⟩
    · rintro ⟨f, hf, hout, rfl⟩
      exact (hmem t f).mpr ⟨(h f hout).mpr hf, hout⟩

variable {sha : Sha} {t t' : Tree .posix}

/-! ## `build.rs` -/

namespace BuildScript

variable {readDir readDir' : Listing (Name .posix)}

/-- Trees with the same digest and count hold the same files. -/
def Binds (sha : Sha) (readDir readDir' : Listing (Name .posix)) (t t' : Tree .posix) : Prop :=
  treeDigest sha.hex readDir t = treeDigest sha.hex readDir' t' → t.contents = t'.contents

/-- The listings are the same lines, and a grouping or a spelling is lost. -/
structure Confusable (sha : Sha) (readDir readDir' : Listing (Name .posix))
    (t t' : Tree .posix) : Prop where
  listing : SameListing sha rel (walk readDir t) (walk readDir' t')
  lost : Regrouped rel (walk readDir t) (walk readDir' t') ∨
    Respelled rel (walk readDir t) (walk readDir' t')

theorem walk_nodup (readDir : Listing (Name .posix)) (t : Tree .posix) :
    (walk readDir t).Nodup :=
  (walk_perm readDir t).nodup_iff.mpr (t.nodup_files.filter _)

theorem mem_walk_iff (h : t.contents = t'.contents) (f : Leaf (Name .posix)) :
    f ∈ walk readDir t ↔ f ∈ walk readDir' t' := by
  rw [mem_walk, mem_walk, and_congr_left_iff]
  exact contents_eq_iff.mp h f

theorem not_confusable_of_contents_eq (h : t.contents = t'.contents) :
    ¬ Confusable sha readDir readDir' t t' := by
  rintro ⟨-, hgroup | ⟨f, hf, hnot, -⟩⟩
  · exact not_regrouped_of_mem_iff (mem_walk_iff h) (walk_nodup readDir t)
      (walk_nodup readDir' t') (walk_pairwise readDir t) (walk_pairwise readDir' t') hgroup
  · exact hnot ((mem_walk_iff h f).mp hf)

theorem contents_eq_of_not_confusable
    (hinj : Set.InjOn sha.hex
      (hashed sha rel (walk readDir t) ∪ hashed sha rel (walk readDir' t')))
    (hlisting : SameListing sha rel (walk readDir t) (walk readDir' t'))
    (h : ¬ Confusable sha readDir readDir' t t') : t.contents = t'.contents := by
  have hgroup : ¬ Regrouped rel (walk readDir t) (walk readDir' t') :=
    fun hgroup => h ⟨hlisting, Or.inl hgroup⟩
  have hsub : walk readDir t ⊆ walk readDir' t' := by
    intro f hf
    by_contra hnot
    exact h ⟨hlisting, Or.inr ⟨f, hf, hnot, hlisting.exists_of_mem hgroup hinj hf⟩⟩
  -- As many files without repetition cannot be a proper part.
  have hperm : (walk readDir t).Perm (walk readDir' t') :=
    (List.subperm_of_subset (walk_nodup readDir t) hsub).perm_of_length_le hlisting.length.ge
  refine contents_eq_iff.mpr fun f hout => ?_
  have hmem := hperm.mem_iff (a := f)
  rw [mem_walk, mem_walk] at hmem
  exact ⟨fun hf => (hmem.mp ⟨hf, hout⟩).1, fun hf => (hmem.mpr ⟨hf, hout⟩).1⟩

theorem binds_iff
    (hinj : Set.InjOn sha.hex
      (hashed sha rel (walk readDir t) ∪ hashed sha rel (walk readDir' t'))) :
    Binds sha readDir readDir' t t' ↔ ¬ Confusable sha readDir readDir' t t' := by
  constructor
  · intro hbinds h
    exact not_confusable_of_contents_eq (hbinds ((digest_eq_iff hinj).mpr h.listing)) h
  · intro h hdigest
    exact contents_eq_of_not_confusable hinj ((digest_eq_iff hinj).mp hdigest) h

/-- A file of the root is spelled like one of the tests. -/
example (name : Name .posix) (h : name.chars = "tests\\speed.c".toList) :
    rel ⟨[], name, []⟩ = "tests/speed.c".toList := by
  rw [buildScript_rel, Leaf.path, List.nil_append, joined_singleton, h]
  decide

/-- No path of the two trees has a backslash, and none of the first has a line feed. -/
structure Plain (t t' : Tree .posix) : Prop where
  newline : ∀ f ∈ t.files, '\n' ∉ joined f.path
  slash : ∀ f ∈ t.files, '\\' ∉ joined f.path
  slash' : ∀ f ∈ t'.files, '\\' ∉ joined f.path

/-- Plain paths are bound. -/
theorem binds_of_plain
    (hinj : Set.InjOn sha.hex
      (hashed sha rel (walk readDir t) ∪ hashed sha rel (walk readDir' t')))
    (h : Plain t t') : Binds sha readDir readDir' t t' := by
  have hrel : ∀ f ∈ t.files, rel f = joined f.path := fun f hf => by
    rw [(rel_posix_iff f).mpr (h.slash f hf), verifier_rel_posix]
  have hrel' : ∀ f ∈ t'.files, rel f = joined f.path := fun f hf => by
    rw [(rel_posix_iff f).mpr (h.slash' f hf), verifier_rel_posix]
  rw [binds_iff hinj]
  rintro ⟨hlisting, hgroup | ⟨f, hf, hnot, g, hg, hsame, hcontents⟩⟩
  · refine not_regrouped_of_not_mem hlisting (fun f hf => ?_) hgroup
    rw [hrel f (mem_walk.mp hf).1]
    exact h.newline f (mem_walk.mp hf).1
  · have hpath : joined g.path = joined f.path := by
      rw [← hrel' g (mem_walk.mp hg).1, ← hrel f (mem_walk.mp hf).1, hsame]
    have hgf : g = f :=
      file_eq (joined_injective (path_ne_nil g) (path_ne_nil f) hpath) hcontents
    exact hnot (hgf ▸ hg)

end BuildScript

/-! ## `verify_pinned_digest.py` -/

namespace Verifier

variable {scandir scandir' : Listing (Name .posix)} {root root' : RootPath}

/-- Trees with the same digest and count hold the same files. -/
def Binds (sha : Sha) (scandir scandir' : Listing (Name .posix)) (root root' : RootPath)
    (t t' : Tree .posix) : Prop :=
  treeDigest sha.hex scandir root.chars t = treeDigest sha.hex scandir' root'.chars t' →
    t.contents = t'.contents

/-- A file that the other tree has not is left out on account of the root. -/
def Overlooked (root : RootPath) (t t' : Tree .posix) : Prop :=
  ∃ f ∈ t.files, Outside isGit f = true ∧ keeps root.chars f.dirs = false ∧ f ∉ t'.files

/-- The listings are the same lines, and a grouping or a file is lost. -/
structure Confusable (sha : Sha) (scandir scandir' : Listing (Name .posix)) (root root' : RootPath)
    (t t' : Tree .posix) : Prop where
  listing : SameListing sha rel (files scandir root.chars t) (files scandir' root'.chars t')
  lost : Regrouped rel (files scandir root.chars t) (files scandir' root'.chars t') ∨
    Overlooked root t t' ∨ Overlooked root' t' t

theorem files_nodup (scandir : Listing (Name .posix)) (root : List Char) (t : Tree .posix) :
    (files scandir root t).Nodup :=
  (files_perm scandir root t).nodup_iff.mpr (t.nodup_files.filter _)

theorem files_pairwise_rel (scandir : Listing (Name .posix)) (root : List Char)
    (t : Tree .posix) : (files scandir root t).Pairwise fun f g => rel f ≤ rel g := by
  refine (files_pairwise scandir root t).imp fun {f g} hle => ?_
  rw [fullPath_le_iff] at hle
  rwa [verifier_rel_posix, verifier_rel_posix]

/-- The path of a file can be read off its line. -/
theorem path_eq_of_rel_eq {f g : Leaf (Name .posix)} (h : rel f = rel g) : f.path = g.path := by
  rw [verifier_rel_posix, verifier_rel_posix] at h
  exact joined_injective (path_ne_nil f) (path_ne_nil g) h

theorem closes_root (root : RootPath) (h : closes .posix root.chars = true) :
    root.chars.getLast? = some Convention.posix.sep := by
  simpa [closes, root.ne_nil] using h

/-- Below a root with `.git` in its path there is no file for the verifier. -/
theorem mem_files_posix {f : Leaf (Name .posix)} :
    f ∈ files scandir root.chars t ↔
      (f ∈ t.files ∧ Outside isGit f = true) ∧ ".git".toList ∉ root.chars.splitOn '/' := by
  have hout : Outside isGit f = true ↔ ∀ name ∈ f.dirs, isGit name = false := by simp [Outside]
  rw [mem_files, keeps_iff (closes_root root), hout]
  exact ⟨fun h => ⟨⟨h.1, h.2.2⟩, h.2.1⟩, fun h => ⟨h.1.1, h.2, h.1.2⟩⟩

theorem files_eq_nil (hroot : ".git".toList ∈ root.chars.splitOn '/') :
    files scandir root.chars t = [] :=
  List.eq_nil_iff_forall_not_mem.mpr fun _ hf => (mem_files_posix.mp hf).2 hroot

theorem mem_files_iff (h : t.contents = t'.contents)
    (hlength : (files scandir root.chars t).length = (files scandir' root'.chars t').length)
    (f : Leaf (Name .posix)) :
    f ∈ files scandir root.chars t ↔ f ∈ files scandir' root'.chars t' := by
  by_cases hroot : ".git".toList ∈ root.chars.splitOn '/'
  · rw [files_eq_nil hroot, List.length_nil, eq_comm, List.length_eq_zero_iff] at hlength
    rw [files_eq_nil hroot, hlength]
  · by_cases hroot' : ".git".toList ∈ root'.chars.splitOn '/'
    · rw [files_eq_nil hroot', List.length_nil, List.length_eq_zero_iff] at hlength
      rw [files_eq_nil hroot', hlength]
    · rw [mem_files_posix, mem_files_posix, and_congr_left_iff.mpr (contents_eq_iff.mp h f)]
      exact and_congr_right fun _ => iff_of_true hroot hroot'

theorem not_confusable_of_contents_eq (h : t.contents = t'.contents) :
    ¬ Confusable sha scandir scandir' root root' t t' := by
  rintro ⟨hlisting, hgroup | ⟨f, hf, hout, -, hnot⟩ | ⟨f, hf, hout, -, hnot⟩⟩
  · exact not_regrouped_of_mem_iff (mem_files_iff h hlisting.length)
      (files_nodup scandir root.chars t) (files_nodup scandir' root'.chars t')
      (files_pairwise_rel scandir root.chars t) (files_pairwise_rel scandir' root'.chars t') hgroup
  · exact hnot ((contents_eq_iff.mp h f hout).mp hf)
  · exact hnot ((contents_eq_iff.mp h f hout).mpr hf)

/-- A file that is not overlooked is in the other tree. -/
theorem mem_of_not_overlooked
    (hinj : Set.InjOn sha.hex (hashed sha rel (files scandir root.chars t) ∪
      hashed sha rel (files scandir' root'.chars t')))
    (hlisting : SameListing sha rel (files scandir root.chars t) (files scandir' root'.chars t'))
    (hgroup : ¬ Regrouped rel (files scandir root.chars t) (files scandir' root'.chars t'))
    (hkept : ¬ Overlooked root t t') {f : Leaf (Name .posix)} (hout : Outside isGit f = true)
    (hf : f ∈ t.files) : f ∈ t'.files := by
  by_contra hnot
  have hkeeps : keeps root.chars f.dirs = true := by
    by_contra hkeeps
    exact hkept ⟨f, hf, hout, by simpa using hkeeps, hnot⟩
  obtain ⟨g, hg, hrel, hcontents⟩ :=
    hlisting.exists_of_mem hgroup hinj (mem_files.mpr ⟨hf, hkeeps⟩)
  have hgf : g = f := file_eq (path_eq_of_rel_eq hrel) hcontents
  exact hnot (hgf ▸ (mem_files.mp hg).1)

theorem contents_eq_of_not_confusable
    (hinj : Set.InjOn sha.hex (hashed sha rel (files scandir root.chars t) ∪
      hashed sha rel (files scandir' root'.chars t')))
    (hlisting : SameListing sha rel (files scandir root.chars t) (files scandir' root'.chars t'))
    (h : ¬ Confusable sha scandir scandir' root root' t t') : t.contents = t'.contents := by
  have hgroup : ¬ Regrouped rel (files scandir root.chars t) (files scandir' root'.chars t') :=
    fun hgroup => h ⟨hlisting, Or.inl hgroup⟩
  have hkept : ¬ Overlooked root t t' := fun hlost => h ⟨hlisting, Or.inr (Or.inl hlost)⟩
  have hkept' : ¬ Overlooked root' t' t := fun hlost => h ⟨hlisting, Or.inr (Or.inr hlost)⟩
  refine contents_eq_iff.mpr fun f hout => ⟨?_, ?_⟩
  · exact mem_of_not_overlooked hinj hlisting hgroup hkept hout
  · exact mem_of_not_overlooked (Set.union_comm _ _ ▸ hinj) hlisting.symm (hgroup ∘ Ne.symm)
      hkept' hout

theorem binds_iff
    (hinj : Set.InjOn sha.hex (hashed sha rel (files scandir root.chars t) ∪
      hashed sha rel (files scandir' root'.chars t'))) :
    Binds sha scandir scandir' root root' t t' ↔
      ¬ Confusable sha scandir scandir' root root' t t' := by
  constructor
  · intro hbinds h
    exact not_confusable_of_contents_eq (hbinds ((digest_eq_iff hinj).mpr h.listing)) h
  · intro h hdigest
    exact contents_eq_of_not_confusable hinj ((digest_eq_iff hinj).mp hdigest) h

/-- No path of the first tree has a line feed, and the roots are not inside a `.git`. -/
structure Plain (root root' : RootPath) (t : Tree .posix) : Prop where
  newline : ∀ f ∈ t.files, '\n' ∉ joined f.path
  root : ".git".toList ∉ root.chars.splitOn '/'
  root' : ".git".toList ∉ root'.chars.splitOn '/'

/-- Plain paths are bound. -/
theorem binds_of_plain
    (hinj : Set.InjOn sha.hex (hashed sha rel (files scandir root.chars t) ∪
      hashed sha rel (files scandir' root'.chars t')))
    (h : Plain root root' t) : Binds sha scandir scandir' root root' t t' := by
  have hkept : ∀ {root : RootPath} {t t' : Tree .posix},
      ".git".toList ∉ root.chars.splitOn '/' → ¬ Overlooked root t t' := by
    rintro root t t' hroot ⟨f, hf, hout, hkeeps, -⟩
    have hmem := (@mem_files_posix t scandir root f).mpr ⟨⟨hf, hout⟩, hroot⟩
    rw [mem_files, hkeeps] at hmem
    exact Bool.false_ne_true hmem.2
  rw [binds_iff hinj]
  rintro ⟨hlisting, hgroup | hlost | hlost⟩
  · refine not_regrouped_of_not_mem hlisting (fun f hf => ?_) hgroup
    rw [verifier_rel_posix]
    exact h.newline f (mem_files.mp hf).1
  · exact hkept h.root hlost
  · exact hkept h.root' hlost

end Verifier

/-! ## Both gates -/

/-- For a digest that does not collide on what is hashed, each gate binds two trees to one
another exactly when it does not confuse them, and so whenever their paths are plain. -/
theorem tree_digest_binds_iff (sha : Sha)
    (readDir readDir' scandir scandir' : Listing (Name .posix)) (root root' : RootPath)
    (t t' : Tree .posix)
    (hrust : Set.InjOn sha.hex (hashed sha BuildScript.rel (BuildScript.walk readDir t) ∪
      hashed sha BuildScript.rel (BuildScript.walk readDir' t')))
    (hpython : Set.InjOn sha.hex
      (hashed sha Verifier.rel (Verifier.files scandir root.chars t) ∪
        hashed sha Verifier.rel (Verifier.files scandir' root'.chars t'))) :
    (BuildScript.Binds sha readDir readDir' t t' ↔
      ¬ BuildScript.Confusable sha readDir readDir' t t') ∧
    (Verifier.Binds sha scandir scandir' root root' t t' ↔
      ¬ Verifier.Confusable sha scandir scandir' root root' t t') ∧
    (BuildScript.Plain t t' → BuildScript.Binds sha readDir readDir' t t') ∧
    (Verifier.Plain root root' t → Verifier.Binds sha scandir scandir' root root' t t') :=
  ⟨BuildScript.binds_iff hrust, Verifier.binds_iff hpython, BuildScript.binds_of_plain hrust,
    Verifier.binds_of_plain hpython⟩

/-! ## A name that holds a line -/

/-- A digest that tells no bytes from some. -/
def sampleSha : Sha where
  sum b := List.replicate 32 (if b = [] then 0 else 1)
  length _ := List.length_replicate

/-- The name of a file, and behind it the digest of no bytes and the name of another. -/
def lineName (first second : Char) : List Char :=
  first :: ':' :: (List.replicate 64 '0' ++ ['\n', second])

def nameA : Name .posix := ⟨['a'], by decide, List.all_eq_true.mp (by decide), by decide, nofun⟩
def nameC : Name .posix := ⟨['c'], by decide, List.all_eq_true.mp (by decide), by decide, nofun⟩
def nameAB : Name .posix :=
  ⟨lineName 'a' 'b', by decide, List.all_eq_true.mp (by decide), by decide, nofun⟩
def nameBC : Name .posix :=
  ⟨lineName 'b' 'c', by decide, List.all_eq_true.mp (by decide), by decide, nofun⟩

/-- Two empty files, the first of which has a name that holds a line. -/
def lineFirst : Tree .posix where
  entries := [(nameAB, .file []), (nameC, .file [])]
  distinct := by
    have hne : nameAB ≠ nameC := fun h => absurd (congrArg Name.chars h) (by decide)
    simp [entriesUnder, filesUnder, Leaf.path, hne]

/-- Two empty files, the second of which has a name that holds a line. -/
def lineSecond : Tree .posix where
  entries := [(nameA, .file []), (nameBC, .file [])]
  distinct := by
    have hne : nameA ≠ nameBC := fun h => absurd (congrArg Name.chars h) (by decide)
    simp [entriesUnder, filesUnder, Leaf.path, hne]

theorem sortBy_pair {conv : Convention} {key : Leaf (Name conv) → List Char}
    {f g : Leaf (Name conv)} (h : key f ≤ key g) : sortBy key [f, g] = [f, g] := by
  refine List.mergeSort_of_pairwise ?_
  simpa using h

theorem walk_lineFirst : BuildScript.walk Listing.inOrder lineFirst =
    [⟨[], nameAB, []⟩, ⟨[], nameC, []⟩] :=
  sortBy_pair (by decide)

theorem walk_lineSecond : BuildScript.walk Listing.inOrder lineSecond =
    [⟨[], nameA, []⟩, ⟨[], nameBC, []⟩] :=
  sortBy_pair (by decide)

theorem files_lineFirst : Verifier.files Listing.inOrder ['.'] lineFirst =
    [⟨[], nameAB, []⟩, ⟨[], nameC, []⟩] :=
  sortBy_pair (by decide)

theorem files_lineSecond : Verifier.files Listing.inOrder ['.'] lineSecond =
    [⟨[], nameA, []⟩, ⟨[], nameBC, []⟩] :=
  sortBy_pair (by decide)

/-- What is hashed for either tree. -/
def lineText : List Char :=
  lineName 'a' 'b' ++ ':' :: (List.replicate 64 '0' ++ '\n' :: 'c' :: ':' ::
    (List.replicate 64 '0' ++ ['\n']))

theorem hashed_lines {rel : Leaf (Name .posix) → List Char} {files : List (Leaf (Name .posix))}
    (h : treeText sampleSha.hex rel files = lineText) (hempty : ∀ f ∈ files, f.contents = []) :
    ∀ b ∈ hashed sampleSha rel files, b = Json.encodeUtf8 lineText ∨ b = [] := by
  rintro b (rfl | ⟨f, hf, rfl⟩)
  · exact Or.inl (congrArg Json.encodeUtf8 h)
  · exact Or.inr (hempty f hf)

theorem injOn_lines {s s' : Set Bytes} (h : ∀ b ∈ s, b = Json.encodeUtf8 lineText ∨ b = [])
    (h' : ∀ b ∈ s', b = Json.encodeUtf8 lineText ∨ b = []) :
    Set.InjOn sampleSha.hex (s ∪ s') := by
  have hne : Json.encodeUtf8 lineText ≠ [] := by
    intro hnil
    have htext : lineText = [] := Py.Str.encodeUtf8_injective hnil
    exact absurd htext (List.cons_ne_nil _ _)
  have hhex : ∀ b : Bytes, sampleSha.hex b =
      (List.replicate 32 (if b = [] then (0 : UInt8) else 1)).flatMap Hex.ofByte := fun _ => rfl
  have hdigest : sampleSha.hex (Json.encodeUtf8 lineText) ≠ sampleSha.hex [] := by
    rw [hhex, hhex, if_neg hne, if_pos rfl]
    decide
  have hall : ∀ b ∈ s ∪ s', b = Json.encodeUtf8 lineText ∨ b = [] :=
    fun b hb => hb.elim (h b) (h' b)
  intro b hb b' hb' heq
  rcases hall b hb with hb | hb <;> rcases hall b' hb' with hb' | hb' <;> rw [hb, hb'] at heq ⊢
  · exact absurd heq hdigest
  · exact absurd heq.symm hdigest

/-- The four runs hash one text. -/
theorem treeText_walk_lineFirst : treeText sampleSha.hex BuildScript.rel
    (BuildScript.walk Listing.inOrder lineFirst) = lineText := by
  rw [walk_lineFirst]
  decide +kernel

theorem treeText_walk_lineSecond : treeText sampleSha.hex BuildScript.rel
    (BuildScript.walk Listing.inOrder lineSecond) = lineText := by
  rw [walk_lineSecond]
  decide +kernel

theorem treeText_files_lineFirst : treeText sampleSha.hex Verifier.rel
    (Verifier.files Listing.inOrder ['.'] lineFirst) = lineText := by
  rw [files_lineFirst]
  decide +kernel

theorem treeText_files_lineSecond : treeText sampleSha.hex Verifier.rel
    (Verifier.files Listing.inOrder ['.'] lineSecond) = lineText := by
  rw [files_lineSecond]
  decide +kernel

theorem injOn_walk_lines : Set.InjOn sampleSha.hex
    (hashed sampleSha BuildScript.rel (BuildScript.walk Listing.inOrder lineFirst) ∪
      hashed sampleSha BuildScript.rel (BuildScript.walk Listing.inOrder lineSecond)) := by
  refine injOn_lines (hashed_lines treeText_walk_lineFirst ?_)
    (hashed_lines treeText_walk_lineSecond ?_)
  · rw [walk_lineFirst]
    simp
  · rw [walk_lineSecond]
    simp

theorem injOn_files_lines : Set.InjOn sampleSha.hex
    (hashed sampleSha Verifier.rel (Verifier.files Listing.inOrder ['.'] lineFirst) ∪
      hashed sampleSha Verifier.rel (Verifier.files Listing.inOrder ['.'] lineSecond)) := by
  refine injOn_lines (hashed_lines treeText_files_lineFirst ?_)
    (hashed_lines treeText_files_lineSecond ?_)
  · rw [files_lineFirst]
    simp
  · rw [files_lineSecond]
    simp

theorem contents_lines_ne : lineFirst.contents ≠ lineSecond.contents := by
  intro h
  have hmem := (contents_eq_iff.mp h ⟨[], nameC, []⟩ rfl).mp (List.mem_cons_of_mem _ (by
    exact List.mem_singleton.mpr rfl))
  rcases List.mem_pair.mp hmem with hmem | hmem
  · exact absurd (congrArg (fun f => f.name.chars) hmem) (by decide)
  · exact absurd (congrArg (fun f => f.name.chars) hmem) (by decide)

/-- The two trees have the same lines, digest and count for either gate, and hold different
files. -/
theorem line_in_name_confused :
    (Set.InjOn sampleSha.hex
      (hashed sampleSha BuildScript.rel (BuildScript.walk Listing.inOrder lineFirst) ∪
        hashed sampleSha BuildScript.rel (BuildScript.walk Listing.inOrder lineSecond)) ∧
      ¬ BuildScript.Binds sampleSha Listing.inOrder Listing.inOrder lineFirst lineSecond) ∧
    (Set.InjOn sampleSha.hex
      (hashed sampleSha Verifier.rel (Verifier.files Listing.inOrder ['.'] lineFirst) ∪
        hashed sampleSha Verifier.rel (Verifier.files Listing.inOrder ['.'] lineSecond)) ∧
      ¬ Verifier.Binds sampleSha Listing.inOrder Listing.inOrder ⟨['.'], by decide⟩
        ⟨['.'], by decide⟩ lineFirst lineSecond) := by
  refine ⟨⟨injOn_walk_lines, fun hbinds => contents_lines_ne (hbinds ?_)⟩,
    ⟨injOn_files_lines, fun hbinds => contents_lines_ne (hbinds ?_)⟩⟩
  · rw [BuildScript.treeDigest, BuildScript.treeDigest, treeText_walk_lineFirst,
      treeText_walk_lineSecond, walk_lineFirst, walk_lineSecond]
    rfl
  · rw [Verifier.treeDigest, Verifier.treeDigest, treeText_files_lineFirst,
      treeText_files_lineSecond, files_lineFirst, files_lineSecond]
    rfl

theorem sample_tree_digest_binds :
    (BuildScript.Binds sampleSha Listing.inOrder Listing.inOrder lineFirst lineSecond ↔
      ¬ BuildScript.Confusable sampleSha Listing.inOrder Listing.inOrder lineFirst lineSecond) ∧
    (Verifier.Binds sampleSha Listing.inOrder Listing.inOrder ⟨['.'], by decide⟩
        ⟨['.'], by decide⟩ lineFirst lineSecond ↔
      ¬ Verifier.Confusable sampleSha Listing.inOrder Listing.inOrder ⟨['.'], by decide⟩
        ⟨['.'], by decide⟩ lineFirst lineSecond) := by
  have h := tree_digest_binds_iff sampleSha Listing.inOrder Listing.inOrder Listing.inOrder
    Listing.inOrder ⟨['.'], by decide⟩ ⟨['.'], by decide⟩ lineFirst lineSecond injOn_walk_lines
    injOn_files_lines
  exact ⟨h.1, h.2.1⟩

end Trelyan.Pin
