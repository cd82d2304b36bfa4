import Trelyan.Pin.Walks

/-!
# Where the two tree digests are one

`build.rs` claims the same construction as `verify_pinned_digest.py`.
`same_construction_iff` says for which trees and roots that is so.

The two must select the same files, which a `.git` in the path of the root
prevents.  On POSIX no selected path may have a backslash in it, which only
`build.rs` rewrites.  On Windows no two selected paths may fork at a separator
of one of them and a character of the other that stands between `/` and `\` in
the order of characters, such as a digit or a capital: `build.rs` sorts the one
and the verifier the other to the front.
-/

namespace Trelyan.Pin

open FileTree

variable {conv : Convention}

/-! ## Joined paths -/

theorem joined_cons {names : List (Name conv)} (h : names ≠ []) (name : Name conv) :
    joined (name :: names) = name.chars ++ conv.sep :: joined names := by
  unfold joined
  rw [List.map_cons, List.intercalate_cons_of_ne_nil (by simpa using h), List.append_assoc]
  rfl

theorem joined_singleton (name : Name conv) : joined [name] = name.chars := by
  unfold joined
  rw [List.map_singleton, List.intercalate_singleton]

theorem joined_concat {names : List (Name conv)} (h : names ≠ []) (name : Name conv) :
    joined (names ++ [name]) = joined names ++ conv.sep :: name.chars := by
  induction names with
  | nil => exact absurd rfl h
  | cons first names ih =>
    cases names with
    | nil => rw [List.singleton_append, joined_cons (by simp), joined_singleton, joined_singleton]
    | cons second names =>
      rw [List.cons_append, joined_cons (by simp) first, ih (by simp),
        joined_cons (List.cons_ne_nil second names) first, List.append_assoc, List.cons_append]

theorem sep_not_mem (name : Name conv) : conv.sep ∉ name.chars := by
  intro h
  have := name.allowed _ h
  cases conv <;> cases this

theorem slash_not_mem (name : Name conv) : '/' ∉ name.chars := by
  intro h
  have := name.allowed _ h
  cases conv <;> cases this

theorem splitOn_joined {names : List (Name conv)} (h : names ≠ []) :
    (joined names).splitOn conv.sep = names.map Name.chars := by
  refine List.splitOn_intercalate conv.sep (fun chars hchars => ?_) (by simpa using h)
  obtain ⟨name, -, rfl⟩ := List.mem_map.mp hchars
  exact sep_not_mem name

/-- A path determines its names. -/
theorem joined_injective {a b : List (Name conv)} (ha : a ≠ []) (hb : b ≠ [])
    (h : joined a = joined b) : a = b := by
  have hchars : a.map Name.chars = b.map Name.chars := by
    rw [← splitOn_joined ha, ← splitOn_joined hb, h]
  exact List.map_injective_iff.mpr (fun _ _ => Name.ext) hchars

theorem path_ne_nil (f : Leaf (Name conv)) : f.path ≠ [] := by simp [Leaf.path]

/-! ## Full paths -/

/-- What stands in front of the relative paths. -/
def base (conv : Convention) (root : List Char) : List Char :=
  if closes conv root then root else root ++ [conv.sep]

theorem joinPath_eq (path name : List Char) : joinPath conv path name = base conv path ++ name := by
  unfold joinPath base
  split_ifs <;> simp

theorem getLast?_of_isDrive {path : List Char} (h : isDrive path = true) :
    path.getLast? = some ':' := by
  unfold isDrive at h
  split at h
  · rfl
  · cases h

/-- A path that ends with a name takes a separator. -/
theorem closes_append_name (a : List Char) (name : Name conv) :
    closes conv (a ++ name.chars) = false := by
  have hlast : (a ++ name.chars).getLast? = some (name.chars.getLast name.ne_nil) := by
    rw [List.getLast?_append_of_ne_nil _ name.ne_nil, List.getLast?_eq_some_getLast]
  have hmem : name.chars.getLast name.ne_nil ∈ name.chars := List.getLast_mem name.ne_nil
  have hallowed := name.allowed _ hmem
  have hempty : (a ++ name.chars).isEmpty = false := by simp [name.ne_nil]
  generalize name.chars.getLast name.ne_nil = c at hlast hallowed
  cases conv with
  | posix =>
    have hc : c ≠ '/' := by
      rintro rfl
      cases hallowed
    simp [closes, hempty, hlast, Convention.sep, hc]
  | windows =>
    have hc : c ≠ '\\' ∧ c ≠ '/' ∧ c ≠ ':' := by
      refine ⟨?_, ?_, ?_⟩ <;> rintro rfl <;> cases hallowed
    have hdrive : isDrive (a ++ name.chars) = false := by
      by_contra hdrive
      have := getLast?_of_isDrive (by simpa using hdrive)
      rw [hlast] at this
      exact hc.2.2 (Option.some.inj this)
    simp [closes, hempty, hlast, Convention.sep, hc, hdrive]

theorem closes_append_joined (a : List Char) {names : List (Name conv)} (h : names ≠ []) :
    closes conv (a ++ joined names) = false := by
  induction names generalizing a with
  | nil => exact absurd rfl h
  | cons name names ih =>
    cases names with
    | nil =>
      rw [joined_singleton]
      exact closes_append_name a name
    | cons second names =>
      have hcons : a ++ joined (name :: second :: names) =
          (a ++ name.chars ++ [conv.sep]) ++ joined (second :: names) := by
        rw [joined_cons (by simp)]
        simp
      rw [hcons]
      exact ih _ (by simp)

theorem dirPath_eq (root : List Char) {names : List (Name conv)} (h : names ≠ []) :
    Verifier.dirPath root names = base conv root ++ joined names := by
  induction names using List.reverseRecOn with
  | nil => exact absurd rfl h
  | append_singleton names name ih =>
    have hfold : Verifier.dirPath root (names ++ [name]) =
        joinPath conv (Verifier.dirPath root names) name.chars := by
      simp [Verifier.dirPath]
    rw [hfold, joinPath_eq]
    by_cases hnil : names = []
    · subst hnil
      rw [List.nil_append, joined_singleton]
      rfl
    · rw [ih hnil, base, if_neg (by rw [closes_append_joined _ hnil]; simp), joined_concat hnil]
      simp

theorem fullPath_eq (root : List Char) (f : Leaf (Name conv)) :
    Verifier.fullPath root f = base conv root ++ joined f.path := by
  rw [← dirPath_eq root (path_ne_nil f)]
  simp [Verifier.fullPath, Verifier.dirPath, Leaf.path]

/-! ## The selection -/

/-- The verifier looks for `.git` among the names of the root and of the directories, if it
can take them apart. -/
theorem keeps_iff {root : List Char}
    (hroot : closes conv root = true → root.getLast? = some conv.sep)
    (names : List (Name conv)) :
    Verifier.keeps root names = true ↔
      ".git".toList ∉ root.splitOn conv.sep ∧ ∀ name ∈ names, isGit name = false := by
  have hkeeps : Verifier.keeps root names = true ↔
      ".git".toList ∉ (Verifier.dirPath root names).splitOn conv.sep := by
    simp [Verifier.keeps]
  have hgit : (∀ name ∈ names, isGit name = false) ↔ ".git".toList ∉ names.map Name.chars := by
    simp [isGit]
  rw [hkeeps, hgit]
  by_cases hnames : names = []
  · subst hnames
    simp [Verifier.dirPath]
  · rw [dirPath_eq root hnames, base]
    split_ifs with hcloses
    · obtain ⟨p, rfl⟩ := List.getLast?_eq_some_iff.mp (hroot hcloses)
      rw [List.append_assoc, List.singleton_append, List.splitOn_append_cons_self,
        List.splitOn_append_cons_self, splitOn_joined hnames, List.splitOn_nil, List.mem_append,
        List.mem_append, List.mem_singleton]
      simp
    · rw [List.append_assoc, List.singleton_append, List.splitOn_append_cons_self,
        splitOn_joined hnames, List.mem_append, not_or]

/-- The two select the same files if `.git` is no name of the root, or nothing is to select. -/
theorem selection_iff {root : List Char}
    (hroot : closes conv root = true → root.getLast? = some conv.sep) (t : Tree conv) :
    (∀ f ∈ t.files, Verifier.keeps root f.dirs = Outside isGit f) ↔
      ".git".toList ∉ root.splitOn conv.sep ∨ ∀ f ∈ t.files, Outside isGit f = false := by
  have houtside : ∀ f : Leaf (Name conv),
      Outside isGit f = true ↔ ∀ name ∈ f.dirs, isGit name = false := by
    intro f
    simp [Outside]
  by_cases hgit : ".git".toList ∈ root.splitOn conv.sep
  · have hnone : ∀ f : Leaf (Name conv), Verifier.keeps root f.dirs = false := by
      intro f
      rw [Bool.eq_false_iff, Ne, keeps_iff hroot]
      exact fun h => h.1 hgit
    constructor
    · intro h
      exact Or.inr fun f hf => (h f hf).symm.trans (hnone f)
    · rintro (h | h) f hf
      · exact absurd hgit h
      · rw [hnone f, h f hf]
  · have hall : ∀ f : Leaf (Name conv), Verifier.keeps root f.dirs = Outside isGit f := by
      intro f
      rw [Bool.eq_iff_iff, keeps_iff hroot, houtside]
      exact ⟨And.right, fun h => ⟨hgit, h⟩⟩
    exact iff_of_true (fun f _ => hall f) (Or.inl hgit)

/-! ## The order of paths -/

theorem append_lt_append_iff (a s t : List Char) : a ++ s < a ++ t ↔ s < t := by
  induction a with
  | nil => rfl
  | cons c a ih =>
    rw [List.cons_append, List.cons_append, List.cons_lt_cons_iff, ih]
    simp

/-- The paths fork at a separator of the first and at a character of the second that the
two separators stand on either side of. -/
def Crossed (s t : List Char) : Prop :=
  ∃ u v w c, s = u ++ '/' :: v ∧ t = u ++ c :: w ∧ '/' < c ∧ c < '\\'

/-- The path with slashes. -/
def slashed (s : List Char) : List Char := s.map fun c => if c = '\\' then '/' else c

theorem Crossed.cons {s t : List Char} (h : Crossed s t) (c : Char) :
    Crossed (c :: s) (c :: t) := by
  obtain ⟨u, v, w, d, rfl, rfl, hlt⟩ := h
  exact ⟨c :: u, v, w, d, rfl, rfl, hlt⟩

theorem slashed_cons (c : Char) (s : List Char) :
    slashed (c :: s) = (if c = '\\' then '/' else c) :: slashed s := rfl

/-- No other character becomes a slash. -/
theorem slashed_char_inj {a b : Char} (ha : '/' ≠ a) (hb : '/' ≠ b)
    (h : (if a = '\\' then '/' else a) = if b = '\\' then '/' else b) : a = b := by
  by_cases ha' : a = '\\' <;> by_cases hb' : b = '\\'
  · rw [ha', hb']
  · rw [if_pos ha', if_neg hb'] at h
    exact absurd h hb
  · rw [if_neg ha', if_pos hb'] at h
    exact absurd h.symm ha
  · rwa [if_neg ha', if_neg hb'] at h

/-- A character sorts against a slash as against a backslash, unless it stands between them. -/
theorem slash_lt_iff {c : Char} (hc : '/' ≠ c) (hc' : c ≠ '\\') (h : ¬ ('/' < c ∧ c < '\\')) :
    ('/' < c ↔ '\\' < c) ∧ (c < '/' ↔ c < '\\') := by
  have hslashes : ('/' : Char) < '\\' := by decide
  refine ⟨⟨fun hlt => ?_, hslashes.trans⟩, ⟨fun hlt => hlt.trans hslashes, fun hlt => ?_⟩⟩
  · exact lt_of_le_of_ne (not_lt.mp fun hlt' => h ⟨hlt, hlt'⟩) (Ne.symm hc')
  · exact lt_of_le_of_ne (not_lt.mp fun hlt' => h ⟨hlt', hlt⟩) (Ne.symm hc)

/-- A slash sorts as a backslash does, unless the paths are crossed. -/
theorem slashed_lt_iff {s t : List Char} (hs : '/' ∉ s) (ht : '/' ∉ t)
    (hst : ¬ Crossed (slashed s) (slashed t)) (hts : ¬ Crossed (slashed t) (slashed s)) :
    slashed s < slashed t ↔ s < t := by
  induction s generalizing t with
  | nil =>
    cases t with
    | nil => rfl
    | cons b t => exact iff_of_true (by simp [slashed]) (by simp)
  | cons a s ih =>
    cases t with
    | nil => exact iff_of_false (by simp [slashed]) (by simp)
    | cons b t =>
      rw [slashed_cons, slashed_cons] at hst hts
      rw [slashed_cons, slashed_cons, List.cons_lt_cons_iff, List.cons_lt_cons_iff]
      rw [List.mem_cons, not_or] at hs ht
      by_cases hab : a = b
      · subst hab
        have ih := ih hs.2 ht.2 (fun h => hst (h.cons _)) (fun h => hts (h.cons _))
        simp [ih]
      · have hne := mt (slashed_char_inj hs.1 ht.1) hab
        -- The paths fork here, and only a separator can sort differently.
        have hlt : ((if a = '\\' then '/' else a) < if b = '\\' then '/' else b) ↔ a < b := by
          by_cases ha : a = '\\'
          · have hb : b ≠ '\\' := fun hb => hab (ha.trans hb.symm)
            rw [if_pos ha, if_neg hb] at hst ⊢
            rw [ha]
            exact (slash_lt_iff ht.1 hb fun h => hst ⟨[], slashed s, slashed t, b, rfl, rfl, h⟩).1
          · by_cases hb : b = '\\'
            · rw [if_neg ha, if_pos hb] at hts ⊢
              rw [hb]
              exact (slash_lt_iff hs.1 ha fun h =>
                hts ⟨[], slashed t, slashed s, a, rfl, rfl, h⟩).2
            · rw [if_neg ha, if_neg hb]
        simp only [hlt, hne, hab, false_and, or_false]

/-- Crossed paths sort differently. -/
theorem Crossed.lt {s t : List Char} (hs : '/' ∉ s) (ht : '/' ∉ t)
    (h : Crossed (slashed s) (slashed t)) : slashed s < slashed t ∧ t < s := by
  obtain ⟨u, v, w, c, hsu, htu, hlow, hhigh⟩ := h
  refine ⟨?_, ?_⟩
  · rw [hsu, htu, append_lt_append_iff, List.cons_lt_cons_iff]
    exact Or.inl hlow
  · induction u generalizing s t with
    | nil =>
      cases s with
      | nil => cases hsu
      | cons a s =>
        cases t with
        | nil => cases htu
        | cons b t =>
          rw [List.mem_cons, not_or] at hs
          have ha : (if a = '\\' then '/' else a) = '/' := (List.cons.inj hsu).1
          have hb : (if b = '\\' then '/' else b) = c := (List.cons.inj htu).1
          have hac : a = '\\' := by
            by_contra hne
            rw [if_neg hne] at ha
            exact hs.1 ha.symm
          have hbc : b = c := by
            by_cases hb' : b = '\\'
            · rw [if_pos hb'] at hb
              exact absurd hb hlow.ne
            · rwa [if_neg hb'] at hb
          rw [List.cons_lt_cons_iff, hac, hbc]
          exact Or.inl hhigh
    | cons d u ih =>
      cases s with
      | nil => cases hsu
      | cons a s =>
        cases t with
        | nil => cases htu
        | cons b t =>
          obtain ⟨ha, hs'⟩ := List.cons.inj hsu
          obtain ⟨hb, ht'⟩ := List.cons.inj htu
          rw [List.mem_cons, not_or] at hs ht
          have hab : a = b := slashed_char_inj hs.1 ht.1 (ha.trans hb.symm)
          rw [List.cons_lt_cons_iff]
          exact Or.inr ⟨hab.symm, ih hs.2 ht.2 hs' ht'⟩

/-! ## One construction -/

/-- A path that names a directory. -/
structure RootPath where
  chars : List Char
  ne_nil : chars ≠ []

/-- The two gates select the same files in the same order, hash the same bytes, and so find
the same digest and count. -/
structure SameConstruction (digest : Bytes → List Char) (readDir scandir : Listing (Name conv))
    (root : RootPath) (t : Tree conv) : Prop where
  files : BuildScript.walk readDir t = Verifier.files scandir root.chars t
  text : Json.encodeUtf8 (treeText digest BuildScript.rel (BuildScript.walk readDir t)) =
    Json.encodeUtf8 (treeText digest Verifier.rel (Verifier.files scandir root.chars t))
  digest : BuildScript.treeDigest digest readDir t =
    Verifier.treeDigest digest scandir root.chars t

/-- The trees and roots for which the two constructions come to the same. -/
structure Alike (root : RootPath) (t : Tree conv) : Prop where
  selection : ∀ f ∈ t.files, Verifier.keeps root.chars f.dirs = Outside isGit f
  names : conv = .posix → ∀ f ∈ t.files, Outside isGit f = true → '\\' ∉ joined f.path
  order : conv = .windows → ∀ f ∈ t.files, ∀ g ∈ t.files, Outside isGit f = true →
    Outside isGit g = true → ¬ Crossed (slashed (joined f.path)) (slashed (joined g.path))

theorem buildScript_rel (f : Leaf (Name conv)) : BuildScript.rel f = slashed (joined f.path) := rfl

/-- The lines are alike if the relative paths are. -/
theorem treeText_eq_iff (digest : Bytes → List Char) {rel rel' : Leaf (Name conv) → List Char}
    (hlen : ∀ f, (rel f).length = (rel' f).length) (files : List (Leaf (Name conv))) :
    treeText digest rel files = treeText digest rel' files ↔ ∀ f ∈ files, rel f = rel' f := by
  induction files with
  | nil => exact iff_of_true rfl (by simp)
  | cons f files ih =>
    have hcons : ∀ r : Leaf (Name conv) → List Char, treeText digest r (f :: files) =
        r f ++ (':' :: digest f.contents ++ ['\n'] ++ treeText digest r files) := by
      intro r
      simp [treeText]
    rw [hcons, hcons, List.forall_mem_cons, ← ih]
    constructor
    · intro h
      obtain ⟨hrel, hrest⟩ := List.append_inj h (hlen f)
      exact ⟨hrel, List.append_cancel_left hrest⟩
    · rintro ⟨hrel, hrest⟩
      rw [hrel, hrest]

theorem rel_length (f : Leaf (Name conv)) :
    (BuildScript.rel f).length = (Verifier.rel f).length := by
  simp [BuildScript.rel, Verifier.rel]

theorem verifier_rel_posix (f : Leaf (Name .posix)) : Verifier.rel f = joined f.path := by
  have hid : ∀ c : Char, (if c = Convention.posix.sep then '/' else c) = c := by
    intro c
    split_ifs with h
    · exact h.symm
    · rfl
  show (joined f.path).map _ = _
  simp only [hid, List.map_id']

theorem rel_posix_iff (f : Leaf (Name .posix)) :
    BuildScript.rel f = Verifier.rel f ↔ '\\' ∉ joined f.path := by
  rw [verifier_rel_posix, buildScript_rel, slashed]
  constructor
  · intro h hmem
    have hslash : '\\' ∈ (joined f.path).map fun c => if c = '\\' then '/' else c := by
      rw [h]
      exact hmem
    obtain ⟨c, -, hc⟩ := List.mem_map.mp hslash
    by_cases hslash : c = '\\'
    · rw [if_pos hslash] at hc
      exact absurd hc (by decide)
    · rw [if_neg hslash] at hc
      exact hslash hc
  · intro h
    have hid : ∀ c ∈ joined f.path, (if c = '\\' then '/' else c) = id c := by
      intro c hc
      have hne : c ≠ '\\' := by
        rintro rfl
        exact h hc
      rw [if_neg hne]
      rfl
    rw [List.map_congr_left hid, List.map_id]

theorem rel_windows (f : Leaf (Name .windows)) : BuildScript.rel f = Verifier.rel f := rfl

theorem slash_not_mem_joined_windows (names : List (Name .windows)) : '/' ∉ joined names := by
  induction names with
  | nil => simp [joined]
  | cons name names ih =>
    by_cases hnames : names = []
    · rw [hnames, joined_singleton]
      exact slash_not_mem name
    · rw [joined_cons hnames, List.mem_append, List.mem_cons, not_or, not_or]
      exact ⟨slash_not_mem name, by decide, ih⟩

theorem fullPath_le_iff (root : List Char) (f g : Leaf (Name conv)) :
    Verifier.fullPath root f ≤ Verifier.fullPath root g ↔ joined f.path ≤ joined g.path := by
  rw [fullPath_eq, fullPath_eq, ← not_lt, append_lt_append_iff, not_lt]

theorem walk_pairwise (readDir : Listing (Name conv)) (t : Tree conv) :
    (BuildScript.walk readDir t).Pairwise fun f g => BuildScript.rel f ≤ BuildScript.rel g :=
  sortBy_pairwise _ _

theorem files_pairwise (scandir : Listing (Name conv)) (root : List Char) (t : Tree conv) :
    (Verifier.files scandir root t).Pairwise fun f g =>
      Verifier.fullPath root f ≤ Verifier.fullPath root g :=
  sortBy_pairwise _ _

/-- Two sorted lists of the same files agree if their keys compare any two of them alike. -/
theorem eq_of_sorted {key key' : Leaf (Name conv) → List Char}
    {files files' : List (Leaf (Name conv))} (hperm : files.Perm files')
    (hsorted : files.Pairwise fun f g => key f ≤ key g)
    (hsorted' : files'.Pairwise fun f g => key' f ≤ key' g)
    (hkey : ∀ f ∈ files, ∀ g ∈ files, key f ≤ key g → key' f ≤ key' g)
    (hinj : ∀ f ∈ files, ∀ g ∈ files, key' f = key' g → f = g) : files = files' := by
  have hsorted : files.Pairwise fun f g => key' f ≤ key' g :=
    hsorted.imp_of_mem fun {f g} hf hg hle => hkey f hf g hg hle
  refine List.Perm.eq_of_pairwise (fun f g hf hg hfg hgf => ?_) hsorted hsorted' hperm
  exact hinj f hf g (hperm.mem_iff.mpr hg) (le_antisymm hfg hgf)

/-- A list that is sorted by two keys has no two members that these sort apart. -/
theorem not_apart_of_pairwise {key key' : Leaf (Name conv) → List Char}
    {files : List (Leaf (Name conv))} (hkey : files.Pairwise fun f g => key f ≤ key g)
    (hkey' : files.Pairwise fun f g => key' f ≤ key' g) {f g : Leaf (Name conv)}
    (hf : f ∈ files) (hg : g ∈ files) (hlt : key f < key g) : ¬ key' g < key' f := by
  have hahead : files.Pairwise fun f g => key f < key g → ¬ key' g < key' f := by
    refine hkey'.imp fun {f g} hle => ?_
    exact fun _ => not_lt.mpr hle
  have hbehind : files.Pairwise fun f g => key g < key f → ¬ key' f < key' g := by
    refine hkey.imp fun {f g} hle => ?_
    exact fun hlt => absurd hlt (not_lt.mpr hle)
  have hself : ∀ f ∈ files, key f < key f → ¬ key' f < key' f :=
    fun f _ hlt => absurd hlt (lt_irrefl _)
  exact List.Pairwise.forall_of_forall_of_flip hself hahead hbehind hf hg hlt

section Alike

variable {digest : Bytes → List Char} {readDir scandir : Listing (Name conv)} {root : RootPath}
  {t : Tree conv}

theorem mem_walk {f : Leaf (Name conv)} :
    f ∈ BuildScript.walk readDir t ↔ f ∈ t.files ∧ Outside isGit f = true := by
  rw [(BuildScript.walk_perm readDir t).mem_iff, List.mem_filter]

theorem mem_files {f : Leaf (Name conv)} :
    f ∈ Verifier.files scandir root.chars t ↔
      f ∈ t.files ∧ Verifier.keeps root.chars f.dirs = true := by
  rw [(Verifier.files_perm scandir root.chars t).mem_iff, List.mem_filter]

theorem SameConstruction.alike (h : SameConstruction digest readDir scandir root t) :
    Alike root t := by
  refine ⟨fun f hf => ?_, fun hconv f hf hout => ?_, fun hconv f hf g hg houtf houtg hcross => ?_⟩
  · have hmem := @mem_walk conv readDir t f
    rw [h.files, mem_files] at hmem
    rw [Bool.eq_iff_iff]
    exact ⟨fun hkeeps => (hmem.mp ⟨hf, hkeeps⟩).2, fun hout => (hmem.mpr ⟨hf, hout⟩).2⟩
  · subst hconv
    have htext := Py.Str.encodeUtf8_injective h.text
    rw [← h.files, treeText_eq_iff digest rel_length] at htext
    exact (rel_posix_iff f).mp (htext f (mem_walk.mpr ⟨hf, hout⟩))
  · subst hconv
    have hsorted := files_pairwise scandir root.chars t
    rw [← h.files] at hsorted
    obtain ⟨hlow, hhigh⟩ :=
      hcross.lt (slash_not_mem_joined_windows f.path) (slash_not_mem_joined_windows g.path)
    refine not_apart_of_pairwise (walk_pairwise readDir t) hsorted
      (mem_walk.mpr ⟨hf, houtf⟩) (mem_walk.mpr ⟨hg, houtg⟩) hlow ?_
    rw [← not_le, fullPath_le_iff, not_le]
    exact hhigh

/-- The two sort keys compare the files alike. -/
theorem Alike.le_iff (h : Alike root t) {f g : Leaf (Name conv)} (hf : f ∈ t.files)
    (hg : g ∈ t.files) (houtf : Outside isGit f = true) (houtg : Outside isGit g = true) :
    BuildScript.rel f ≤ BuildScript.rel g ↔
      Verifier.fullPath root.chars f ≤ Verifier.fullPath root.chars g := by
  rw [fullPath_le_iff]
  cases conv with
  | posix =>
    have hrel : ∀ {f}, f ∈ t.files → Outside isGit f = true →
        BuildScript.rel f = joined f.path := by
      intro f hf hout
      rw [(rel_posix_iff f).mpr (h.names rfl f hf hout), verifier_rel_posix]
    rw [hrel hf houtf, hrel hg houtg]
  | windows =>
    rw [← not_lt, ← not_lt, buildScript_rel, buildScript_rel,
      slashed_lt_iff (slash_not_mem_joined_windows _) (slash_not_mem_joined_windows _)
        (h.order rfl g hg f hf houtg houtf) (h.order rfl f hf g hg houtf houtg)]

theorem Alike.sameConstruction (h : Alike root t) :
    SameConstruction digest readDir scandir root t := by
  have hfilter : t.files.filter (Outside isGit) =
      t.files.filter fun f => Verifier.keeps root.chars f.dirs :=
    List.filter_congr fun f hf => (h.selection f hf).symm
  have hperm : (BuildScript.walk readDir t).Perm (Verifier.files scandir root.chars t) :=
    (BuildScript.walk_perm readDir t).trans
      (hfilter ▸ (Verifier.files_perm scandir root.chars t).symm)
  have hfiles : BuildScript.walk readDir t = Verifier.files scandir root.chars t := by
    refine eq_of_sorted hperm (walk_pairwise readDir t) (files_pairwise scandir root.chars t)
      (fun f hf g hg => ?_) (fun f hf g hg heq => ?_)
    · obtain ⟨hf, houtf⟩ := mem_walk.mp hf
      obtain ⟨hg, houtg⟩ := mem_walk.mp hg
      exact (h.le_iff hf hg houtf houtg).mp
    · -- Every path leads to one file.
      rw [fullPath_eq, fullPath_eq] at heq
      refine t.eq_of_path_eq (mem_walk.mp hf).1 (mem_walk.mp hg).1 ?_
      exact joined_injective (path_ne_nil f) (path_ne_nil g) (List.append_cancel_left heq)
  have htext : treeText digest BuildScript.rel (BuildScript.walk readDir t) =
      treeText digest Verifier.rel (Verifier.files scandir root.chars t) := by
    rw [← hfiles, treeText_eq_iff digest rel_length]
    intro f hf
    obtain ⟨hf, hout⟩ := mem_walk.mp hf
    cases conv with
    | posix => exact (rel_posix_iff f).mpr (h.names rfl f hf hout)
    | windows => exact rel_windows f
  refine ⟨hfiles, congrArg Json.encodeUtf8 htext, ?_⟩
  rw [BuildScript.treeDigest, Verifier.treeDigest, htext, hfiles]

end Alike

/-- The two gates use one construction for exactly the trees and roots that are alike to
both. -/
theorem same_construction_iff (digest : Bytes → List Char) (readDir scandir : Listing (Name conv))
    (root : RootPath) (t : Tree conv) :
    SameConstruction digest readDir scandir root t ↔ Alike root t :=
  ⟨SameConstruction.alike, Alike.sameConstruction⟩

/-! ## A name with a backslash -/

/-- `a\b`, which POSIX allows. -/
def backslashName : Name .posix :=
  ⟨['a', '\\', 'b'], by decide, List.all_eq_true.mp (by decide), by decide, nofun⟩

/-- A directory with one file. -/
def backslashTree : Tree .posix where
  entries := [(backslashName, .file [])]
  distinct := List.nodup_singleton _

/-- `build.rs` hashes the line of `a/b`, the verifier that of `a\b`. -/
theorem backslash_splits_construction :
    ¬ SameConstruction (fun b => List.replicate 64 (if b = [] then '0' else '1')) Listing.inOrder
      Listing.inOrder ⟨['.'], by decide⟩ backslashTree := by
  intro h
  have hnames := h.alike.names rfl
  exact hnames ⟨[], backslashName, []⟩ (List.mem_singleton.mpr rfl) rfl (by decide)

end Trelyan.Pin
