import Trelyan.Lib.PyText

/-!
# The instruction stream of a TEAL artifact

`_instructions` strips the comments and the blank lines off a TEAL artifact,
and `main` uses it to name a difference that it has found: `BEHAVIOURAL` when
the instructions differ, `STALE` when only the rest does.

A TEAL text is a sequence of lines, each ended by `LF` or `CR LF`.  A comment
starts at the first `//` outside a string literal and runs to the end of its
line (`beforeComment`).

Python's `str.splitlines` ends a line at eleven other characters too.  What
follows one of them inside a comment is read as code, and a literal that holds
one is cut in two.  So the stream is the intended one exactly for the texts
that are `Tidy`.
-/

namespace Trelyan.Teal

open Py.Str

/-! ## The source -/

/-- `_normalise`. -/
def normalise (raw : Bytes) : Bytes := replaceCrlf 13 10 raw

/-- The loop over a line: how many characters stand in front of its comment. -/
def commentCut : Bool → List Char → Nat
  | _, [] => 0
  | inString, char :: rest =>
    if char = '"' then commentCut (!inString) rest + 1
    else if char = '\\' ∧ inString = true then
      -- The escaped character is skipped, and the line may end before it.
      match rest with
      | [] => 1
      | _ :: rest => commentCut inString rest + 2
    else if char = '/' ∧ inString = false ∧ rest.head? = some '/' then 0
    else commentCut inString rest + 1

/-- What a line adds to the stream. -/
def lineCode (line : List Char) : List (List Char) :=
  let code := strip (line.take (commentCut false line))
  if code = [] then [] else [code]

/-- `_instructions`. -/
def instructions (teal : Bytes) : List (List Char) :=
  (splitlines (decodeReplace (normalise teal))).flatMap lineCode

/-- `ARTIFACTS`. -/
def artifacts : List String :=
  ["TrelyanInscription.approval.teal", "TrelyanInscription.clear.teal",
    "TrelyanInscription.approval.puya.map", "TrelyanInscription.clear.puya.map",
    "TrelyanInscription.arc56.json"]

/-- `TEAL_ARTIFACTS`. -/
def tealArtifacts : List String :=
  ["TrelyanInscription.approval.teal", "TrelyanInscription.clear.teal"]

/-- What `main` finds for one artifact. -/
inductive Finding where
  | ok
  /-- The instruction stream differs. -/
  | behavioural
  /-- Only what is not executable differs. -/
  | traceability
  deriving DecidableEq

/-- The comparison of one committed artifact with the fresh one. -/
def compareArtifact (name : String) (committed fresh : Bytes) : Finding :=
  let committed := normalise committed
  let fresh := normalise fresh
  if committed = fresh then .ok
  else if name ∈ tealArtifacts ∧ instructions committed ≠ instructions fresh then .behavioural
  else .traceability

/-! ## The grammar of a TEAL text -/

/-- Where in a line a character stands. -/
inductive Mode where
  | code
  | literal
  /-- Behind a backslash in a literal. -/
  | escaped
  deriving DecidableEq

/-- The place of what follows a character. -/
def Mode.next : Mode → Char → Mode
  | code, c => if c = '"' then literal else code
  | literal, c => if c = '\\' then escaped else if c = '"' then code else literal
  | escaped, _ => literal

/-- What stands in front of the comment of a line. -/
def beforeComment : Mode → List Char → List Char
  | _, [] => []
  | m, c :: rest =>
    if m = .code ∧ c = '/' ∧ rest.head? = some '/' then []
    else c :: beforeComment (m.next c) rest

/-- The comment of a line, with its slashes.  A line without one has none. -/
def comment (line : List Char) : List Char := line.drop (beforeComment .code line).length

/-- The instruction on a line, if there is one. -/
def lineInstruction (line : List Char) : List (List Char) :=
  let code := strip (beforeComment .code line)
  if code = [] then [] else [code]

/-- The lines of a TEAL text. -/
def tealLines (text : List Char) : List (List Char) :=
  (replaceCrlf '\r' '\n' text).splitOnP (· = '\n')

/-- The instructions of a TEAL text. -/
def tealCode (text : List Char) : List (List Char) := (tealLines text).flatMap lineInstruction

/-- The text is blank up to its comment. -/
def isIdle (s : List Char) : Bool :=
  let rest := s.dropWhile isSpace
  rest.isEmpty || ['/', '/'].isPrefixOf rest

/-- Python ends no line inside the line, except where that does no harm. -/
structure TidyLine (line : List Char) : Prop where
  /-- Nothing in the trimmed code ends a line. -/
  code : ∀ c ∈ strip (beforeComment .code line), isBreak c = false
  /-- Behind a character of the comment that ends a line there is no code. -/
  comment : ∀ s ∈ ((comment line).splitOnP isBreak).tail, isIdle s = true

def Tidy (text : List Char) : Prop := ∀ line ∈ tealLines text, TidyLine line

/-! ## One line -/

theorem take_commentCut (inString : Bool) (line : List Char) :
    line.take (commentCut inString line) =
      beforeComment (if inString then .literal else .code) line := by
  fun_induction commentCut inString line with
  | case1 => rfl
  | case2 inString rest ih =>
    rw [List.take_succ_cons, ih]
    cases inString <;> simp [beforeComment, Mode.next]
  | case3 inString char hquote h =>
    obtain ⟨rfl, rfl⟩ := h
    rfl
  | case4 inString char hquote h c rest ih =>
    obtain ⟨rfl, rfl⟩ := h
    rw [List.take_succ_cons, List.take_succ_cons, ih]
    simp [beforeComment, Mode.next]
  | case5 inString char rest hquote hesc h =>
    obtain ⟨rfl, rfl, hhead⟩ := h
    simp [beforeComment, hhead]
  | case6 inString char rest hquote hesc h ih =>
    rw [List.take_succ_cons, ih]
    cases inString with
    | false =>
      have hslash : ¬(char = '/' ∧ rest.head? = some '/') := by simpa using h
      simp [beforeComment, Mode.next, hslash, hquote]
    | true =>
      have hback : char ≠ '\\' := by simpa using hesc
      simp [beforeComment, Mode.next, hback, hquote]

theorem lineCode_eq (line : List Char) : lineCode line = lineInstruction line := by
  unfold lineCode lineInstruction
  rw [take_commentCut]
  rfl

theorem isIdle_nil : isIdle [] = true := rfl

theorem isIdle_cons_of_space {c : Char} (h : isSpace c = true) (s : List Char) :
    isIdle (c :: s) = isIdle s := by
  unfold isIdle
  rw [List.dropWhile_cons_of_pos h]

theorem isIdle_cons_of_not_space {c : Char} (h : isSpace c = false) (s : List Char) :
    isIdle (c :: s) = true ↔ c = '/' ∧ s.head? = some '/' := by
  unfold isIdle
  rw [List.dropWhile_cons_of_neg (by simp [h])]
  cases s with
  | nil => simp
  | cons d s =>
    have hprefix : ['/', '/'].isPrefixOf (c :: d :: s) = true ↔ '/' = c ∧ '/' = d := by simp
    have hhead : '/' = d ↔ (d :: s).head? = some '/' := by
      rw [List.head?_cons, Option.some_inj]
      exact eq_comm
    exact hprefix.trans (and_congr eq_comm hhead)

/-- The code of a line is blank when the line is blank up to its comment. -/
theorem blank_beforeComment_iff {line : List Char} :
    (∀ c ∈ beforeComment .code line, isSpace c = true) ↔ isIdle line = true := by
  induction line with
  | nil => simp [beforeComment, isIdle_nil]
  | cons c line ih =>
    cases hspace : isSpace c with
    | true =>
      have hslash : c ≠ '/' := by
        rintro rfl
        cases hspace
      have hquote : c ≠ '"' := by
        rintro rfl
        cases hspace
      rw [isIdle_cons_of_space hspace, ← ih]
      simp [beforeComment, Mode.next, hslash, hquote, hspace]
    | false =>
      rw [isIdle_cons_of_not_space hspace]
      by_cases h : c = '/' ∧ line.head? = some '/'
      · simp [beforeComment, h]
      · simp [beforeComment, h, hspace]

theorem lineInstruction_eq_nil_iff {line : List Char} :
    lineInstruction line = [] ↔ isIdle line = true := by
  rw [← blank_beforeComment_iff, ← strip_eq_nil_iff]
  unfold lineInstruction
  by_cases h : strip (beforeComment .code line) = [] <;> simp [h]

/-! ## The pieces of a line -/

/-- If every piece of a line is idle, so is the line. -/
theorem isIdle_of_pieces {line : List Char}
    (h : ∀ s ∈ line.splitOnP isBreak, isIdle s = true) : isIdle line = true := by
  induction line with
  | nil => exact isIdle_nil
  | cons c line ih =>
    cases hbreak : isBreak c with
    | true =>
      rw [splitOnP_cons_of_pos hbreak] at h
      rw [isIdle_cons_of_space (isSpace_of_isBreak hbreak)]
      exact ih fun s hs => h s (by simp [hs])
    | false =>
      obtain ⟨first, rest, hline, hcons⟩ := splitOnP_cons_of_neg hbreak line
      rw [hcons] at h
      have hfirst := h (c :: first) (by simp)
      cases hspace : isSpace c with
      | true =>
        rw [isIdle_cons_of_space hspace] at hfirst ⊢
        refine ih fun s hs => ?_
        rw [hline, List.mem_cons] at hs
        rcases hs with rfl | hs
        · exact hfirst
        · exact h s (by simp [hs])
      | false =>
        -- A comment starts here, and its second slash is in the same piece.
        rw [isIdle_cons_of_not_space hspace] at hfirst ⊢
        refine ⟨hfirst.1, ?_⟩
        cases line with
        | nil =>
          rw [List.splitOnP_nil] at hline
          rw [← (List.cons.inj hline).1] at hfirst
          exact absurd hfirst.2 (by simp)
        | cons d line =>
          cases hd : isBreak d with
          | true =>
            rw [splitOnP_cons_of_pos hd] at hline
            rw [← (List.cons.inj hline).1] at hfirst
            exact absurd hfirst.2 (by simp)
          | false =>
            obtain ⟨first', rest', -, hcons'⟩ := splitOnP_cons_of_neg hd line
            rw [hcons'] at hline
            rw [← (List.cons.inj hline).1] at hfirst
            simpa using hfirst.2

/-- A blank text in front does not make the pieces less idle. -/
theorem isIdle_pieces_append {blank s : List Char} (hblank : ∀ c ∈ blank, isSpace c = true)
    (h : ∀ piece ∈ s.splitOnP isBreak, isIdle piece = true) :
    ∀ piece ∈ (blank ++ s).splitOnP isBreak, isIdle piece = true := by
  induction blank with
  | nil => exact h
  | cons c blank ih =>
    have hc : isSpace c = true := hblank c (by simp)
    have ih := ih fun d hd => hblank d (by simp [hd])
    intro piece hpiece
    rw [List.cons_append] at hpiece
    cases hbreak : isBreak c with
    | true =>
      rw [splitOnP_cons_of_pos hbreak, List.mem_cons] at hpiece
      rcases hpiece with rfl | hpiece
      · exact isIdle_nil
      · exact ih piece hpiece
    | false =>
      obtain ⟨first, rest, hline, hcons⟩ := splitOnP_cons_of_neg hbreak (blank ++ s)
      rw [hcons, List.mem_cons] at hpiece
      rw [hline] at ih
      rcases hpiece with rfl | hpiece
      · rw [isIdle_cons_of_space hc]
        exact ih first (by simp)
      · exact ih piece (by simp [hpiece])

/-- The later pieces of a text stay pieces when something is put in front. -/
theorem tail_pieces_append (a s : List Char) {piece : List Char}
    (h : piece ∈ (s.splitOnP isBreak).tail) : piece ∈ ((a ++ s).splitOnP isBreak).tail := by
  induction a with
  | nil => exact h
  | cons c a ih =>
    rw [List.cons_append]
    cases hbreak : isBreak c with
    | true =>
      rw [splitOnP_cons_of_pos hbreak]
      exact List.mem_of_mem_tail ih
    | false =>
      obtain ⟨first, rest, hline, hcons⟩ := splitOnP_cons_of_neg hbreak (a ++ s)
      rw [hcons]
      rwa [hline] at ih

/-- The comment of a line is empty or begins with its slashes. -/
theorem beforeComment_append_rest (m : Mode) (line : List Char) :
    ∃ rest, line = beforeComment m line ++ rest ∧
      (rest = [] ∨ ∃ tail, rest = '/' :: '/' :: tail) := by
  induction line generalizing m with
  | nil => exact ⟨[], rfl, .inl rfl⟩
  | cons c line ih =>
    by_cases h : m = .code ∧ c = '/' ∧ line.head? = some '/'
    · refine ⟨c :: line, by simp [beforeComment, h], .inr ?_⟩
      obtain ⟨-, rfl, hhead⟩ := h
      obtain ⟨tail, rfl⟩ := List.head?_eq_some_iff.mp hhead
      exact ⟨tail, rfl⟩
    · obtain ⟨rest, hrest, hslash⟩ := ih (m.next c)
      refine ⟨rest, ?_, hslash⟩
      rw [beforeComment, if_neg h, List.cons_append, ← hrest]

theorem comment_eq {line code rest : List Char} (hline : line = code ++ rest)
    (hcode : beforeComment .code line = code) : comment line = rest := by
  unfold comment
  rw [hcode, hline, List.drop_left]

/-- A comment that starts in the first piece of a line is the comment of the line. -/
theorem beforeComment_append_of_ne {m : Mode} {s : List Char} (h : beforeComment m s ≠ s)
    (r : List Char) : beforeComment m (s ++ r) = beforeComment m s := by
  induction s generalizing m with
  | nil => exact absurd rfl h
  | cons c s ih =>
    by_cases hslash : m = .code ∧ c = '/' ∧ s.head? = some '/'
    · have happ : (s ++ r).head? = some '/' := by
        obtain ⟨tail, rfl⟩ := List.head?_eq_some_iff.mp hslash.2.2
        rfl
      rw [List.cons_append, beforeComment, if_pos ⟨hslash.1, hslash.2.1, happ⟩, beforeComment,
        if_pos hslash]
    · have hne : beforeComment (m.next c) s ≠ s := by
        intro heq
        rw [beforeComment, if_neg hslash, heq] at h
        exact h rfl
      have hnot : ¬(m = .code ∧ c = '/' ∧ (s ++ r).head? = some '/') := by
        rintro ⟨hm, hc, hhead⟩
        cases s with
        | nil => exact hne rfl
        | cons d s => exact hslash ⟨hm, hc, hhead⟩
      rw [List.cons_append, beforeComment, if_neg hnot, beforeComment, if_neg hslash, ih hne]

/-- Without one, the line goes on behind the piece where the piece has left it. -/
theorem beforeComment_append_break {m : Mode} {s : List Char} (h : beforeComment m s = s)
    {b : Char} (hb : isBreak b = true) (r : List Char) :
    beforeComment m (s ++ b :: r) =
      s ++ b :: beforeComment ((s.foldl Mode.next m).next b) r := by
  have hslash : b ≠ '/' := by
    rintro rfl
    cases hb
  induction s generalizing m with
  | nil => simp [beforeComment, hslash]
  | cons c s ih =>
    have hs : ¬(m = .code ∧ c = '/' ∧ s.head? = some '/') := by
      intro hs
      rw [beforeComment, if_pos hs] at h
      cases h
    have hnot : ¬(m = .code ∧ c = '/' ∧ (s ++ b :: r).head? = some '/') := by
      rintro ⟨hm, hc, hhead⟩
      cases s with
      | nil => exact hslash (Option.some.inj hhead)
      | cons d s => exact hs ⟨hm, hc, hhead⟩
    rw [beforeComment, if_neg hs] at h
    rw [List.cons_append, beforeComment, if_neg hnot, ih (List.cons.inj h).2]
    rfl

/-- A blank piece leaves a line outside its literals. -/
theorem foldl_next_of_blank {s : List Char} (h : ∀ c ∈ s, isSpace c = true) :
    s.foldl Mode.next .code = .code := by
  induction s with
  | nil => rfl
  | cons c s ih =>
    have hquote : c ≠ '"' := by
      rintro rfl
      exact absurd (h '"' (by simp)) (by decide)
    rw [List.foldl_cons, Mode.next, if_neg hquote]
    exact ih fun d hd => h d (by simp [hd])

/-! ## What Python makes of a line -/

/-- The instructions that the code reads on a line, all pieces together. -/
def pieces (line : List Char) : List (List Char) :=
  (line.splitOnP isBreak).flatMap lineInstruction

theorem pieces_eq_nil_iff {line : List Char} :
    pieces line = [] ↔ ∀ s ∈ line.splitOnP isBreak, isIdle s = true := by
  unfold pieces
  rw [List.flatMap_eq_nil_iff]
  exact forall₂_congr fun _ _ => lineInstruction_eq_nil_iff

theorem pieces_append_break {s : List Char} (hs : ∀ c ∈ s, isBreak c = false) {b : Char}
    (hb : isBreak b = true) (r : List Char) :
    pieces (s ++ b :: r) = lineInstruction s ++ pieces r := by
  unfold pieces
  rw [List.splitOnP_append_cons_of_forall_mem hs b hb, List.flatMap_cons]

/-- The comment starts in front of the first break. -/
theorem pieces_iff_of_comment {s : List Char} (hs : ∀ c ∈ s, isBreak c = false) {b : Char}
    (hb : isBreak b = true) (r : List Char) (hne : beforeComment .code s ≠ s) :
    pieces (s ++ b :: r) = lineInstruction (s ++ b :: r) ↔ TidyLine (s ++ b :: r) := by
  have hcode : beforeComment .code (s ++ b :: r) = beforeComment .code s :=
    beforeComment_append_of_ne hne _
  have hinstr : lineInstruction (s ++ b :: r) = lineInstruction s := by
    unfold lineInstruction
    rw [hcode]
  obtain ⟨rest, hrest, -⟩ := beforeComment_append_rest .code s
  have hcomment : comment (s ++ b :: r) = rest ++ b :: r := by
    refine comment_eq ?_ hcode
    rw [← List.append_assoc, ← hrest]
  have hsplit : (comment (s ++ b :: r)).splitOnP isBreak = rest :: r.splitOnP isBreak := by
    rw [hcomment]
    refine List.splitOnP_append_cons_of_forall_mem (fun c hc => hs c ?_) b hb r
    rw [hrest]
    exact List.mem_append_right _ hc
  rw [pieces_append_break hs hb, hinstr, List.append_right_eq_self, pieces_eq_nil_iff]
  constructor
  · intro h
    constructor
    · intro c hc
      rw [hcode] at hc
      have hmem : c ∈ beforeComment .code s := mem_of_mem_strip hc
      refine hs c ?_
      rw [hrest]
      exact List.mem_append_left _ hmem
    · rw [hsplit]
      exact h
  · intro h
    have := h.comment
    rwa [hsplit] at this

/-- The line is blank up to its first break, which then does no harm. -/
theorem tidyLine_of_blank {s : List Char} (hblank : ∀ c ∈ s, isSpace c = true) {b : Char}
    (hb : isBreak b = true) (r : List Char) :
    lineInstruction (s ++ b :: r) = lineInstruction r ∧
      (TidyLine (s ++ b :: r) ↔ TidyLine r) := by
  have hself : beforeComment .code s = s := by
    by_contra hne
    -- A comment begins with a slash, which is no white space.
    obtain ⟨rest, hrest, hslash⟩ := beforeComment_append_rest .code s
    rcases hslash with rfl | ⟨tail, rfl⟩
    · rw [List.append_nil] at hrest
      exact hne hrest.symm
    · have hmem : '/' ∈ s := by
        rw [hrest]
        simp
      exact absurd (hblank '/' hmem) (by decide)
  have hquote : b ≠ '"' := by
    rintro rfl
    cases hb
  have hcode : beforeComment .code (s ++ b :: r) = (s ++ [b]) ++ beforeComment .code r := by
    rw [beforeComment_append_break hself hb, foldl_next_of_blank hblank, Mode.next,
      if_neg hquote, List.append_assoc]
    rfl
  have hall : ∀ c ∈ s ++ [b], isSpace c = true := by
    intro c hc
    rw [List.mem_append, List.mem_singleton] at hc
    rcases hc with hc | rfl
    · exact hblank c hc
    · exact isSpace_of_isBreak hb
  have hstrip : strip (beforeComment .code (s ++ b :: r)) = strip (beforeComment .code r) := by
    rw [hcode, strip_append_left hall]
  have hcomment : comment (s ++ b :: r) = comment r := by
    obtain ⟨rest, hrest, -⟩ := beforeComment_append_rest .code r
    rw [comment_eq hrest rfl]
    refine comment_eq ?_ hcode
    rw [List.append_assoc, ← hrest, List.append_assoc, List.singleton_append]
  refine ⟨?_, fun h => ⟨?_, ?_⟩, fun h => ⟨?_, ?_⟩⟩
  · unfold lineInstruction
    rw [hstrip]
  · exact hstrip ▸ h.code
  · exact hcomment ▸ h.comment
  · rw [hstrip]
    exact h.code
  · rw [hcomment]
    exact h.comment

/-- A word behind a break would put the break inside the code. -/
theorem blank_of_not_mem_strip {s k : List Char} {b : Char} (hcode : ∃ c ∈ s, isSpace c = false)
    (h : b ∉ strip (s ++ b :: k)) : ∀ c ∈ k, isSpace c = true := by
  by_contra hne
  have hword : ∃ c ∈ k, isSpace c = false := by
    push Not at hne
    obtain ⟨c, hc, hc'⟩ := hne
    exact ⟨c, hc, by simpa using hc'⟩
  have happ := strip_append_append hcode hword [b]
  rw [List.append_assoc, List.singleton_append] at happ
  rw [happ] at h
  simp at h

/-- The first piece of a comment is idle anyway. -/
theorem isIdle_of_tail {rest : List Char} (hslash : rest = [] ∨ ∃ tail, rest = '/' :: '/' :: tail)
    (h : ∀ piece ∈ (rest.splitOnP isBreak).tail, isIdle piece = true) :
    ∀ piece ∈ rest.splitOnP isBreak, isIdle piece = true := by
  intro piece hpiece
  rcases hslash with rfl | ⟨tail, rfl⟩
  · rw [List.splitOnP_nil, List.mem_singleton] at hpiece
    rw [hpiece]
    exact isIdle_nil
  · have hslashBreak : isBreak '/' = false := by decide
    obtain ⟨first, others, hfirst, hcons⟩ := splitOnP_cons_of_neg hslashBreak tail
    obtain ⟨first', others', hfirst', hcons'⟩ := splitOnP_cons_of_neg hslashBreak ('/' :: tail)
    rw [hcons] at hfirst'
    obtain ⟨rfl, rfl⟩ := List.cons.inj hfirst'
    rw [hcons'] at h hpiece
    rcases List.mem_cons.mp hpiece with rfl | hpiece
    · rfl
    · exact h piece hpiece

/-- There is code in front of the first break, and no comment. -/
theorem pieces_iff_of_code {s : List Char} (hs : ∀ c ∈ s, isBreak c = false) {b : Char}
    (hb : isBreak b = true) (r : List Char) (hself : beforeComment .code s = s)
    (hcode : ∃ c ∈ s, isSpace c = false) :
    pieces (s ++ b :: r) = lineInstruction (s ++ b :: r) ↔ TidyLine (s ++ b :: r) := by
  have hspace : isSpace b = true := isSpace_of_isBreak hb
  have hnonblank : ∀ t, strip (s ++ t) ≠ [] := by
    intro t h
    obtain ⟨c, hc, hc'⟩ := hcode
    rw [strip_eq_nil_iff] at h
    rw [h c (by simp [hc])] at hc'
    cases hc'
  have hbefore := beforeComment_append_break hself hb r
  -- `k` is the code behind the break.
  generalize hm : (s.foldl Mode.next .code).next b = m at hbefore
  obtain ⟨rest, hr, hslash⟩ := beforeComment_append_rest m r
  generalize hk : beforeComment m r = k at hbefore hr
  have hcomment : comment (s ++ b :: r) = rest := by
    refine comment_eq ?_ hbefore
    rw [hr, List.append_assoc, List.cons_append]
  have hinstr : lineInstruction s = [strip s] := by
    have hne := hnonblank []
    rw [List.append_nil] at hne
    unfold lineInstruction
    rw [hself, if_neg hne]
  have hline : lineInstruction (s ++ b :: r) = [strip (s ++ b :: k)] := by
    unfold lineInstruction
    rw [hbefore, if_neg (hnonblank _)]
  rw [pieces_append_break hs hb, hinstr, hline, List.singleton_append, List.cons_eq_cons,
    pieces_eq_nil_iff]
  constructor
  · rintro ⟨hstrip, hidle⟩
    constructor
    · intro c hc
      rw [hbefore, ← hstrip] at hc
      exact hs c (mem_of_mem_strip hc)
    · rw [hcomment]
      intro piece hpiece
      refine hidle piece ?_
      rw [hr]
      exact List.mem_of_mem_tail (tail_pieces_append k rest hpiece)
  · intro h
    have hout : b ∉ strip (s ++ b :: k) := by
      intro hin
      rw [← hbefore] at hin
      rw [h.code b hin] at hb
      cases hb
    have hblank := blank_of_not_mem_strip hcode hout
    have hrest : ∀ piece ∈ rest.splitOnP isBreak, isIdle piece = true := by
      refine isIdle_of_tail hslash ?_
      rw [← hcomment]
      exact h.comment
    refine ⟨?_, ?_⟩
    · refine (strip_append_right ?_ s).symm
      intro c hc
      rcases List.mem_cons.mp hc with rfl | hc
      · exact hspace
      · exact hblank c hc
    · rw [hr]
      exact isIdle_pieces_append hblank hrest

/-- Python reads the instruction of a line, and nothing else, when the line is tidy. -/
theorem pieces_eq_iff (line : List Char) : pieces line = lineInstruction line ↔ TidyLine line := by
  induction hn : line.length using Nat.strong_induction_on generalizing line with
  | _ n ih =>
    cases hfind : line.find? isBreak with
    | none =>
      have hfree : ∀ c ∈ line, isBreak c = false := by
        intro c hc
        simpa using List.find?_eq_none.mp hfind c hc
      have hself : pieces line = lineInstruction line := by
        unfold pieces
        rw [List.splitOnP_eq_singleton hfree, List.flatMap_singleton]
      have hcomment : (comment line).splitOnP isBreak = [comment line] :=
        List.splitOnP_eq_singleton fun c hc => hfree c (List.mem_of_mem_drop hc)
      refine iff_of_true hself ⟨fun c hc => ?_, ?_⟩
      · obtain ⟨rest, hrest, -⟩ := beforeComment_append_rest .code line
        refine hfree c ?_
        rw [hrest]
        exact List.mem_append_left _ (mem_of_mem_strip hc)
      · rw [hcomment]
        simp
    | some b =>
      obtain ⟨hb, s, r, rfl, hs⟩ := List.find?_eq_some_iff_append.mp hfind
      have hs : ∀ c ∈ s, isBreak c = false := fun c hc => by simpa using hs c hc
      by_cases hself : beforeComment .code s = s
      · by_cases hblank : ∀ c ∈ s, isSpace c = true
        · obtain ⟨hline, htidy⟩ := tidyLine_of_blank hblank hb r
          have hnil : lineInstruction s = [] := by
            rw [lineInstruction_eq_nil_iff, ← blank_beforeComment_iff, hself]
            exact hblank
          rw [pieces_append_break hs hb, hnil, List.nil_append, hline, htidy]
          refine ih r.length ?_ r rfl
          rw [← hn, List.length_append, List.length_cons]
          omega
        · refine pieces_iff_of_code hs hb r hself ?_
          push Not at hblank
          obtain ⟨c, hc, hc'⟩ := hblank
          exact ⟨c, hc, by simpa using hc'⟩
      · exact pieces_iff_of_comment hs hb r hself

/-- Python finds at least the instruction that there is. -/
theorem length_lineInstruction_le (line : List Char) :
    (lineInstruction line).length ≤ (pieces line).length := by
  have hone : (lineInstruction line).length ≤ 1 := by
    unfold lineInstruction
    by_cases h : strip (beforeComment .code line) = [] <;> simp [h]
  by_cases hnil : pieces line = []
  · have hidle := isIdle_of_pieces (pieces_eq_nil_iff.mp hnil)
    rw [lineInstruction_eq_nil_iff.mpr hidle]
    exact Nat.zero_le _
  · have := List.length_pos_of_ne_nil hnil
    omega

/-! ## The whole text -/

theorem lineInstruction_nil : lineInstruction [] = [] := by decide

theorem flatMap_lineCode (lines : List (List Char)) :
    lines.flatMap lineCode = lines.flatMap lineInstruction :=
  List.flatMap_congr fun line _ => lineCode_eq line

/-- Neither the normalisation nor the end of the text matters. -/
theorem flatMap_lineInstruction_splitlines (t : List Char) :
    (splitlines (replaceCrlf '\r' '\n' t)).flatMap lineInstruction =
      (t.splitOnP isBreak).flatMap lineInstruction := by
  rw [flatMap_splitlines lineInstruction_nil]
  exact splitOnP_replaceCrlf isBreak_cr isBreak_lf lineInstruction_nil t

theorem instructions_encodeUtf8 (t : List Char) :
    instructions (Json.encodeUtf8 t) = (t.splitOnP isBreak).flatMap lineInstruction := by
  unfold instructions normalise
  rw [replaceCrlf_encodeUtf8, decodeReplace_encodeUtf8, flatMap_lineCode,
    flatMap_lineInstruction_splitlines]

/-- `main` normalises what `_instructions` normalises again. -/
theorem instructions_normalise (t : List Char) :
    instructions (normalise (Json.encodeUtf8 t)) = instructions (Json.encodeUtf8 t) := by
  rw [instructions_encodeUtf8, normalise, replaceCrlf_encodeUtf8, instructions_encodeUtf8]
  exact splitOnP_replaceCrlf isBreak_cr isBreak_lf lineInstruction_nil t

/-- The stream is that of the lines, each with what Python makes of it. -/
theorem instructions_eq_pieces (t : List Char) :
    instructions (Json.encodeUtf8 t) = (tealLines t).flatMap pieces := by
  have hlf : ∀ c : Char, decide (c = '\n') = true → isBreak c = true := by
    intro c hc
    rw [of_decide_eq_true hc]
    exact isBreak_lf
  rw [instructions_encodeUtf8, ← splitOnP_replaceCrlf isBreak_cr isBreak_lf lineInstruction_nil t,
    ← flatMap_splitOnP hlf, List.flatMap_assoc]
  rfl

theorem instructions_eq_tealCode_iff (t : List Char) :
    instructions (Json.encodeUtf8 t) = tealCode t ↔ Tidy t := by
  rw [instructions_eq_pieces, tealCode, flatMap_eq_flatMap_iff length_lineInstruction_le]
  exact forall₂_congr fun line _ => pieces_eq_iff line

/-- Texts that are the same but for their line endings have the same instructions. -/
theorem tealCode_congr {t t' : List Char}
    (h : normalise (Json.encodeUtf8 t) = normalise (Json.encodeUtf8 t')) :
    tealCode t = tealCode t' := by
  unfold normalise at h
  rw [replaceCrlf_encodeUtf8, replaceCrlf_encodeUtf8] at h
  unfold tealCode tealLines
  rw [encodeUtf8_injective h]

theorem compareArtifact_eq_behavioural_iff {name : String} (hname : name ∈ tealArtifacts)
    (t t' : List Char) :
    compareArtifact name (Json.encodeUtf8 t) (Json.encodeUtf8 t') = .behavioural ↔
      normalise (Json.encodeUtf8 t) ≠ normalise (Json.encodeUtf8 t') ∧
        instructions (Json.encodeUtf8 t) ≠ instructions (Json.encodeUtf8 t') := by
  unfold compareArtifact
  simp only [instructions_normalise, hname, true_and]
  split_ifs with hsame hdiff
  · simp [hsame]
  · simp [hsame, hdiff]
  · simp [hdiff]

/-- The stream of a text is the code of its lines exactly when the text is tidy.  A
difference between tidy texts is then `BEHAVIOURAL` exactly when the code differs. -/
theorem comments_stripped_iff (t : List Char) :
    (instructions (Json.encodeUtf8 t) = tealCode t ↔ Tidy t) ∧
      ∀ name ∈ tealArtifacts, ∀ t', Tidy t → Tidy t' →
        (compareArtifact name (Json.encodeUtf8 t) (Json.encodeUtf8 t') = .behavioural ↔
          tealCode t ≠ tealCode t') := by
  refine ⟨instructions_eq_tealCode_iff t, fun name hname t' ht ht' => ?_⟩
  rw [compareArtifact_eq_behavioural_iff hname, (instructions_eq_tealCode_iff t).mpr ht,
    (instructions_eq_tealCode_iff t').mpr ht']
  exact and_iff_right_of_imp fun hne heq => hne (tealCode_congr heq)

/-- A comment with a vertical tab in it adds an instruction, and changing the tab to
a space is then reported as a change of behaviour. -/
theorem vertical_tab_in_comment :
    instructions (Json.encodeUtf8 "int 1 // a\x0bb".toList) ≠
        tealCode "int 1 // a\x0bb".toList ∧
      tealCode "int 1 // a\x0bb".toList = tealCode "int 1 // a b".toList ∧
      compareArtifact "TrelyanInscription.approval.teal"
          (Json.encodeUtf8 "int 1 // a\x0bb".toList) (Json.encodeUtf8 "int 1 // a b".toList) =
        .behavioural := by
  have hfirst : tealCode "int 1 // a\x0bb".toList = ["int 1".toList] := by decide
  have hsecond : tealCode "int 1 // a b".toList = ["int 1".toList] := by decide
  have hstream : instructions (Json.encodeUtf8 "int 1 // a\x0bb".toList) =
      ["int 1".toList, "b".toList] := by
    rw [instructions_encodeUtf8]
    decide
  have hspace : instructions (Json.encodeUtf8 "int 1 // a b".toList) = ["int 1".toList] := by
    rw [instructions_encodeUtf8]
    decide
  refine ⟨?_, by rw [hfirst, hsecond], ?_⟩
  · rw [hstream, hfirst]
    decide
  · rw [compareArtifact_eq_behavioural_iff (by decide), hstream, hspace]
    refine ⟨fun h => ?_, by decide⟩
    unfold normalise at h
    rw [replaceCrlf_encodeUtf8, replaceCrlf_encodeUtf8] at h
    exact absurd (encodeUtf8_injective h) (by decide)

end Trelyan.Teal
