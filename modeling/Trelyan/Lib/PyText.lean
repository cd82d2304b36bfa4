import Mathlib.Data.List.DropRight
import Trelyan.Lib.Json

/-!
# Python's `str`

White space, line breaks and lossy decoding, as Python has them for strings.

`str.isspace` and `str.splitlines` know more characters than C does: a line
ends at a vertical tab, a form feed, a file, group or record separator, a
`NEL`, and the two separators of Unicode.  Every one of them is white space
(`isSpace_of_isBreak`).

A split at a larger set of characters refines a split at a smaller one
(`flatMap_splitOnP`).
-/

namespace Trelyan.Py.Str

/-- `c.isspace()`. -/
def isSpace (c : Char) : Bool :=
  (9 ≤ c.toNat && c.toNat ≤ 13) || (28 ≤ c.toNat && c.toNat ≤ 32) || isWideSpace c.toNat

/-- The characters that end a line. -/
def isBreak (c : Char) : Bool :=
  (10 ≤ c.toNat && c.toNat ≤ 13) || (28 ≤ c.toNat && c.toNat ≤ 30) || c.toNat = 0x85 ||
    c.toNat = 0x2028 || c.toNat = 0x2029

theorem isSpace_of_isBreak {c : Char} (h : isBreak c = true) : isSpace c = true := by
  simp only [isBreak, isSpace, isWideSpace, Bool.or_eq_true, Bool.and_eq_true,
    decide_eq_true_eq] at h ⊢
  omega

theorem isBreak_cr : isBreak '\r' = true := by decide

theorem isBreak_lf : isBreak '\n' = true := by decide

/-- `s.strip()`. -/
def strip (s : List Char) : List Char := (s.dropWhile isSpace).rdropWhile isSpace

theorem strip_eq_nil_iff {s : List Char} : strip s = [] ↔ ∀ c ∈ s, isSpace c = true := by
  constructor
  · intro h c hc
    rw [strip, List.rdropWhile_eq_nil_iff] at h
    rw [← List.takeWhile_append_dropWhile (p := isSpace) (l := s), List.mem_append] at hc
    exact hc.elim (fun hc => List.mem_takeWhile_imp hc) (h c)
  · intro h
    have hdrop : s.dropWhile isSpace = [] := by simpa using h
    rw [strip, hdrop, List.rdropWhile_nil]

theorem mem_of_mem_strip {s : List Char} {c : Char} (h : c ∈ strip s) : c ∈ s :=
  (List.dropWhile_sublist _).subset ((List.rdropWhile_prefix _ _).subset h)

theorem rdropWhile_append_of_forall {a b : List Char} (h : ∀ c ∈ b, isSpace c = true) :
    (a ++ b).rdropWhile isSpace = a.rdropWhile isSpace := by
  rw [List.rdropWhile, List.rdropWhile, List.reverse_append,
    List.dropWhile_append_of_pos (by simpa using h)]

/-- Neither end of the text matters while it is blank. -/
theorem strip_append_left {a : List Char} (h : ∀ c ∈ a, isSpace c = true) (s : List Char) :
    strip (a ++ s) = strip s := by
  rw [strip, strip, List.dropWhile_append_of_pos h]

theorem strip_append_right {b : List Char} (h : ∀ c ∈ b, isSpace c = true) (s : List Char) :
    strip (s ++ b) = strip s := by
  rw [strip, strip, List.dropWhile_append]
  split
  · next hs =>
    have hb : b.dropWhile isSpace = [] := by simpa using h
    rw [hb, List.isEmpty_iff.mp hs]
  · exact rdropWhile_append_of_forall h

/-- What stands between two words is kept. -/
theorem strip_append_append {a b : List Char} (ha : ∃ c ∈ a, isSpace c = false)
    (hb : ∃ c ∈ b, isSpace c = false) (s : List Char) :
    strip (a ++ s ++ b) = a.dropWhile isSpace ++ s ++ b.rdropWhile isSpace := by
  have hleft : (a.dropWhile isSpace).isEmpty = false := by
    obtain ⟨c, hc, hspace⟩ := ha
    simpa using ⟨c, hc, hspace⟩
  have hright : (b.reverse.dropWhile isSpace).isEmpty = false := by
    obtain ⟨c, hc, hspace⟩ := hb
    simpa using ⟨c, hc, hspace⟩
  rw [strip, List.append_assoc, List.dropWhile_append, if_neg (by simp [hleft]),
    ← List.append_assoc, List.rdropWhile, List.reverse_append, List.dropWhile_append, if_neg (by simp [hright]),
    List.reverse_append, List.reverse_reverse, List.rdropWhile]

/-- `s.replace("\r\n", "\n")`, for a string and for a byte string. -/
def replaceCrlf {α : Type} [DecidableEq α] (cr lf : α) : List α → List α
  | x :: y :: rest =>
    if x = cr ∧ y = lf then lf :: replaceCrlf cr lf rest else x :: replaceCrlf cr lf (y :: rest)
  | s => s

/-- `s.splitlines()`.  A break at the end of the text does not start a line. -/
def splitlines (s : List Char) : List (List Char) :=
  let lines := (replaceCrlf '\r' '\n' s).splitOnP isBreak
  if lines.getLast? = some [] then lines.dropLast else lines

/-! ## Decoding -/

/-- The bounds of the bytes that may follow a lead byte of UTF-8. -/
def continuations (lead : Nat) : List (Nat × Nat) :=
  let any := (0x80, 0xbf)
  if 0xc2 ≤ lead ∧ lead ≤ 0xdf then [any]
  else if lead = 0xe0 then [(0xa0, 0xbf), any]
  else if lead = 0xed then [(0x80, 0x9f), any]
  else if 0xe1 ≤ lead ∧ lead ≤ 0xef then [any, any]
  else if lead = 0xf0 then [(0x90, 0xbf), any, any]
  else if 0xf1 ≤ lead ∧ lead ≤ 0xf3 then [any, any, any]
  else if lead = 0xf4 then [(0x80, 0x8f), any, any]
  else []

/-- How many of the bytes are within their bounds. -/
def accepted : List (Nat × Nat) → Bytes → Nat
  | (low, high) :: bounds, b :: rest =>
    if low ≤ b.toNat ∧ b.toNat ≤ high then accepted bounds rest + 1 else 0
  | _, _ => 0

/-- The code point of a lead byte and the bytes that follow it. -/
def assemble (lead : Nat) (rest : Bytes) : Nat :=
  let bits := match rest.length with
    | 0 => lead
    | n + 1 => lead % 2 ^ (5 - n)
  rest.foldl (fun code b => code * 64 + b.toNat % 64) bits

/-- The decoder that goes on behind an error.  The longest start of a character
becomes one replacement character. -/
def decodeLossy : Nat → Bytes → List Char
  | 0, _ | _, [] => []
  | fuel + 1, b :: rest =>
    let bounds := continuations b.toNat
    let n := accepted bounds rest
    let c := if b.toNat < 0x80 ∨ (bounds ≠ [] ∧ n = bounds.length)
      then Char.ofNat (assemble b.toNat (rest.take n)) else Char.ofNat 0xfffd
    c :: decodeLossy fuel (rest.drop n)

/-- `b.decode("utf-8", errors="replace")`. -/
def decodeReplace (b : Bytes) : List Char :=
  match Json.decodeUtf8 b with
  | .ok s => s
  | .error _ => decodeLossy b.length b

@[simp]
theorem decodeReplace_encodeUtf8 (s : List Char) : decodeReplace (Json.encodeUtf8 s) = s := by
  unfold decodeReplace
  rw [Json.decodeUtf8_encodeUtf8]

theorem encodeUtf8_injective {s t : List Char} (h : Json.encodeUtf8 s = Json.encodeUtf8 t) :
    s = t := by
  rw [← decodeReplace_encodeUtf8 s, h, decodeReplace_encodeUtf8]

theorem encodeUtf8_eq_flatMap (s : List Char) :
    Json.encodeUtf8 s = s.flatMap String.utf8EncodeChar := by
  have hbytes : (String.ofList s).toUTF8 = s.utf8Encode := String.toByteArray_ofList
  unfold Json.encodeUtf8
  rw [hbytes, List.utf8Encode]
  simp

/-- The bytes of a character are its own code, or they are all above ASCII. -/
theorem utf8EncodeChar_cases (c : Char) :
    (c.toNat < 0x80 ∧ String.utf8EncodeChar c = [UInt8.ofNat c.toNat]) ∨
      (0x80 ≤ c.toNat ∧ ∀ b ∈ String.utf8EncodeChar c, 0x80 ≤ b.toNat) := by
  have hval : c.toNat = c.val.toNat := rfl
  unfold String.utf8EncodeChar
  simp only [hval]
  split_ifs with h1 h2 h3
  · exact .inl ⟨by omega, rfl⟩
  all_goals
    refine .inr ⟨by omega, ?_⟩
    simp only [List.mem_cons, List.not_mem_nil, or_false, forall_eq_or_imp, forall_eq,
      UInt8.toNat_ofNat']
    omega

section ReplaceCrlf

variable {α : Type} [DecidableEq α] {cr lf : α}

theorem replaceCrlf_cons_of_ne {x : α} (h : x ≠ cr) (s : List α) :
    replaceCrlf cr lf (x :: s) = x :: replaceCrlf cr lf s := by
  cases s with
  | nil => simp [replaceCrlf]
  | cons y s => simp [replaceCrlf, h]

theorem replaceCrlf_cons_of_head {x : α} {s : List α} (h : s.head? ≠ some lf) :
    replaceCrlf cr lf (x :: s) = x :: replaceCrlf cr lf s := by
  cases s with
  | nil => simp [replaceCrlf]
  | cons y s =>
    have hy : y ≠ lf := by simpa using h
    simp [replaceCrlf, hy]

theorem replaceCrlf_append_of_forall {a : List α} (h : ∀ x ∈ a, x ≠ cr) (s : List α) :
    replaceCrlf cr lf (a ++ s) = a ++ replaceCrlf cr lf s := by
  induction a with
  | nil => rfl
  | cons x a ih =>
    have hx : x ≠ cr := h x (by simp)
    rw [List.cons_append, replaceCrlf_cons_of_ne hx, ih fun y hy => h y (by simp [hy])]
    rfl

end ReplaceCrlf

theorem head?_encodeUtf8 {s : List Char} (h : (Json.encodeUtf8 s).head? = some 10) :
    s.head? = some '\n' := by
  rw [encodeUtf8_eq_flatMap] at h
  cases s with
  | nil => cases h
  | cons c s =>
    rcases utf8EncodeChar_cases c with ⟨hc, henc⟩ | ⟨-, henc⟩
    · rw [List.flatMap_cons, henc] at h
      have hb : UInt8.ofNat c.toNat = 10 := by simpa using h
      have hn : c.toNat = 10 := by
        have := congrArg UInt8.toNat hb
        simp only [UInt8.toNat_ofNat', UInt8.toNat_ofNat] at this
        omega
      exact congrArg some (Char.toNat_inj.mp hn)
    · obtain ⟨b, bs, hb⟩ := List.exists_cons_of_ne_nil (String.utf8EncodeChar_ne_nil (c := c))
      rw [List.flatMap_cons, hb] at h
      have hten : b = 10 := by simpa using h
      have hhigh := henc b (by simp [hb])
      rw [hten] at hhigh
      exact absurd hhigh (by decide)

/-- Line endings can be normalised before the text is encoded or after. -/
theorem replaceCrlf_encodeUtf8 (s : List Char) :
    replaceCrlf 13 10 (Json.encodeUtf8 s) = Json.encodeUtf8 (replaceCrlf '\r' '\n' s) := by
  have hcons : ∀ c t, Json.encodeUtf8 (c :: t) = String.utf8EncodeChar c ++ Json.encodeUtf8 t := by
    intro c t
    simp [encodeUtf8_eq_flatMap]
  induction s with
  | nil => rfl
  | cons c s ih =>
    by_cases hc : c = '\r'
    · subst hc
      have hbyte : String.utf8EncodeChar '\r' = [13] := by decide
      rw [hcons, hbyte, List.singleton_append]
      by_cases hs : s.head? = some '\n'
      · obtain ⟨t, rfl⟩ : ∃ t, s = '\n' :: t := by
          cases s with
          | nil => cases hs
          | cons d t => exact ⟨t, by rw [Option.some.inj hs]⟩
        have hlf : String.utf8EncodeChar '\n' = [10] := by decide
        rw [hcons, hlf, List.singleton_append, replaceCrlf_cons_of_ne (by decide)] at ih
        rw [hcons, hlf, List.singleton_append]
        rw [replaceCrlf_cons_of_ne (by decide)] at ih
        simp only [replaceCrlf, and_self, if_true]
        exact ih
      · rw [replaceCrlf_cons_of_head fun h => hs (head?_encodeUtf8 h),
          replaceCrlf_cons_of_head hs, hcons, hbyte, ih]
        rfl
    · have hbytes : ∀ b ∈ String.utf8EncodeChar c, b ≠ 13 := by
        intro b hb heq
        subst heq
        rcases utf8EncodeChar_cases c with ⟨hlow, henc⟩ | ⟨-, henc⟩
        · rw [henc, List.mem_singleton] at hb
          have hn := congrArg UInt8.toNat hb
          simp only [UInt8.toNat_ofNat', UInt8.toNat_ofNat] at hn
          have hn : c.toNat = 13 := by omega
          exact hc (Char.toNat_inj.mp hn)
        · exact absurd (henc 13 hb) (by decide)
      rw [hcons, replaceCrlf_append_of_forall hbytes, replaceCrlf_cons_of_ne hc, hcons, ih]

/-! ## Lines -/

section Split

variable {α : Type}

theorem splitOnP_cons_of_pos {p : α → Bool} {x : α} (h : p x = true) (s : List α) :
    (x :: s).splitOnP p = [] :: s.splitOnP p := by
  rw [List.splitOnP_cons_eq_if_modifyHead, if_pos h]

/-- A character that does not split joins the first piece. -/
theorem splitOnP_cons_of_neg {p : α → Bool} {x : α} (h : p x = false) (s : List α) :
    ∃ first rest, s.splitOnP p = first :: rest ∧ (x :: s).splitOnP p = (x :: first) :: rest := by
  obtain ⟨first, rest, hs⟩ := List.exists_cons_of_ne_nil (List.splitOnP_ne_nil p s)
  refine ⟨first, rest, hs, ?_⟩
  rw [List.splitOnP_cons_eq_if_modifyHead, if_neg (by simp [h]), hs, List.modifyHead_cons]

/-- A split refines a split at fewer characters. -/
theorem flatMap_splitOnP {p q : α → Bool} (h : ∀ x, q x = true → p x = true) (s : List α) :
    (s.splitOnP q).flatMap (List.splitOnP p) = s.splitOnP p := by
  induction s with
  | nil => simp [List.splitOnP_nil]
  | cons x s ih =>
    cases hq : q x with
    | true =>
      rw [splitOnP_cons_of_pos hq, splitOnP_cons_of_pos (h x hq), List.flatMap_cons, ih]
      simp [List.splitOnP_nil]
    | false =>
      obtain ⟨first, rest, hs, hcons⟩ := splitOnP_cons_of_neg hq s
      rw [hcons, List.flatMap_cons]
      rw [hs, List.flatMap_cons] at ih
      cases hp : p x with
      | true => rw [splitOnP_cons_of_pos hp, splitOnP_cons_of_pos hp, List.cons_append, ih]
      | false =>
        obtain ⟨a, as, ha, hxa⟩ := splitOnP_cons_of_neg hp first
        obtain ⟨b, bs, hb, hxb⟩ := splitOnP_cons_of_neg hp s
        rw [ha, hb, List.cons_append] at ih
        rw [hxa, hxb, List.cons_append, (List.cons.inj ih).1, (List.cons.inj ih).2]

theorem length_flatMap_le {β : Type} {f g : α → List β}
    (h : ∀ x, (g x).length ≤ (f x).length) (s : List α) :
    (s.flatMap g).length ≤ (s.flatMap f).length := by
  induction s with
  | nil => exact Nat.le_refl _
  | cons x s ih =>
    have hx := h x
    rw [List.flatMap_cons, List.flatMap_cons, List.length_append, List.length_append]
    omega

/-- Two texts that are put together line by line are equal only line by line, when
the lines of one are never longer. -/
theorem flatMap_eq_flatMap_iff {β : Type} {f g : α → List β}
    (h : ∀ x, (g x).length ≤ (f x).length) (s : List α) :
    s.flatMap f = s.flatMap g ↔ ∀ x ∈ s, f x = g x := by
  refine ⟨?_, fun heq => List.flatMap_congr heq⟩
  induction s with
  | nil => simp
  | cons x s ih =>
    intro heq
    rw [List.flatMap_cons, List.flatMap_cons] at heq
    have hrest := length_flatMap_le h s
    have hlen := congrArg List.length heq
    rw [List.length_append, List.length_append] at hlen
    have hx := h x
    obtain ⟨hfirst, hothers⟩ := List.append_inj heq (by omega)
    intro y hy
    rcases List.mem_cons.mp hy with rfl | hy
    · exact hfirst
    · exact ih hothers y hy

end Split

section Crlf

variable {α β : Type} {cr lf : α} {p : α → Bool} {f : List α → List β}

/-- Two texts that split into the same first line, and into further lines that `f` does not tell
apart.  The first lines must agree, because a character in front may join them. -/
structure SameLines (p : α → Bool) (f : List α → List β) (s t : List α) : Prop where
  head : (s.splitOnP p).head? = (t.splitOnP p).head?
  tail : (s.splitOnP p).tail.flatMap f = (t.splitOnP p).tail.flatMap f

theorem SameLines.flatMap {s t : List α} (h : SameLines p f s t) :
    (s.splitOnP p).flatMap f = (t.splitOnP p).flatMap f := by
  obtain ⟨hhead, htail⟩ := h
  obtain ⟨a, as, ha⟩ := List.exists_cons_of_ne_nil (List.splitOnP_ne_nil p s)
  obtain ⟨b, bs, hb⟩ := List.exists_cons_of_ne_nil (List.splitOnP_ne_nil p t)
  rw [ha, hb] at hhead htail
  rw [ha, hb, List.flatMap_cons, List.flatMap_cons, Option.some.inj hhead]
  exact congrArg _ htail

/-- What one character in front does, whether it ends a line or not. -/
theorem SameLines.cons {s t : List α} (h : SameLines p f s t) (x : α) :
    SameLines p f (x :: s) (x :: t) := by
  cases hx : p x with
  | true =>
    constructor
    · rw [splitOnP_cons_of_pos hx, splitOnP_cons_of_pos hx]
      rfl
    · rw [splitOnP_cons_of_pos hx, splitOnP_cons_of_pos hx]
      exact h.flatMap
  | false =>
    obtain ⟨a, as, ha, hxa⟩ := splitOnP_cons_of_neg hx s
    obtain ⟨b, bs, hb, hxb⟩ := splitOnP_cons_of_neg hx t
    obtain ⟨hhead, htail⟩ := h
    rw [ha, hb] at hhead htail
    constructor
    · rw [hxa, hxb]
      exact congrArg (fun l => some (x :: l)) (Option.some.inj hhead)
    · rw [hxa, hxb]
      exact htail

variable [DecidableEq α]

theorem sameLines_replaceCrlf (hcr : p cr = true) (hlf : p lf = true) (hf : f [] = [])
    (s : List α) : SameLines p f (replaceCrlf cr lf s) s := by
  induction s using replaceCrlf.induct cr lf with
  | case1 x y rest hxy ih =>
    obtain ⟨rfl, rfl⟩ := hxy
    simp only [replaceCrlf, and_self, if_true]
    -- the empty line between the two characters is the one that `f` does not see
    have htail := (ih.cons y).tail
    constructor
    · rw [splitOnP_cons_of_pos hlf, splitOnP_cons_of_pos hcr]
      rfl
    · rw [htail, splitOnP_cons_of_pos hcr, List.tail_cons, splitOnP_cons_of_pos hlf,
        List.tail_cons, List.flatMap_cons, hf, List.nil_append]
  | case2 x y rest hxy ih =>
    rw [replaceCrlf, if_neg hxy]
    exact ih.cons x
  | case3 s hs =>
    cases s with
    | nil => exact ⟨rfl, rfl⟩
    | cons x s =>
      cases s with
      | nil => exact ⟨rfl, rfl⟩
      | cons y s => exact absurd rfl (hs x y s)

/-- Dropping the `CR` of a `CR LF` drops an empty line, when both end lines. -/
theorem splitOnP_replaceCrlf (hcr : p cr = true) (hlf : p lf = true) (hf : f [] = [])
    (s : List α) : ((replaceCrlf cr lf s).splitOnP p).flatMap f = (s.splitOnP p).flatMap f :=
  (sameLines_replaceCrlf hcr hlf hf s).flatMap

end Crlf

/-- Where empty lines do not count, a text has the pieces between its breaks. -/
theorem flatMap_splitlines {β : Type} {f : List Char → List β} (hf : f [] = [])
    (s : List Char) : (splitlines s).flatMap f = (s.splitOnP isBreak).flatMap f := by
  rw [← splitOnP_replaceCrlf isBreak_cr isBreak_lf hf s]
  unfold splitlines
  generalize (replaceCrlf '\r' '\n' s).splitOnP isBreak = lines
  by_cases hlast : lines.getLast? = some []
  · obtain ⟨init, rfl⟩ : ∃ init, lines = init ++ [[]] := by
      obtain ⟨init, hinit⟩ := List.getLast?_eq_some_iff.mp hlast
      exact ⟨init, hinit⟩
    simp [hf]
  · rw [if_neg hlast]

end Trelyan.Py.Str
