import Trelyan.Lib.Json

/-!
# What `json.dumps` writes, `json.loads` reads

`loads_dumps` is the round trip.  It goes by the structure of the document
(`scan_print`).  The decoder reads each part from the front of the text and
returns what stands behind it, so every lemma here has a rest of the text that
may be anything, except that digits must not follow an integer.
-/

namespace Trelyan

open Py

/-! ## Digits -/

/-- The text does not go on with a number. -/
def Json.NumberEnd (rest : List Char) : Prop :=
  ∀ c ∈ rest.head?, c.isDigit = false ∧ c ≠ '.' ∧ c ≠ 'e' ∧ c ≠ 'E'

namespace Doc

open Json

theorem toDigits_isDigit (n : Nat) : ∀ c ∈ Nat.toDigits 10 n, c.isDigit = true :=
  fun _ hc => Nat.isDigit_of_mem_toDigits (by decide) (by decide) hc

/-- A positive number does not start with a zero. -/
theorem toDigits_head {n : Nat} (h : 0 < n) :
    ∃ c cs, Nat.toDigits 10 n = c :: cs ∧ c ≠ '0' := by
  induction n using Nat.strong_induction_on with
  | _ n ih =>
    rw [Nat.toDigits_eq_if (by decide)]
    split
    · rename_i hlt
      refine ⟨_, _, rfl, ?_⟩
      intro hzero
      have hval : n.digitChar.toNat = 48 + n := Nat.toNat_digitChar_of_lt_ten hlt
      rw [hzero] at hval
      have h48 : '0'.toNat = 48 := rfl
      omega
    · obtain ⟨c, cs, hdigits, hc⟩ := ih (n / 10) (by omega) (by omega)
      rw [hdigits]
      exact ⟨c, cs ++ _, rfl, hc⟩

theorem span_digits {digits rest : List Char} (hdigits : ∀ c ∈ digits, c.isDigit = true)
    (hrest : NumberEnd rest) : (digits ++ rest).span Char.isDigit = (digits, rest) := by
  have hnil : rest.takeWhile Char.isDigit = [] ∧ rest.dropWhile Char.isDigit = rest := by
    cases rest with
    | nil => exact ⟨rfl, rfl⟩
    | cons c rest =>
      have hc : c.isDigit = false := (hrest c rfl).1
      simp [hc]
  rw [List.span_eq_takeWhile_dropWhile, List.takeWhile_append_of_pos hdigits,
    List.dropWhile_append_of_pos hdigits, hnil.1, hnil.2, List.append_nil]

theorem finishNumber_eq {limits : Limits} {neg : Bool} {digits rest : List Char}
    (hrest : NumberEnd rest) :
    finishNumber limits neg digits rest =
      (intOfDigits limits digits).map fun n : Nat =>
        (.int (if neg then -(n : Int) else n), rest) := by
  have hfraction : scanFraction rest = none := by
    cases rest with
    | nil => rfl
    | cons c rest =>
      have hc := (hrest c rfl).2.1
      unfold scanFraction
      split
      · rename_i heq
        cases heq
        exact absurd rfl hc
      · rfl
  have hexponent : scanExponent rest = none := by
    cases rest with
    | nil => rfl
    | cons c rest =>
      obtain ⟨_, _, he, hE⟩ := hrest c rfl
      unfold scanExponent
      simp [he, hE]
  unfold finishNumber
  rw [hfraction, hexponent]

theorem scanNumber_digits {limits : Limits} {neg : Bool} {n : Nat} {rest : List Char}
    (hfit : limits.Allows (Nat.toDigits 10 n).length) (hrest : NumberEnd rest) :
    scanNumber limits neg (Nat.toDigits 10 n ++ rest) =
      .ok (.int (if neg then -n else n), rest) := by
  have hint : intOfDigits limits (Nat.toDigits 10 n) = .ok n := by
    rw [intOfDigits, if_pos hfit, Nat.ofDigitChars_ten_toDigits]
  rcases Nat.eq_zero_or_pos n with rfl | hpos
  · rw [Nat.toDigits_zero] at *
    show finishNumber limits neg ['0'] rest = _
    rw [finishNumber_eq hrest, hint]
    rfl
  · obtain ⟨c, cs, hdigits, hc⟩ := toDigits_head hpos
    have hall := toDigits_isDigit n
    rw [hdigits] at hint hall
    have hdigit : c.isDigit = true := hall c List.mem_cons_self
    have hspan : (cs ++ rest).span Char.isDigit = (cs, rest) :=
      span_digits (fun c hc => hall c (List.mem_cons_of_mem _ hc)) hrest
    rw [hdigits, List.cons_append]
    unfold scanNumber
    split
    · rename_i heq
      cases heq
      exact absurd rfl hc
    · rename_i heq
      cases heq
      rw [if_pos hdigit, hspan]
      show finishNumber limits neg (c :: cs) rest = _
      rw [finishNumber_eq hrest, hint]
      rfl
    · rename_i heq
      cases heq

/-! ## Strings -/

theorem hexValue_digit : ∀ k < 16, hexValue (Hex.digit k) = some k := by
  decide

theorem hexCode_hexChars {n : Nat} (h : n < 0x10000) :
    hexCode (Hex.digit (n / 4096 % 16)) (Hex.digit (n / 256 % 16)) (Hex.digit (n / 16 % 16))
      (Hex.digit (n % 16)) = some n := by
  unfold hexCode
  rw [hexValue_digit _ (by omega), hexValue_digit _ (by omega), hexValue_digit _ (by omega),
    hexValue_digit _ (by omega)]
  show some _ = some n
  congr 1
  omega

theorem scanCodes_hexChars {n : Nat} (h : n < 0x10000) (rest : List Char) :
    scanCodes ('\\' :: 'u' :: hexChars n ++ rest) = (scanCodes rest).map (consCode n) := by
  unfold hexChars
  show scanCodes ('\\' :: 'u' :: _ :: _ :: _ :: _ :: rest) = _
  rw [scanCodes, hexCode_hexChars h]

/-- The codes that the decoder reads for a character. -/
def units (c : Char) : Text :=
  if c.toNat < 0x10000 then [c.toNat]
  else [0xd800 + (c.toNat - 0x10000) / 0x400, 0xdc00 + (c.toNat - 0x10000) % 0x400]

/-- Put codes in front of a string that was read. -/
def prependCodes (codes : Text) (r : Text × List Char) : Text × List Char := (codes ++ r.1, r.2)

theorem toNat_lt (c : Char) : c.toNat < 0x110000 := by
  rcases c.valid with h | h
  · exact Nat.lt_trans h (by decide)
  · exact h.2

theorem not_surrogate (c : Char) : ¬ (0xd800 ≤ c.toNat ∧ c.toNat ≤ 0xdfff) := by
  intro hs
  rcases c.valid with h | h
  · exact absurd h (Nat.not_lt.mpr hs.1)
  · exact absurd h.1 (Nat.not_lt.mpr hs.2)

theorem map_consCode (codes : Except Error (Text × List Char)) (c : Nat) :
    codes.map (consCode c) = codes.map (prependCodes [c]) := rfl

/-- A character that stands for itself. -/
theorem scanCodes_plain {c : Char} (hquote : c ≠ '"') (hback : c ≠ '\\')
    (hcontrol : 0x20 ≤ c.toNat) (rest : List Char) :
    scanCodes (c :: rest) = (scanCodes rest).map (consCode c.toNat) := by
  rw [scanCodes.eq_def]
  split
  · rename_i heq
    cases heq
  · rename_i heq
    cases heq
    exact absurd rfl hquote
  · rename_i heq
    cases heq
    exact absurd rfl hback
  · rename_i heq
    cases heq
    exact absurd rfl hback
  · rename_i heq
    cases heq
    exact absurd rfl hback
  · rename_i heq
    cases heq
    exact absurd rfl hback
  · rename_i heq
    cases heq
    rw [if_neg (by omega)]

/-- An escape of one character. -/
theorem scanCodes_escape {code e : Char} (hvalue : escapeValue e = some code.toNat) (hu : e ≠ 'u')
    (hlt : code.toNat < 0x10000) (rest : List Char) :
    scanCodes ('\\' :: e :: rest) = (scanCodes rest).map (prependCodes (units code)) := by
  rw [units, if_pos hlt, ← map_consCode, scanCodes.eq_def]
  split
  · rename_i heq
    cases heq
  · rename_i heq
    cases heq
  · rename_i heq
    cases heq
    exact absurd rfl hu
  · rename_i heq
    cases heq
    exact absurd rfl hu
  · rename_i heq
    cases heq
    rw [hvalue]
  · rename_i heq
    cases heq
  · rename_i hnone _ heq
    cases heq
    exact absurd rfl (hnone e rest rfl)

theorem scanCodes_escapeChar (c : Char) (rest : List Char) :
    scanCodes (escapeChar c ++ rest) = (scanCodes rest).map (prependCodes (units c)) := by
  unfold escapeChar
  split
  · rename_i h
    rw [h]
    exact scanCodes_escape rfl (by decide) (by decide) rest
  split
  · rename_i h
    rw [h]
    exact scanCodes_escape rfl (by decide) (by decide) rest
  split
  · rename_i h
    rw [h]
    exact scanCodes_escape rfl (by decide) (by decide) rest
  split
  · rename_i h
    rw [h]
    exact scanCodes_escape rfl (by decide) (by decide) rest
  split
  · rename_i h
    rw [h]
    exact scanCodes_escape rfl (by decide) (by decide) rest
  split
  · rename_i h
    have hvalue : escapeValue 'b' = some c.toNat := congrArg some h.symm
    exact scanCodes_escape hvalue (by decide) (by omega) rest
  split
  · rename_i h
    have hvalue : escapeValue 'f' = some c.toNat := congrArg some h.symm
    exact scanCodes_escape hvalue (by decide) (by omega) rest
  split
  · rename_i hquote hback _ _ _ _ _ h
    rw [units, if_pos (by omega), ← map_consCode]
    exact scanCodes_plain hquote hback h.1 rest
  split
  · rename_i h
    rw [units, if_pos h, ← map_consCode]
    exact scanCodes_hexChars h rest
  · rename_i h
    have hlt := toNat_lt c
    rw [units, if_neg h, List.append_assoc, scanCodes_hexChars (by omega),
      scanCodes_hexChars (by omega)]
    cases scanCodes rest <;> rfl

/-- The decoder joins the two codes of a wide character again. -/
theorem joinPairs_units (c : Char) (codes : Text) :
    joinPairs (units c ++ codes) = c.toNat :: joinPairs codes := by
  unfold units
  split
  · have hhigh : isHighSurrogate c.toNat = false := by
      have h := not_surrogate c
      unfold isHighSurrogate
      simp only [Bool.and_eq_false_iff, decide_eq_false_iff_not]
      omega
    cases codes with
    | nil => rfl
    | cons low codes =>
      show joinPairs (c.toNat :: low :: codes) = _
      rw [joinPairs, hhigh, Bool.false_and, if_neg Bool.false_ne_true]
  · rename_i h
    have hlt := toNat_lt c
    have hpair : (isHighSurrogate (0xd800 + (c.toNat - 0x10000) / 0x400) &&
        isLowSurrogate (0xdc00 + (c.toNat - 0x10000) % 0x400)) = true := by
      unfold isHighSurrogate isLowSurrogate
      simp only [Bool.and_eq_true, decide_eq_true_eq]
      omega
    have hvalue : joinSurrogates (0xd800 + (c.toNat - 0x10000) / 0x400)
        (0xdc00 + (c.toNat - 0x10000) % 0x400) = c.toNat := by
      unfold joinSurrogates
      omega
    rw [List.cons_append, List.cons_append, List.nil_append, joinPairs, if_pos hpair, hvalue]

theorem scanCodes_closeString (s rest : List Char) :
    scanCodes (closeString s ++ rest) = .ok (s.flatMap units, rest) := by
  induction s with
  | nil => rfl
  | cons c s ih =>
    have hsplit : closeString (c :: s) ++ rest = escapeChar c ++ (closeString s ++ rest) := by
      simp [closeString]
    rw [hsplit, scanCodes_escapeChar, ih]
    rfl

/-- A string that was written is read back. -/
theorem scanString_closeString (s : String) (rest : List Char) :
    scanString (closeString s.toList ++ rest) = .ok (Text.ofString s, rest) := by
  have hjoin : ∀ cs : List Char, joinPairs (cs.flatMap units) = cs.map Char.toNat := by
    intro cs
    induction cs with
    | nil => rfl
    | cons c cs ih => rw [List.flatMap_cons, joinPairs_units, ih, List.map_cons]
  unfold scanString Text.ofString
  rw [scanCodes_closeString, ← hjoin]
  rfl

/-! ## Documents -/

/-- What `scanOnce` does on a digit. -/
theorem scanOnce_digit {limits : Limits} {depth : Nat} {c : Char} {rest : List Char}
    (hc : c.isDigit = true) :
    scanOnce limits depth (c :: rest) = scanNumber limits false (c :: rest) := by
  have hne : ∀ d : Char, d.isDigit = false → c ≠ d := by
    intro d hd heq
    rw [heq, hd] at hc
    cases hc
  rw [scanOnce.eq_def]
  split <;> rename_i heq <;>
    first
      | exact absurd (List.cons.inj heq).1 (hne _ (by decide))
      | rfl

theorem scanOnce_minus {limits : Limits} {depth : Nat} {c : Char} {rest : List Char}
    (hc : c.isDigit = true) :
    scanOnce limits depth ('-' :: c :: rest) = scanNumber limits true (c :: rest) := by
  rw [scanOnce.eq_def]
  split <;> rename_i heq <;> try cases heq
  · exact absurd hc (by decide)
  · rfl
  · have hminus : ∀ rest', '-' :: c :: rest = '-' :: rest' → False := by assumption
    exact absurd rfl (hminus _)

theorem scanOnce_intChars {limits : Limits} {depth : Nat} {n : Int} {rest : List Char}
    (hfit : limits.Allows (Nat.toDigits 10 n.natAbs).length) (hrest : NumberEnd rest) :
    scanOnce limits depth (intChars n ++ rest) = .ok (.int n, rest) := by
  obtain ⟨c, cs, hdigits⟩ : ∃ c cs, Nat.toDigits 10 n.natAbs = c :: cs :=
    List.exists_cons_of_ne_nil Nat.toDigits_ne_nil
  have hc : c.isDigit = true := toDigits_isDigit n.natAbs c (hdigits ▸ List.mem_cons_self)
  have hscan : ∀ neg, scanNumber limits neg (c :: cs ++ rest) =
      .ok (.int (if neg then -n.natAbs else n.natAbs), rest) := by
    intro neg
    rw [← hdigits]
    exact scanNumber_digits hfit hrest
  unfold intChars
  rw [hdigits]
  split
  · show scanOnce limits depth ('-' :: c :: (cs ++ rest)) = _
    have hneg : -(n.natAbs : Int) = n := by omega
    rw [scanOnce_minus hc, ← List.cons_append, hscan, if_pos rfl, hneg]
  · have hpos : (n.natAbs : Int) = n := by omega
    rw [List.cons_append, scanOnce_digit hc, ← List.cons_append, hscan, if_neg Bool.false_ne_true,
      hpos]

/-- A document starts with a character that is not blank and closes nothing. -/
theorem print_head (d : Doc) :
    ∃ c cs, d.print = c :: cs ∧ isBlank c = false ∧ c ≠ ']' ∧ c ≠ '\ufeff' := by
  have hdigit : ∀ c : Char, c.isDigit = true →
      isBlank c = false ∧ c ≠ ']' ∧ c ≠ '\ufeff' := by
    intro c hc
    have hne : ∀ d : Char, d.isDigit = false → c ≠ d := by
      intro d hd heq
      rw [heq, hd] at hc
      cases hc
    unfold isBlank
    simp [hne]
  cases d with
  | bool b => cases b <;> exact ⟨_, _, rfl, by decide⟩
  | int n =>
    obtain ⟨c, cs, hdigits⟩ : ∃ c cs, Nat.toDigits 10 n.natAbs = c :: cs :=
      List.exists_cons_of_ne_nil Nat.toDigits_ne_nil
    have hc : c.isDigit = true := toDigits_isDigit n.natAbs c (hdigits ▸ List.mem_cons_self)
    unfold print intChars
    rw [hdigits]
    split
    · exact ⟨_, _, rfl, by decide⟩
    · exact ⟨_, _, rfl, hdigit c hc⟩
  | str s => exact ⟨_, _, rfl, by decide⟩
  | list items => exact ⟨_, _, rfl, by decide⟩
  | dict entries => exact ⟨_, _, rfl, by decide⟩

theorem skipBlank_print (d : Doc) (rest : List Char) :
    skipBlank (d.print ++ rest) = d.print ++ rest := by
  obtain ⟨c, cs, hprint, hblank, -⟩ := print_head d
  rw [hprint, skipBlank, List.cons_append, List.dropWhile_cons, hblank]
  rfl

theorem itemsLength_le : ∀ items : List Doc, items.length ≤ (printItems items).length
  | [] => by simp
  | [d] => by simp [printItems]
  | d :: d' :: items => by
    have ih := itemsLength_le (d' :: items)
    simp only [printItems, List.length_append, List.length_cons] at *
    omega

theorem entriesLength_le : ∀ entries : List (String × Doc),
    entries.length ≤ (printEntries entries).length
  | [] => by simp
  | [(_, d)] => by simp [printEntries]
  | (_, d) :: entry :: entries => by
    have ih := entriesLength_le (entry :: entries)
    simp only [printEntries, List.length_append, List.length_cons] at *
    omega

theorem numberEnd_of {c : Char} (hc : c = ',' ∨ c = ']' ∨ c = '}') (rest : List Char) :
    NumberEnd (c :: rest) := by
  intro d hd
  cases hd
  rcases hc with rfl | rfl | rfl <;> decide

/-- The blank before an item is skipped, and no more. -/
theorem skipBlank_printItems (d : Doc) (items : List Doc) (rest : List Char) :
    skipBlank (printItems (d :: items) ++ rest) = printItems (d :: items) ++ rest := by
  obtain ⟨tail, htail⟩ : ∃ tail, printItems (d :: items) = d.print ++ tail := by
    cases items with
    | nil => exact ⟨_, rfl⟩
    | cons d' items => exact ⟨_, rfl⟩
  rw [htail, List.append_assoc]
  exact skipBlank_print d _

theorem printEntries_cons (key : String) (d : Doc) (entries : List (String × Doc)) :
    ∃ tail, printEntries ((key, d) :: entries) =
      '"' :: closeString key.toList ++ ':' :: ' ' :: tail := by
  cases entries with
  | nil => exact ⟨_, rfl⟩
  | cons entry entries => exact ⟨_, rfl⟩

theorem skipBlank_printEntries (entry : String × Doc) (entries : List (String × Doc))
    (rest : List Char) :
    skipBlank (printEntries (entry :: entries) ++ rest) =
      printEntries (entry :: entries) ++ rest := by
  obtain ⟨key, d⟩ := entry
  obtain ⟨tail, htail⟩ := printEntries_cons key d entries
  rw [htail]
  rfl

theorem scanOnce_items {limits : Limits} {depth : Nat} {d : Doc} {items : List Doc}
    {rest : List Char} {vs : List Json}
    (h : scanItems (scanOnce limits depth) (printItems (d :: items) ++ rest).length
      (printItems (d :: items) ++ rest) = .ok (vs, rest)) :
    scanOnce limits (depth + 1) ('[' :: printItems (d :: items) ++ rest) =
      .ok (.list vs, rest) := by
  have hblank := skipBlank_printItems d items rest
  have hopen : ∀ tail, skipBlank (printItems (d :: items) ++ rest) ≠ ']' :: tail := by
    intro tail heq
    obtain ⟨c, cs, hprint, -, hbracket, -⟩ := print_head d
    have hhead : (printItems (d :: items) ++ rest).head? = some c := by
      cases items <;> simp [printItems, hprint]
    rw [← hblank, heq] at hhead
    exact absurd (Option.some.inj hhead).symm hbracket
  rw [List.cons_append, scanOnce_list hopen, hblank, h]
  rfl

theorem scanOnce_entries {limits : Limits} {depth : Nat} {entry : String × Doc}
    {entries : List (String × Doc)} {rest : List Char} {pairs : List (Text × Json)}
    (h : scanEntries (scanOnce limits depth) (printEntries (entry :: entries) ++ rest).length
      (printEntries (entry :: entries) ++ rest) = .ok (pairs, rest)) :
    scanOnce limits (depth + 1) ('{' :: printEntries (entry :: entries) ++ rest) =
      .ok (.dict (dictOf pairs), rest) := by
  have hblank := skipBlank_printEntries entry entries rest
  have hopen : ∀ tail, skipBlank (printEntries (entry :: entries) ++ rest) ≠ '}' :: tail := by
    intro tail heq
    obtain ⟨tail', htail⟩ := printEntries_cons entry.1 entry.2 entries
    rw [hblank, htail] at heq
    cases heq
  rw [List.cons_append, scanOnce_dict hopen, hblank, h]
  rfl

/-- The last entry of a dictionary: the key, then the value. -/
theorem scanEntries_last {item : List Char → Scan Json} {fuel : Nat} {key : String}
    {after rest : List Char} {v : Json} (hv : item (skipBlank after) = .ok (v, '}' :: rest)) :
    scanEntries item (fuel + 1) ('"' :: closeString key.toList ++ ':' :: ' ' :: after) =
      .ok ([(Text.ofString key, v)], rest) := by
  rw [List.cons_append, scanEntries, scanString_closeString]
  show Except.bind (item (skipBlank after)) _ = _
  rw [hv]
  rfl

/-- An entry and those behind it. -/
theorem scanEntries_more {item : List Char → Scan Json} {fuel : Nat} {key : String}
    {after rest rest' : List Char} {v : Json} {entries : List (Text × Json)}
    (hv : item (skipBlank after) = .ok (v, ',' :: rest))
    (hrest : scanEntries item fuel (skipBlank rest) = .ok (entries, rest')) :
    scanEntries item (fuel + 1) ('"' :: closeString key.toList ++ ':' :: ' ' :: after) =
      .ok ((Text.ofString key, v) :: entries, rest') := by
  rw [List.cons_append, scanEntries, scanString_closeString]
  show Except.bind (item (skipBlank after)) _ = _
  rw [hv]
  show (scanEntries item fuel (skipBlank rest) >>= _) = _
  rw [hrest]
  rfl

mutual

/-- A document that was written is read back, whatever follows it. -/
theorem scan_print {limits : Limits} : ∀ (d : Doc) (depth : Nat) (rest : List Char),
    d.fits limits = true → d.depth ≤ depth → NumberEnd rest →
    scanOnce limits depth (d.print ++ rest) = .ok (d.toJson, rest)
  | bool true, depth, rest, _, _, _ => by
    rw [scanOnce.eq_def]
    rfl
  | bool false, depth, rest, _, _, _ => by
    rw [scanOnce.eq_def]
    rfl
  | int n, depth, rest, hfit, _, hrest => scanOnce_intChars (of_decide_eq_true hfit) hrest
  | str s, depth, rest, _, _, _ => by
    rw [scanOnce.eq_def]
    show (scanString (closeString s.toList ++ rest)).map _ = _
    rw [scanString_closeString]
    rfl
  | list [], depth, rest, _, hdepth, _ => by
    obtain ⟨depth, rfl⟩ : ∃ k, depth = k + 1 := ⟨depth - 1, by simp [Doc.depth] at hdepth; omega⟩
    rw [scanOnce.eq_def]
    rfl
  | list (d :: items), depth, rest, hfit, hdepth, _ => by
    obtain ⟨depth, rfl⟩ : ∃ k, depth = k + 1 := ⟨depth - 1, by simp [Doc.depth] at hdepth; omega⟩
    refine scanOnce_items (scan_printItems (d :: items) depth rest _ (by simp) hfit ?_ ?_)
    · simpa [Doc.depth] using hdepth
    · have hlen := itemsLength_le (d :: items)
      rw [List.length_append]
      omega
  | dict [], depth, rest, _, hdepth, _ => by
    obtain ⟨depth, rfl⟩ : ∃ k, depth = k + 1 := ⟨depth - 1, by simp [Doc.depth] at hdepth; omega⟩
    rw [scanOnce.eq_def]
    rfl
  | dict (entry :: entries), depth, rest, hfit, hdepth, _ => by
    obtain ⟨depth, rfl⟩ : ∃ k, depth = k + 1 := ⟨depth - 1, by simp [Doc.depth] at hdepth; omega⟩
    refine scanOnce_entries (scan_printEntries (entry :: entries) depth rest _ (by simp) hfit ?_ ?_)
    · simpa [Doc.depth] using hdepth
    · have hlen := entriesLength_le (entry :: entries)
      rw [List.length_append]
      omega

theorem scan_printItems {limits : Limits} : ∀ (items : List Doc) (depth : Nat) (rest : List Char)
    (fuel : Nat), items ≠ [] → itemsFit limits items = true → itemsDepth items ≤ depth →
    items.length ≤ fuel →
    scanItems (scanOnce limits depth) fuel (printItems items ++ rest) = .ok (toJsons items, rest)
  | [], _, _, _, hne, _, _, _ => absurd rfl hne
  | [d], depth, rest, fuel, _, hfit, hdepth, hfuel => by
    obtain ⟨fuel, rfl⟩ : ∃ k, fuel = k + 1 := ⟨fuel - 1, by simp at hfuel; omega⟩
    have hd := scan_print d depth (']' :: rest) (by simpa [itemsFit] using hfit)
      (by simpa [itemsDepth] using hdepth) (numberEnd_of (by simp) rest)
    have htext : printItems [d] ++ rest = d.print ++ ']' :: rest := by simp [printItems]
    rw [htext, scanItems, hd]
    rfl
  | d :: d' :: items, depth, rest, fuel, _, hfit, hdepth, hfuel => by
    obtain ⟨fuel, rfl⟩ : ∃ k, fuel = k + 1 := ⟨fuel - 1, by simp at hfuel; omega⟩
    simp only [itemsFit, Bool.and_eq_true] at hfit
    simp only [itemsDepth, max_le_iff] at hdepth
    have hd := scan_print d depth (',' :: ' ' :: (printItems (d' :: items) ++ rest)) hfit.1
      hdepth.1 (numberEnd_of (by simp) _)
    have hitems := scan_printItems (d' :: items) depth rest fuel (by simp)
      (by simpa [itemsFit] using hfit.2) (by simpa [itemsDepth] using hdepth.2)
      (by simp at hfuel ⊢; omega)
    have htext : printItems (d :: d' :: items) ++ rest =
        d.print ++ ',' :: ' ' :: (printItems (d' :: items) ++ rest) := by simp [printItems]
    rw [htext, scanItems, hd]
    show (scanItems (scanOnce limits depth) fuel
      (skipBlank (printItems (d' :: items) ++ rest)) >>= _) = _
    rw [skipBlank_printItems, hitems]
    rfl

theorem scan_printEntries {limits : Limits} : ∀ (entries : List (String × Doc)) (depth : Nat)
    (rest : List Char) (fuel : Nat), entries ≠ [] → entriesFit limits entries = true →
    entriesDepth entries ≤ depth → entries.length ≤ fuel →
    scanEntries (scanOnce limits depth) fuel (printEntries entries ++ rest) =
      .ok (toEntries entries, rest)
  | [], _, _, _, hne, _, _, _ => absurd rfl hne
  | [(key, d)], depth, rest, fuel, _, hfit, hdepth, hfuel => by
    obtain ⟨fuel, rfl⟩ : ∃ k, fuel = k + 1 := ⟨fuel - 1, by simp at hfuel; omega⟩
    have hd := scan_print d depth ('}' :: rest) (by simpa [entriesFit] using hfit)
      (by simpa [entriesDepth] using hdepth) (numberEnd_of (by simp) rest)
    have htext : printEntries [(key, d)] ++ rest =
        '"' :: closeString key.toList ++ ':' :: ' ' :: (d.print ++ '}' :: rest) := by
      simp [printEntries]
    rw [← skipBlank_print] at hd
    rw [htext, scanEntries_last hd]
    rfl
  | (key, d) :: entry :: entries, depth, rest, fuel, _, hfit, hdepth, hfuel => by
    obtain ⟨fuel, rfl⟩ : ∃ k, fuel = k + 1 := ⟨fuel - 1, by simp at hfuel; omega⟩
    simp only [entriesFit, Bool.and_eq_true] at hfit
    simp only [entriesDepth, max_le_iff] at hdepth
    have hd := scan_print d depth (',' :: ' ' :: (printEntries (entry :: entries) ++ rest)) hfit.1
      hdepth.1 (numberEnd_of (by simp) _)
    have hentries := scan_printEntries (entry :: entries) depth rest fuel (by simp)
      (by simpa [entriesFit] using hfit.2) (by simpa [entriesDepth] using hdepth.2)
      (by simp at hfuel ⊢; omega)
    have htext : printEntries ((key, d) :: entry :: entries) ++ rest =
        '"' :: closeString key.toList ++
          ':' :: ' ' :: (d.print ++ ',' :: ' ' :: (printEntries (entry :: entries) ++ rest)) := by
      simp [printEntries]
    have hskip : skipBlank (' ' :: (printEntries (entry :: entries) ++ rest)) =
        printEntries (entry :: entries) ++ rest := skipBlank_printEntries entry entries rest
    rw [← skipBlank_print] at hd
    rw [← hskip] at hentries
    rw [htext, scanEntries_more hd hentries]
    rfl

end

/-- What `json.dumps` writes, `json.loads` reads. -/
theorem loads_dumps {limits : Limits} {d : Doc} {s : List Char} (h : dumps limits d = .ok s)
    (hdepth : d.depth ≤ limits.maxDepth) : loads limits s = .ok d.toJson := by
  unfold dumps at h
  split at h
  · rename_i hfit
    cases h
    obtain ⟨c, cs, hprint, -, -, hbom⟩ := print_head d
    have hscan := scan_print d limits.maxDepth [] hfit hdepth (fun c hc => by cases hc)
    have hskip := skipBlank_print d []
    rw [List.append_nil] at hscan hskip
    have hhead : d.print.head? ≠ some '\ufeff' := by
      rw [hprint]
      exact fun heq => hbom (Option.some.inj heq)
    rw [loads, if_neg hhead, hskip, hscan]
    rfl
  · cases h

end Doc

end Trelyan
