import Mathlib.Data.List.TakeDrop
import Trelyan.Lib.Hex
import Trelyan.Lib.PyInt

/-!
# Python's `json`

The decoder and the encoder of Python's standard library.

`loads` takes what `json.loads` takes, which is more than JSON: `NaN` and
`Infinity` are numbers, the last of equal keys wins, and a `\u` escape may
name half of a surrogate pair.  It fails in three ways.  Text that is not a
document raises `JSONDecodeError`.  An integer that is too long for the
interpreter raises a plain `ValueError`, and a document that is nested too
deeply raises `RecursionError`.

Every value takes at least one character of the text (`scanOnce_consumes`), so
no scan stops for want of fuel (`scanOnce_fuel`).

`Doc` is a document that a program writes: strings of whole characters and no
floats.  `loads_dumps` says that what was written is read back.
-/

namespace Trelyan

open Py

/-- A decoded document. -/
inductive Json where
  | null
  | bool (b : Bool)
  | int (n : Int)
  | float (bits : UInt64)
  | str (s : Text)
  | list (items : List Json)
  /-- The entries in the order of their first insertion. -/
  | dict (entries : List (Text × Json))

namespace Json

/-- `type(v).__name__`. -/
def typeName : Json → String
  | null => "NoneType"
  | bool _ => "bool"
  | int _ => "int"
  | float _ => "float"
  | str _ => "str"
  | list _ => "list"
  | dict _ => "dict"

/-- `bool(v)`. -/
def truthy : Json → Bool
  | null => false
  | bool b => b
  | int n => n ≠ 0
  | float bits => bits.toNat % 2 ^ 63 ≠ 0
  | str s => !s.isEmpty
  | list items => !items.isEmpty
  | dict entries => !entries.isEmpty

/-- `int(v)`. -/
def toInt (limits : Limits) : Json → Except Error Int
  | int n => .ok n
  | bool b => .ok (if b then 1 else 0)
  | float bits => intOfFloat bits
  | str s => intOfText limits s
  | v => .error (.typeError
      ("int() argument must be a string, a bytes-like object or a real number, not '" ++
        v.typeName ++ "'"))

/-- `iter(v)`, as the list of what it yields.  A dictionary yields its keys and
a string its characters. -/
def iter : Json → Except Error (List Json)
  | list items => .ok items
  | dict entries => .ok (entries.map fun entry => str entry.1)
  | str s => .ok (s.map fun c => str [c])
  | v => .error (.typeError ("'" ++ v.typeName ++ "' object is not iterable"))

/-- `d[key] = v`. -/
def setItem (entries : List (Text × Json)) (key : Text) (v : Json) : List (Text × Json) :=
  match entries with
  | [] => [(key, v)]
  | (key', v') :: rest =>
    if key' = key then (key, v) :: rest else (key', v') :: setItem rest key v

/-- `dict(pairs)`. -/
def dictOf (pairs : List (Text × Json)) : List (Text × Json) :=
  pairs.foldl (fun entries pair => setItem entries pair.1 pair.2) []

/-- `d.get(key)`. -/
def getItem? (entries : List (Text × Json)) (key : Text) : Option Json :=
  (entries.find? fun entry => entry.1 = key).map (·.2)

/-! ## Bytes -/

/-- `bytes.decode("utf-8")`. -/
def decodeUtf8 (b : Bytes) : Except Error (List Char) :=
  match (ByteArray.mk b.toArray).utf8Decode? with
  | some s => .ok s.toList
  | none => .error (.exception "UnicodeDecodeError" "'utf-8' codec can't decode the bytes")

/-- `str.encode("utf-8")`. -/
def encodeUtf8 (s : List Char) : Bytes := (String.ofList s).toUTF8.data.toList

theorem decodeUtf8_encodeUtf8 (s : List Char) : decodeUtf8 (encodeUtf8 s) = .ok s := by
  have hbytes : (String.ofList s).toUTF8 = s.utf8Encode := String.toByteArray_ofList
  unfold decodeUtf8 encodeUtf8
  rw [Array.toArray_toList, hbytes, List.utf8Decode?_utf8Encode]

/-! ## The decoder -/

/-- What a part of the decoder returns: a value, and the text that follows it. -/
abbrev Scan (α : Type) := Except Error (α × List Char)

def decodeError (msg : String) : Error := .exception "JSONDecodeError" msg

def recursionError : Error :=
  .exception "RecursionError" "maximum recursion depth exceeded while decoding a JSON document"

/-- White space of JSON. -/
def isBlank (c : Char) : Bool := c = ' ' || c = '\t' || c = '\n' || c = '\r'

def skipBlank (s : List Char) : List Char := s.dropWhile isBlank

def hexValue (c : Char) : Option Nat :=
  if '0' ≤ c ∧ c ≤ '9' then some (c.toNat - '0'.toNat)
  else if 'a' ≤ c ∧ c ≤ 'f' then some (c.toNat - 'a'.toNat + 10)
  else if 'A' ≤ c ∧ c ≤ 'F' then some (c.toNat - 'A'.toNat + 10)
  else none

/-- The code of a `\uXXXX` escape. -/
def hexCode (a b c d : Char) : Option Nat := do
  let a ← hexValue a
  let b ← hexValue b
  let c ← hexValue c
  let d ← hexValue d
  pure (((a * 16 + b) * 16 + c) * 16 + d)

def isHighSurrogate (c : Nat) : Bool := 0xd800 ≤ c && c ≤ 0xdbff

def isLowSurrogate (c : Nat) : Bool := 0xdc00 ≤ c && c ≤ 0xdfff

/-- The character of a surrogate pair. -/
def joinSurrogates (high low : Nat) : Nat := 0x10000 + (high - 0xd800) * 0x400 + (low - 0xdc00)

/-- The character of a one-letter escape. -/
def escapeValue : Char → Option Nat
  | '"' => some 0x22
  | '\\' => some 0x5c
  | '/' => some 0x2f
  | 'b' => some 0x08
  | 'f' => some 0x0c
  | 'n' => some 0x0a
  | 'r' => some 0x0d
  | 't' => some 0x09
  | _ => none

/-- Read each pair of surrogates as one character. -/
def joinPairs : Text → Text
  | high :: low :: rest =>
    if isHighSurrogate high && isLowSurrogate low then joinSurrogates high low :: joinPairs rest
    else high :: joinPairs (low :: rest)
  | s => s

/-- Put a code point in front of a string that was read. -/
def consCode (c : Nat) (r : Text × List Char) : Text × List Char := (c :: r.1, r.2)

def unterminated : Error := decodeError "Unterminated string starting at"

/-- The rest of a string, from behind its opening quote, escape by escape. -/
def scanCodes : List Char → Scan Text
  | [] => .error unterminated
  | '"' :: rest => .ok ([], rest)
  | '\\' :: 'u' :: a :: b :: c :: d :: rest =>
    match hexCode a b c d with
    | none => .error (decodeError "Invalid \\uXXXX escape")
    | some code => (scanCodes rest).map (consCode code)
  | '\\' :: 'u' :: _ => .error (decodeError "Invalid \\uXXXX escape")
  | '\\' :: e :: rest =>
    match escapeValue e with
    | none => .error (decodeError "Invalid \\escape")
    | some code => (scanCodes rest).map (consCode code)
  | '\\' :: [] => .error unterminated
  | c :: rest =>
    if c.toNat < 0x20 then .error (decodeError "Invalid control character at")
    else (scanCodes rest).map (consCode c.toNat)

/-- The rest of a string.  The text itself has no surrogates, so the two of a
pair are escapes that stand side by side. -/
def scanString (s : List Char) : Scan Text := (scanCodes s).map fun r => (joinPairs r.1, r.2)

/-- The fraction of a number: the digits behind the point, if there are any. -/
def scanFraction : List Char → Option (List Char × List Char)
  | '.' :: rest =>
    match rest.span Char.isDigit with
    | ([], _) => none
    | (digits, rest) => some (digits, rest)
  | _ => none

/-- The exponent of a number. -/
def scanExponent : List Char → Option (Bool × List Char × List Char)
  | e :: rest =>
    if e = 'e' || e = 'E' then
      let (neg, rest) := match rest with
        | '-' :: rest => (true, rest)
        | '+' :: rest => (false, rest)
        | rest => (false, rest)
      match rest.span Char.isDigit with
      | ([], _) => none
      | (digits, rest) => some (neg, digits, rest)
    else none
  | [] => none

def expectingValue : Error := decodeError "Expecting value"

/-- What follows the integer part of a number. -/
def finishNumber (limits : Limits) (neg : Bool) (digits rest : List Char) : Scan Json :=
  match scanFraction rest, scanExponent rest with
  | none, none =>
    (intOfDigits limits digits).map fun n : Nat => (.int (if neg then -(n : Int) else n), rest)
  | some (fraction, rest), _ =>
    let mantissa := Nat.ofDigitChars 10 (digits ++ fraction) 0
    match scanExponent rest with
    | none => .ok (.float (floatOfDecimal neg mantissa (-fraction.length)), rest)
    | some (negExp, expDigits, rest) =>
      let e : Int := Nat.ofDigitChars 10 expDigits 0
      .ok (.float (floatOfDecimal neg mantissa ((if negExp then -e else e) - fraction.length)),
        rest)
  | none, some (negExp, expDigits, rest) =>
    let e : Int := Nat.ofDigitChars 10 expDigits 0
    .ok (.float (floatOfDecimal neg (Nat.ofDigitChars 10 digits 0) (if negExp then -e else e)),
      rest)

/-- A number, from behind its sign. -/
def scanNumber (limits : Limits) (neg : Bool) : List Char → Scan Json
  | '0' :: rest => finishNumber limits neg ['0'] rest
  | c :: rest =>
    if c.isDigit then
      let (digits, rest) := rest.span Char.isDigit
      finishNumber limits neg (c :: digits) rest
    else .error expectingValue
  | [] => .error expectingValue

/-- The items of a list and the closing bracket, from the first item on. -/
def scanItems (item : List Char → Scan Json) : Nat → List Char →
    Except Error (List Json × List Char)
  | 0, _ => .error expectingValue
  | fuel + 1, s => do
    let (v, rest) ← item s
    match skipBlank rest with
    | ']' :: rest => .ok ([v], rest)
    | ',' :: rest => do
      let (vs, rest) ← scanItems item fuel (skipBlank rest)
      .ok (v :: vs, rest)
    | _ => .error (decodeError "Expecting ',' delimiter")

def expectingName : Error := decodeError "Expecting property name enclosed in double quotes"

/-- The entries of a dictionary and the closing brace, from the first key on. -/
def scanEntries (item : List Char → Scan Json) : Nat → List Char →
    Except Error (List (Text × Json) × List Char)
  | 0, _ => .error expectingName
  | fuel + 1, s =>
    match s with
    | '"' :: rest => do
      let (key, rest) ← scanString rest
      match skipBlank rest with
      | ':' :: rest => do
        let (v, rest) ← item (skipBlank rest)
        match skipBlank rest with
        | '}' :: rest => .ok ([(key, v)], rest)
        | ',' :: rest => do
          let (entries, rest) ← scanEntries item fuel (skipBlank rest)
          .ok ((key, v) :: entries, rest)
        | _ => .error (decodeError "Expecting ',' delimiter")
      | _ => .error (decodeError "Expecting ':' delimiter")
    | _ => .error expectingName

def positiveInfinity : UInt64 := 0x7ff0000000000000

def negativeInfinity : UInt64 := 0xfff0000000000000

def notANumber : UInt64 := 0x7ff8000000000000

/-- One value at the head of the text: `scan_once`.  Every item takes at least
one character, so the length of the text is enough fuel for the items
(`scanOnce_fuel`). -/
def scanOnce (limits : Limits) (depth : Nat) (s : List Char) : Scan Json :=
  match s with
  | '"' :: rest => (scanString rest).map fun r => (.str r.1, r.2)
  | '{' :: rest =>
    match depth with
    | 0 => .error recursionError
    | depth + 1 =>
      match skipBlank rest with
      | '}' :: rest => .ok (.dict [], rest)
      | rest => (scanEntries (scanOnce limits depth) rest.length rest).map fun r =>
          (.dict (dictOf r.1), r.2)
  | '[' :: rest =>
    match depth with
    | 0 => .error recursionError
    | depth + 1 =>
      match skipBlank rest with
      | ']' :: rest => .ok (.list [], rest)
      | rest => (scanItems (scanOnce limits depth) rest.length rest).map fun r =>
          (.list r.1, r.2)
  | 'n' :: 'u' :: 'l' :: 'l' :: rest => .ok (.null, rest)
  | 't' :: 'r' :: 'u' :: 'e' :: rest => .ok (.bool true, rest)
  | 'f' :: 'a' :: 'l' :: 's' :: 'e' :: rest => .ok (.bool false, rest)
  | 'N' :: 'a' :: 'N' :: rest => .ok (.float notANumber, rest)
  | 'I' :: 'n' :: 'f' :: 'i' :: 'n' :: 'i' :: 't' :: 'y' :: rest =>
    .ok (.float positiveInfinity, rest)
  | '-' :: 'I' :: 'n' :: 'f' :: 'i' :: 'n' :: 'i' :: 't' :: 'y' :: rest =>
    .ok (.float negativeInfinity, rest)
  | '-' :: rest => scanNumber limits true rest
  | rest => scanNumber limits false rest

/-- `json.loads` of a string. -/
def loads (limits : Limits) (s : List Char) : Except Error Json :=
  if s.head? = some '\ufeff' then
    .error (decodeError "Unexpected UTF-8 BOM (decode using utf-8-sig)")
  else do
    let (v, rest) ← scanOnce limits limits.maxDepth (skipBlank s)
    match skipBlank rest with
    | [] => .ok v
    | _ => .error (decodeError "Extra data")

/-- A list that is not empty. -/
theorem scanOnce_list {limits : Limits} {depth : Nat} {rest : List Char}
    (h : ∀ tail, skipBlank rest ≠ ']' :: tail) :
    scanOnce limits (depth + 1) ('[' :: rest) =
      (scanItems (scanOnce limits depth) (skipBlank rest).length (skipBlank rest)).map
        fun r => (.list r.1, r.2) := by
  rw [scanOnce.eq_def]
  show (match skipBlank rest with
    | ']' :: rest => Except.ok (Json.list [], rest)
    | rest => (scanItems (scanOnce limits depth) rest.length rest).map
        fun r : List Json × List Char => (.list r.1, r.2)) = _
  split
  · rename_i tail hbracket
    exact absurd hbracket (h tail)
  · rfl

/-- A dictionary that is not empty. -/
theorem scanOnce_dict {limits : Limits} {depth : Nat} {rest : List Char}
    (h : ∀ tail, skipBlank rest ≠ '}' :: tail) :
    scanOnce limits (depth + 1) ('{' :: rest) =
      (scanEntries (scanOnce limits depth) (skipBlank rest).length (skipBlank rest)).map
        fun r => (.dict (dictOf r.1), r.2) := by
  rw [scanOnce.eq_def]
  show (match skipBlank rest with
    | '}' :: rest => Except.ok (Json.dict [], rest)
    | rest => (scanEntries (scanOnce limits depth) rest.length rest).map
        fun r : List (Text × Json) × List Char => (.dict (dictOf r.1), r.2)) = _
  split
  · rename_i tail hbrace
    exact absurd hbrace (h tail)
  · rfl

/-- There is no document in an empty text. -/
theorem loads_nil (limits : Limits) : ∃ msg, loads limits [] = .error (decodeError msg) := by
  unfold loads
  rw [if_neg (by simp)]
  unfold scanOnce
  exact ⟨_, rfl⟩

/-! ## The text that is left -/

section Leaves

variable {α β : Type}

/-- What is left of the text is shorter than `n`. -/
def Leaves (n : Nat) (x : Scan α) : Prop := ∀ a rest, x = .ok (a, rest) → rest.length < n

theorem leaves_error {n : Nat} (e : Error) : Leaves n (.error e : Scan α) := by
  intro a rest h
  cases h

theorem leaves_ok {n : Nat} {a : α} {rest : List Char} (h : rest.length < n) :
    Leaves n (.ok (a, rest)) := by
  intro a' rest' heq
  cases heq
  exact h

theorem Leaves.mono {n m : Nat} {x : Scan α} (h : Leaves n x) (hnm : n ≤ m) : Leaves m x :=
  fun a rest heq => Nat.lt_of_lt_of_le (h a rest heq) hnm

theorem Leaves.map {n : Nat} {x : Scan α} (h : Leaves n x) {f : α × List Char → β × List Char}
    (hf : ∀ r, (f r).2 = r.2) : Leaves n (x.map f) := by
  intro b rest heq
  cases x with
  | error e => cases heq
  | ok r =>
    have hrest : (f r).2 = rest := congrArg Prod.snd (Except.ok.inj heq)
    rw [← hrest, hf r]
    exact h r.1 r.2 rfl

theorem Leaves.bind {n : Nat} {x : Except Error (α × List Char)}
    {f : α × List Char → Except Error (β × List Char)} (h : Leaves n x)
    (hf : ∀ a rest, rest.length < n → Leaves n (f (a, rest))) :
    Leaves n (x >>= f : Except Error (β × List Char)) := by
  intro b rest heq
  obtain ⟨⟨a, rest'⟩, hx, hb⟩ := bind_eq_ok.mp heq
  exact hf a rest' (h a rest' hx) b rest hb

theorem skipBlank_length_le (s : List Char) : (skipBlank s).length ≤ s.length :=
  (List.dropWhile_suffix _).length_le

/-- A character that is read behind blanks. -/
theorem length_of_skipBlank {s rest : List Char} {c : Char} (h : skipBlank s = c :: rest) :
    rest.length < s.length := by
  have hle := skipBlank_length_le s
  rw [h, List.length_cons] at hle
  omega

theorem scanCodes_leaves (s : List Char) : Leaves (s.length + 1) (scanCodes s) := by
  fun_induction scanCodes s <;>
    first
      | exact leaves_error _
      | exact leaves_ok (by rw [List.length_cons]; omega)
      | refine Leaves.mono (Leaves.map (by assumption) fun _ => rfl) (by simp)

theorem scanString_leaves (s : List Char) : Leaves (s.length + 1) (scanString s) :=
  (scanCodes_leaves s).map fun _ => rfl

theorem span_rest_length_le {p : Char → Bool} {s digits rest : List Char}
    (h : s.span p = (digits, rest)) : rest.length ≤ s.length := by
  rw [List.span_eq_takeWhile_dropWhile] at h
  cases h
  exact (List.dropWhile_suffix p).length_le

theorem scanFraction_length {s digits rest : List Char} (h : scanFraction s = some (digits, rest)) :
    rest.length < s.length := by
  unfold scanFraction at h
  split at h
  · split at h
    · cases h
    · rename_i hspan
      cases h
      exact Nat.lt_succ_of_le (span_rest_length_le hspan)
  · cases h

theorem sign_length_le (s : List Char) : (match s with
    | '-' :: rest => (true, rest)
    | '+' :: rest => (false, rest)
    | rest => (false, rest) : Bool × List Char).2.length ≤ s.length := by
  split <;> simp

theorem scanExponent_length {s digits rest : List Char} {neg : Bool}
    (h : scanExponent s = some (neg, digits, rest)) : rest.length < s.length := by
  unfold scanExponent at h
  split at h
  · rename_i e tail
    have hsign := sign_length_le tail
    split at h
    · dsimp only at h
      split at h
      · cases h
      · rename_i hspan
        cases h
        exact Nat.lt_succ_of_le ((span_rest_length_le hspan).trans hsign)
    · cases h
  · cases h

theorem finishNumber_leaves (limits : Limits) (neg : Bool) (digits rest : List Char) :
    Leaves (rest.length + 1) (finishNumber limits neg digits rest) := by
  unfold finishNumber
  split
  · intro v rest' heq
    cases hint : intOfDigits limits digits with
    | error e =>
      rw [hint] at heq
      cases heq
    | ok n =>
      rw [hint] at heq
      cases heq
      omega
  · rename_i rest' hfraction
    have hlt := scanFraction_length hfraction
    split
    · exact leaves_ok (by omega)
    · rename_i hexponent
      have hlt' := scanExponent_length hexponent
      exact leaves_ok (by omega)
  · rename_i hexponent
    have hlt := scanExponent_length hexponent
    exact leaves_ok (by omega)

theorem scanNumber_leaves (limits : Limits) (neg : Bool) (s : List Char) :
    Leaves s.length (scanNumber limits neg s) := by
  unfold scanNumber
  split
  · exact finishNumber_leaves limits neg _ _
  · split
    · split
      rename_i hspan
      exact (finishNumber_leaves limits neg _ _).mono
        (Nat.succ_le_succ (span_rest_length_le hspan))
    · exact leaves_error _
  · exact leaves_error _

/-- A scanner that takes at least one character. -/
def Consumes (item : List Char → Scan Json) : Prop := ∀ s, Leaves s.length (item s)

variable {item : List Char → Scan Json}

theorem scanItems_leaves (hitem : Consumes item) (fuel : Nat) (s : List Char) :
    Leaves s.length (scanItems item fuel s) := by
  induction fuel generalizing s with
  | zero => exact leaves_error _
  | succ fuel ih =>
    unfold scanItems
    refine Leaves.bind (hitem s) ?_
    intro v rest hrest
    dsimp only
    split
    · rename_i rest' hblank
      have hlt := length_of_skipBlank hblank
      exact leaves_ok (by omega)
    · rename_i rest' hblank
      have hlt := length_of_skipBlank hblank
      have hle := skipBlank_length_le rest'
      refine Leaves.bind ((ih (skipBlank rest')).mono (by omega)) ?_
      intro vs rest'' hlt'
      exact leaves_ok hlt'
    · exact leaves_error _

theorem scanEntries_leaves (hitem : Consumes item) (fuel : Nat) (s : List Char) :
    Leaves s.length (scanEntries item fuel s) := by
  induction fuel generalizing s with
  | zero => exact leaves_error _
  | succ fuel ih =>
    unfold scanEntries
    split
    · rename_i rest
      refine Leaves.bind ((scanString_leaves rest).mono (Nat.le_refl _)) ?_
      intro key rest' hrest
      dsimp only
      split
      · rename_i rest'' hcolon
        have hlt := length_of_skipBlank hcolon
        have hle := skipBlank_length_le rest''
        refine Leaves.bind ((hitem _).mono (by omega)) ?_
        intro v rest₃ hlt₃
        dsimp only
        split
        · rename_i rest₄ hblank
          have hlt₄ := length_of_skipBlank hblank
          exact leaves_ok (by omega)
        · rename_i rest₄ hblank
          have hlt₄ := length_of_skipBlank hblank
          have hle₄ := skipBlank_length_le rest₄
          refine Leaves.bind ((ih (skipBlank rest₄)).mono (by omega)) ?_
          intro entries rest₅ hlt₅
          exact leaves_ok hlt₅
        · exact leaves_error _
      · exact leaves_error _
    · exact leaves_error _

theorem scanOnce_consumes (limits : Limits) (depth : Nat) : Consumes (scanOnce limits depth) := by
  induction depth with
  | zero =>
    intro s
    unfold scanOnce
    split <;>
      first
        | exact leaves_error _
        | exact scanNumber_leaves limits _ _
        | exact (scanNumber_leaves limits _ _).mono (Nat.le_succ _)
        | exact (scanString_leaves _).map fun _ => rfl
        | exact leaves_ok (by simp only [List.length_cons]; omega)
  | succ depth ih =>
    intro s
    unfold scanOnce
    split
    · exact (scanString_leaves _).map fun _ => rfl
    · rename_i rest
      have hle := skipBlank_length_le rest
      dsimp only
      split
      · rename_i rest' hblank
        have hlt := length_of_skipBlank hblank
        exact leaves_ok (by rw [List.length_cons]; omega)
      · exact ((scanEntries_leaves ih _ _).mono (by rw [List.length_cons]; omega)).map fun _ => rfl
    · rename_i rest
      have hle := skipBlank_length_le rest
      dsimp only
      split
      · rename_i rest' hblank
        have hlt := length_of_skipBlank hblank
        exact leaves_ok (by rw [List.length_cons]; omega)
      · exact ((scanItems_leaves ih _ _).mono (by rw [List.length_cons]; omega)).map fun _ => rfl
    all_goals
      first
        | exact scanNumber_leaves limits _ _
        | exact (scanNumber_leaves limits _ _).mono (Nat.le_succ _)
        | exact leaves_ok (by simp only [List.length_cons]; omega)

section Fuel

variable (hitem : Consumes item) {fuel fuel' : Nat} {s : List Char}

include hitem

/-- More fuel than the text is long makes no difference. -/
theorem scanItems_fuel (hnil : item [] = .error expectingValue) (h : s.length ≤ fuel)
    (h' : s.length ≤ fuel') : scanItems item fuel s = scanItems item fuel' s := by
  have hempty : ∀ fuel, scanItems item fuel [] = .error expectingValue := by
    intro fuel
    cases fuel with
    | zero => rfl
    | succ fuel =>
      unfold scanItems
      rw [hnil]
      rfl
  induction fuel generalizing fuel' s with
  | zero => rw [List.length_eq_zero_iff.mp (Nat.le_zero.mp h), hempty, hempty]
  | succ fuel ih =>
    cases fuel' with
    | zero => rw [List.length_eq_zero_iff.mp (Nat.le_zero.mp h'), hempty, hempty]
    | succ fuel' =>
      have hrest : ∀ v rest, item s = .ok (v, rest) → ∀ rest', skipBlank rest = ',' :: rest' →
          scanItems item fuel (skipBlank rest') = scanItems item fuel' (skipBlank rest') := by
        intro v rest hv rest' hcomma
        have hlt := hitem s v rest hv
        have hlt' := length_of_skipBlank hcomma
        have hle := skipBlank_length_le rest'
        exact ih (by omega) (by omega)
      unfold scanItems
      cases hv : item s with
      | error e => rfl
      | ok r =>
        show (match skipBlank r.2 with | ']' :: rest => _ | ',' :: rest => _ | _ => _) =
          (match skipBlank r.2 with | ']' :: rest => _ | ',' :: rest => _ | _ => _)
        split
        · rfl
        · rename_i rest' hcomma
          rw [hrest r.1 r.2 hv rest' hcomma]
        · rfl

theorem scanEntries_fuel (h : s.length ≤ fuel) (h' : s.length ≤ fuel') :
    scanEntries item fuel s = scanEntries item fuel' s := by
  have hempty : ∀ fuel, scanEntries item fuel [] = .error expectingName := by
    intro fuel
    cases fuel with
    | zero => rfl
    | succ fuel => rfl
  induction fuel generalizing fuel' s with
  | zero => rw [List.length_eq_zero_iff.mp (Nat.le_zero.mp h), hempty, hempty]
  | succ fuel ih =>
    cases fuel' with
    | zero => rw [List.length_eq_zero_iff.mp (Nat.le_zero.mp h'), hempty, hempty]
    | succ fuel' =>
      unfold scanEntries
      split
      · rename_i tail
        cases hkey : scanString tail with
        | error e => rfl
        | ok r =>
          have hlt := scanString_leaves tail r.1 r.2 hkey
          show (match skipBlank r.2 with | ':' :: rest => _ | _ => _) =
            (match skipBlank r.2 with | ':' :: rest => _ | _ => _)
          split
          · rename_i rest hcolon
            have hlt' := length_of_skipBlank hcolon
            have hle' := skipBlank_length_le rest
            cases hv : item (skipBlank rest) with
            | error e => rfl
            | ok r' =>
              have hlt₂ := hitem (skipBlank rest) r'.1 r'.2 hv
              show (match skipBlank r'.2 with | '}' :: rest => _ | ',' :: rest => _ | _ => _) =
                (match skipBlank r'.2 with | '}' :: rest => _ | ',' :: rest => _ | _ => _)
              split
              · rfl
              · rename_i rest' hcomma
                have hlt₃ := length_of_skipBlank hcomma
                have hle₃ := skipBlank_length_le rest'
                rw [List.length_cons] at h h'
                have htail : scanEntries item fuel (skipBlank rest') =
                    scanEntries item fuel' (skipBlank rest') := ih (by omega) (by omega)
                rw [htail]
              · rfl
          · rfl
      · rfl

omit hitem

/-- The fuel that `scanOnce` gives to items and entries is enough. -/
theorem scanOnce_fuel (limits : Limits) (depth : Nat) (h : s.length ≤ fuel) :
    scanItems (scanOnce limits depth) fuel s =
      scanItems (scanOnce limits depth) s.length s ∧
    scanEntries (scanOnce limits depth) fuel s =
      scanEntries (scanOnce limits depth) s.length s := by
  have hitem := scanOnce_consumes limits depth
  have hnil : scanOnce limits depth [] = .error expectingValue := by
    unfold scanOnce
    rfl
  exact ⟨scanItems_fuel hitem hnil h (Nat.le_refl _), scanEntries_fuel hitem h (Nat.le_refl _)⟩

end Fuel

end Leaves

/-! ## What the decoder raises -/

/-- The exceptions of the decoder. -/
def Raises (e : Error) : Prop :=
  e.className = "JSONDecodeError" ∨ e.className = "ValueError" ∨ e.className = "RecursionError"

section Raises

/-- Every exception of `x` is one of the decoder's. -/
abbrev Decodes {α : Type} (x : Except Error α) : Prop := Errors Raises x

theorem decodes_decodeError {α : Type} (msg : String) :
    Decodes (.error (decodeError msg) : Except Error α) :=
  errors_error (Or.inl rfl)

theorem scanCodes_decodes (s : List Char) : Decodes (scanCodes s) := by
  -- One case for each branch: it fails, ends, or goes on with the rest.
  fun_induction scanCodes s <;>
    first
      | exact decodes_decodeError _
      | exact errors_ok _
      | exact Errors.map (by assumption) _

theorem intOfDigits_decodes (limits : Limits) (digits : List Char) :
    Decodes (intOfDigits limits digits) := by
  unfold intOfDigits
  split
  · exact errors_ok _
  · exact errors_error (Or.inr (Or.inl rfl))

theorem finishNumber_decodes (limits : Limits) (neg : Bool) (digits rest : List Char) :
    Decodes (finishNumber limits neg digits rest) := by
  unfold finishNumber
  split
  · exact Errors.map (intOfDigits_decodes limits digits) _
  · split <;> exact errors_ok _
  · exact errors_ok _

theorem scanNumber_decodes (limits : Limits) (neg : Bool) (s : List Char) :
    Decodes (scanNumber limits neg s) := by
  unfold scanNumber
  split
  · exact finishNumber_decodes limits neg _ _
  · split
    · exact finishNumber_decodes limits neg _ _
    · exact decodes_decodeError _
  · exact decodes_decodeError _

variable {item : List Char → Scan Json} (hitem : ∀ s, Decodes (item s))

include hitem

theorem scanItems_decodes (fuel : Nat) (s : List Char) : Decodes (scanItems item fuel s) := by
  induction fuel generalizing s with
  | zero => exact decodes_decodeError _
  | succ fuel ih =>
    unfold scanItems
    refine Errors.bind (hitem s) ?_
    rintro ⟨v, rest⟩
    dsimp only
    split
    · exact errors_ok _
    · exact Errors.bind (ih _) fun _ => errors_ok _
    · exact decodes_decodeError _

theorem scanEntries_decodes (fuel : Nat) (s : List Char) :
    Decodes (scanEntries item fuel s) := by
  induction fuel generalizing s with
  | zero => exact decodes_decodeError _
  | succ fuel ih =>
    unfold scanEntries
    split
    · refine Errors.bind (Errors.map (scanCodes_decodes _) _) ?_
      rintro ⟨key, rest⟩
      dsimp only
      split
      · refine Errors.bind (hitem _) ?_
        rintro ⟨v, rest⟩
        dsimp only
        split
        · exact errors_ok _
        · exact Errors.bind (ih _) fun _ => errors_ok _
        · exact decodes_decodeError _
      · exact decodes_decodeError _
    · exact decodes_decodeError _

omit hitem

theorem scanOnce_decodes (limits : Limits) (depth : Nat) (s : List Char) :
    Decodes (scanOnce limits depth s) := by
  have hrecursion : Decodes (.error recursionError : Scan Json) :=
    errors_error (Or.inr (Or.inr rfl))
  induction depth generalizing s with
  | zero =>
    unfold scanOnce
    split <;>
      first
        | exact hrecursion
        | exact errors_ok _
        | exact scanNumber_decodes limits _ _
        | exact Errors.map (Errors.map (scanCodes_decodes _) _) _
  | succ depth ih =>
    unfold scanOnce
    split
    · exact Errors.map (Errors.map (scanCodes_decodes _) _) _
    · dsimp only
      split
      · exact errors_ok _
      · exact Errors.map (scanEntries_decodes (fun s => ih s) _ _) _
    · dsimp only
      split
      · exact errors_ok _
      · exact Errors.map (scanItems_decodes (fun s => ih s) _ _) _
    all_goals
      first
        | exact errors_ok _
        | exact scanNumber_decodes limits _ _

/-- The decoder raises nothing else. -/
theorem loads_decodes (limits : Limits) (s : List Char) : Decodes (loads limits s) := by
  unfold loads
  split
  · exact decodes_decodeError _
  · refine Errors.bind (scanOnce_decodes limits _ _) ?_
    rintro ⟨v, rest⟩
    dsimp only
    split
    · exact errors_ok _
    · exact decodes_decodeError _

end Raises

end Json

/-! ## The encoder -/

/-- A document that a program writes: no floats, and strings without
surrogates. -/
inductive Doc where
  | bool (b : Bool)
  | int (n : Int)
  | str (s : String)
  | list (items : List Doc)
  | dict (entries : List (String × Doc))

namespace Doc

open Json

mutual

/-- The document as the decoder returns it. -/
def toJson : Doc → Json
  | bool b => .bool b
  | int n => .int n
  | str s => .str (Text.ofString s)
  | list items => .list (toJsons items)
  | dict entries => .dict (dictOf (toEntries entries))

def toJsons : List Doc → List Json
  | [] => []
  | d :: items => d.toJson :: toJsons items

def toEntries : List (String × Doc) → List (Text × Json)
  | [] => []
  | (key, d) :: entries => (Text.ofString key, d.toJson) :: toEntries entries

end

mutual

/-- How deep the document nests. -/
def depth : Doc → Nat
  | bool _ => 0
  | int _ => 0
  | str _ => 0
  | list items => itemsDepth items + 1
  | dict entries => entriesDepth entries + 1

def itemsDepth : List Doc → Nat
  | [] => 0
  | d :: items => max d.depth (itemsDepth items)

def entriesDepth : List (String × Doc) → Nat
  | [] => 0
  | (_, d) :: entries => max d.depth (entriesDepth entries)

end

/-- `int.__repr__`. -/
def intChars (n : Int) : List Char :=
  if n < 0 then '-' :: Nat.toDigits 10 n.natAbs else Nat.toDigits 10 n.natAbs

/-- `{:04x}`. -/
def hexChars (n : Nat) : List Char :=
  [Hex.digit (n / 4096 % 16), Hex.digit (n / 256 % 16), Hex.digit (n / 16 % 16),
    Hex.digit (n % 16)]

/-- `py_encode_basestring_ascii` on one character. -/
def escapeChar (c : Char) : List Char :=
  if c = '"' then ['\\', '"']
  else if c = '\\' then ['\\', '\\']
  else if c = '\n' then ['\\', 'n']
  else if c = '\r' then ['\\', 'r']
  else if c = '\t' then ['\\', 't']
  else if c.toNat = 0x08 then ['\\', 'b']
  else if c.toNat = 0x0c then ['\\', 'f']
  else if 0x20 ≤ c.toNat ∧ c.toNat < 0x7f then [c]
  else if c.toNat < 0x10000 then '\\' :: 'u' :: hexChars c.toNat
  else
    '\\' :: 'u' :: hexChars (0xd800 + (c.toNat - 0x10000) / 0x400) ++
      '\\' :: 'u' :: hexChars (0xdc00 + (c.toNat - 0x10000) % 0x400)

/-- The rest of a string, from behind its opening quote. -/
def closeString (s : List Char) : List Char := s.flatMap escapeChar ++ ['"']

mutual

def print : Doc → List Char
  | bool true => ['t', 'r', 'u', 'e']
  | bool false => ['f', 'a', 'l', 's', 'e']
  | int n => intChars n
  | str s => '"' :: closeString s.toList
  | list items => '[' :: printItems items
  | dict entries => '{' :: printEntries entries

/-- The items of a list and the closing bracket. -/
def printItems : List Doc → List Char
  | [] => [']']
  | [d] => d.print ++ [']']
  | d :: items => d.print ++ ',' :: ' ' :: printItems items

/-- The entries of a dictionary and the closing brace. -/
def printEntries : List (String × Doc) → List Char
  | [] => ['}']
  | [(key, d)] => '"' :: closeString key.toList ++ ':' :: ' ' :: (d.print ++ ['}'])
  | (key, d) :: entries =>
    '"' :: closeString key.toList ++ ':' :: ' ' :: (d.print ++ ',' :: ' ' :: printEntries entries)

end

mutual

/-- No integer is too long to write. -/
def fits (limits : Limits) : Doc → Bool
  | bool _ => true
  | int n => decide (limits.Allows (Nat.toDigits 10 n.natAbs).length)
  | str _ => true
  | list items => itemsFit limits items
  | dict entries => entriesFit limits entries

def itemsFit (limits : Limits) : List Doc → Bool
  | [] => true
  | d :: items => d.fits limits && itemsFit limits items

def entriesFit (limits : Limits) : List (String × Doc) → Bool
  | [] => true
  | (_, d) :: entries => d.fits limits && entriesFit limits entries

end

/-- `json.dumps`. -/
def dumps (limits : Limits) (d : Doc) : Except Error (List Char) :=
  if d.fits limits then .ok d.print else .error tooManyDigits

end Doc

end Trelyan
