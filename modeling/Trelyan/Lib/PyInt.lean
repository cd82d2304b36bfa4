import Trelyan.Lib.Python

/-!
# Python's `int`

The conversions to an integer that Python performs on a string, a byte string
and a float, and the limit that the interpreter puts on them.

A Python string is a list of code points (`Text`).  It may hold lone
surrogates, which a Lean `String` cannot.  `int` reads the decimal digits of
every script, allows one underscore between digits, and ignores white space
around the number.
-/

namespace Trelyan.Py

/-- A Python string: its code points. -/
abbrev Text := List Nat

/-- A string without surrogates. -/
def Text.ofString (s : String) : Text := s.toList.map Char.toNat

/-- What the running interpreter fixes. -/
structure Limits where
  /-- `sys.get_int_max_str_digits()`.  Zero is no limit, and the least limit
  that can be set is 640. -/
  maxStrDigits : Nat
  maxStrDigits_valid : maxStrDigits = 0 ∨ 640 ≤ maxStrDigits
  /-- How deep the decoder may nest before it raises `RecursionError`.  Two levels
  are always left. -/
  maxDepth : Nat
  two_le_maxDepth : 2 ≤ maxDepth

/-- The interpreter's defaults. -/
def Limits.default : Limits := ⟨4300, by decide, 990, by decide⟩

/-- A decimal number of `n` digits is not too long to convert. -/
def Limits.Allows (limits : Limits) (n : Nat) : Prop :=
  limits.maxStrDigits = 0 ∨ n ≤ limits.maxStrDigits

instance (limits : Limits) (n : Nat) : Decidable (limits.Allows n) :=
  inferInstanceAs (Decidable (_ ∨ _))

def tooManyDigits : Error :=
  .valueError "Exceeds the limit for integer string conversion"

/-- The number that decimal digits spell. -/
def intOfDigits (limits : Limits) (digits : List Char) : Except Error Nat :=
  if limits.Allows digits.length then .ok (Nat.ofDigitChars 10 digits 0)
  else .error tooManyDigits

/-! ## Strings -/

/-- The digit zero of each script.  The other nine follow it. -/
def decimalZeros : List Nat :=
  [0x30, 0x660, 0x6f0, 0x7c0, 0x966, 0x9e6, 0xa66, 0xae6, 0xb66, 0xbe6, 0xc66, 0xce6, 0xd66,
    0xde6, 0xe50, 0xed0, 0xf20, 0x1040, 0x1090, 0x17e0, 0x1810, 0x1946, 0x19d0, 0x1a80, 0x1a90,
    0x1b50, 0x1bb0, 0x1c40, 0x1c50, 0xa620, 0xa8d0, 0xa900, 0xa9d0, 0xa9f0, 0xaa50, 0xabf0,
    0xff10, 0x104a0, 0x10d30, 0x11066, 0x110f0, 0x11136, 0x111d0, 0x112f0, 0x11450, 0x114d0,
    0x11650, 0x116c0, 0x11730, 0x118e0, 0x11950, 0x11c50, 0x11d50, 0x11da0, 0x16a60, 0x16ac0,
    0x16b50, 0x1d7ce, 0x1d7d8, 0x1d7e2, 0x1d7ec, 0x1d7f6, 0x1e140, 0x1e2f0, 0x1e950, 0x1fbf0]

/-- `unicodedata.decimal`. -/
def decimalValue (c : Nat) : Option Nat :=
  (decimalZeros.find? fun first => first ≤ c ∧ c < first + 10).map (c - ·)

/-- White space beyond ASCII. -/
def isWideSpace (c : Nat) : Bool :=
  c = 0x85 || c = 0xa0 || c = 0x1680 || (0x2000 ≤ c && c ≤ 0x200a) || c = 0x2028 || c = 0x2029 ||
    c = 0x202f || c = 0x205f || c = 0x3000

/-- White space in ASCII, as C's `isspace`. -/
def isSpace (c : Char) : Bool := c = ' ' || ('\t' ≤ c && c ≤ '\r')

/-- The ASCII character that `int` reads for a code point. -/
def toAsciiDigit (c : Nat) : Char :=
  if c < 127 then Char.ofNat c
  else if isWideSpace c then ' '
  else match decimalValue c with
    | some d => Nat.digitChar d
    | none => '?'

def strip (s : List Char) : List Char :=
  ((s.dropWhile isSpace).reverse.dropWhile isSpace).reverse

/-- Digits with single underscores between them, without the underscores. -/
def groupedDigits : List Char → Option (List Char)
  | [] => none
  | [c] => if c.isDigit then some [c] else none
  | c :: '_' :: rest => if c.isDigit then (groupedDigits rest).map (c :: ·) else none
  | c :: rest => if c.isDigit then (groupedDigits rest).map (c :: ·) else none

def invalidLiteral : Error := .valueError "invalid literal for int() with base 10"

/-- `int` of an ASCII string. -/
def intOfAscii (limits : Limits) (s : List Char) : Except Error Int :=
  let (neg, body) := match strip s with
    | '-' :: rest => (true, rest)
    | '+' :: rest => (false, rest)
    | rest => (false, rest)
  match groupedDigits body with
  | some digits => (intOfDigits limits digits).map fun n : Nat => if neg then -(n : Int) else n
  | none => .error invalidLiteral

/-- `int` of a string. -/
def intOfText (limits : Limits) (s : Text) : Except Error Int :=
  intOfAscii limits (s.map toAsciiDigit)

/-! ## Floats -/

/-- `int` of a float, by its IEEE 754 bits: the integer part. -/
def intOfFloat (bits : UInt64) : Except Error Int :=
  let exponent := bits.toNat / 2 ^ 52 % 2048
  let fraction := bits.toNat % 2 ^ 52
  if exponent = 2047 then
    if fraction = 0 then .error (.overflowError "cannot convert float infinity to integer")
    else .error (.valueError "cannot convert float NaN to integer")
  else
    let mantissa := if exponent = 0 then fraction else fraction + 2 ^ 52
    -- The value is `mantissa * 2 ^ (max exponent 1 - 1075)`.
    let n : Nat := mantissa * 2 ^ (max exponent 1 - 1075) / 2 ^ (1075 - max exponent 1)
    .ok (if 2 ^ 63 ≤ bits.toNat then -(n : Int) else n)

/-- The integer nearest to `num / den`, the even one of two. -/
def roundHalfEven (num den : Nat) : Nat :=
  let q := num / den
  let r := num % den
  if 2 * r < den ∨ (2 * r = den ∧ q % 2 = 0) then q else q + 1

/-- The float nearest to `num / den`. -/
def floatOfRatio (neg : Bool) (num den : Nat) : UInt64 :=
  let sign := if neg then 2 ^ 63 else 0
  if num = 0 then UInt64.ofNat sign
  else
    -- `2 ^ log` is at most the value and `2 ^ (log + 1)` is above it.
    let near : Int := (Nat.log2 num : Int) - (Nat.log2 den : Int)
    let below : Bool :=
      if 0 ≤ near then num < den * 2 ^ near.toNat else num * 2 ^ (-near).toNat < den
    let log := if below then near - 1 else near
    let ulp := max (-1074) (log - 52)
    let mantissa := roundHalfEven (num * 2 ^ (-ulp).toNat) (den * 2 ^ ulp.toNat)
    let magnitude := (ulp + 1074).toNat * 2 ^ 52 + mantissa
    UInt64.ofNat (sign + min magnitude (2047 * 2 ^ 52))

/-- The float nearest to `digits * 10 ^ exponent`. -/
def floatOfDecimal (neg : Bool) (digits : Nat) (exponent : Int) : UInt64 :=
  floatOfRatio neg (digits * 10 ^ exponent.toNat) (10 ^ (-exponent).toNat)

/-! ## Any value -/

/-- The ASCII characters of a byte string. -/
def asciiOf (b : Bytes) : List Char := b.map fun x => Char.ofNat x.toNat

/-- `int(v)`. -/
def intOf (limits : Limits) : Value → Except Error Int
  | .int n => .ok n
  | .bool b => .ok (if b then 1 else 0)
  | .float bits => intOfFloat bits
  | .str s => intOfText limits (Text.ofString s)
  | .bytes b => intOfAscii limits (asciiOf b)
  | .bytearray b => intOfAscii limits (asciiOf b)
  | v => .error (.typeError
      ("int() argument must be a string, a bytes-like object or a real number, not '" ++
        v.typeName ++ "'"))

/-- `int` of an integer is the integer. -/
theorem intOf_of_asInt {limits : Limits} {v : Value} {n : Int} (h : v.asInt? = some n) :
    intOf limits v = .ok n := by
  cases v <;> simp_all [Value.asInt?, intOf]

/-! ## What it raises -/

theorem intOfDigits_errors (limits : Limits) (digits : List Char) :
    Errors Error.IsBuiltin (intOfDigits limits digits) := by
  unfold intOfDigits
  split
  · exact errors_ok _
  · exact errors_error (Error.isBuiltin_valueError _)

theorem intOfAscii_errors (limits : Limits) (s : List Char) :
    Errors Error.IsBuiltin (intOfAscii limits s) := by
  unfold intOfAscii
  dsimp only
  split
  · exact (intOfDigits_errors limits _).map _
  · exact errors_error (Error.isBuiltin_valueError _)

theorem intOfFloat_errors (bits : UInt64) : Errors Error.IsBuiltin (intOfFloat bits) := by
  unfold intOfFloat
  dsimp only
  split
  · split
    · exact errors_error (Error.isBuiltin_overflowError _)
    · exact errors_error (Error.isBuiltin_valueError _)
  · exact errors_ok _

theorem intOf_errors (limits : Limits) (v : Value) : Errors Error.IsBuiltin (intOf limits v) := by
  cases v with
  | int n => exact errors_ok n
  | bool b => exact errors_ok _
  | float bits => exact intOfFloat_errors bits
  | str s => exact intOfAscii_errors limits _
  | bytes b => exact intOfAscii_errors limits _
  | bytearray b => exact intOfAscii_errors limits _
  | none | list xs | tuple xs => exact errors_error (Error.isBuiltin_typeError _)

end Trelyan.Py
