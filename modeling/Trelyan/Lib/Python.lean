import Trelyan.Lib.BigEndian
import Trelyan.Lib.Except

/-!
# Python values

A fragment of Python: the values that code about numbers and bytes receives
from callers who may pass anything, and the built-in operations on them.  An
operation raises where Python raises.  `bool` is a subclass of `int`, so a
boolean is an integer to `isinstance` and to arithmetic, and only a separate
test tells it apart.

The elements of a list or tuple are integers.  A float is its IEEE 754 bits,
because nothing here computes with one.
-/

namespace Trelyan.Py

/-- An exception. -/
inductive Error where
  | valueError (msg : String)
  | typeError (msg : String)
  | overflowError (msg : String)
  | assertionError (msg : String)
  /-- An exception of any other class. -/
  | exception (className msg : String)
deriving DecidableEq

namespace Error

/-- `type(e).__name__`. -/
def className : Error → String
  | valueError _ => "ValueError"
  | typeError _ => "TypeError"
  | overflowError _ => "OverflowError"
  | assertionError _ => "AssertionError"
  | exception name _ => name

/-- `str(e)`. -/
def message : Error → String
  | valueError msg => msg
  | typeError msg => msg
  | overflowError msg => msg
  | assertionError msg => msg
  | exception _ msg => msg

/-- `OSError` and its subclasses. -/
def osErrors : List String :=
  ["OSError", "BlockingIOError", "BrokenPipeError", "ChildProcessError", "ConnectionAbortedError",
    "ConnectionError", "ConnectionRefusedError", "ConnectionResetError", "FileExistsError",
    "FileNotFoundError", "InterruptedError", "IsADirectoryError", "NotADirectoryError",
    "PermissionError", "ProcessLookupError", "TimeoutError"]

/-- `isinstance(e, OSError)`. -/
def isOSError (e : Error) : Bool := osErrors.contains e.className

/-- `isinstance(e, FileNotFoundError)`. -/
def isFileNotFound (e : Error) : Bool := e.className == "FileNotFoundError"

/-- The classes of what the built-in operations and the checks of arguments
raise. -/
def IsBuiltin (e : Error) : Prop :=
  e.className ∈ ["ValueError", "TypeError", "OverflowError", "AssertionError"]

theorem isBuiltin_valueError (msg : String) : (valueError msg).IsBuiltin := by
  simp [IsBuiltin, className]

theorem isBuiltin_typeError (msg : String) : (typeError msg).IsBuiltin := by
  simp [IsBuiltin, className]

theorem isBuiltin_overflowError (msg : String) : (overflowError msg).IsBuiltin := by
  simp [IsBuiltin, className]

theorem isBuiltin_assertionError (msg : String) : (assertionError msg).IsBuiltin := by
  simp [IsBuiltin, className]

/-- The built-in classes that are not `Exception`. -/
def baseExceptions : List String :=
  ["BaseException", "BaseExceptionGroup", "GeneratorExit", "KeyboardInterrupt", "SystemExit"]

/-- `isinstance(e, Exception)`. -/
def isException (e : Error) : Bool := !(baseExceptions.contains e.className)

end Error

/-- A value. -/
inductive Value where
  | int (n : Int)
  | bool (b : Bool)
  | float (bits : UInt64)
  | str (s : String)
  | none
  | bytes (b : Bytes)
  | bytearray (b : Bytes)
  | list (xs : List Int)
  | tuple (xs : List Int)
deriving DecidableEq

namespace Value

/-- `type(v).__name__`. -/
def typeName : Value → String
  | .int _ => "int"
  | .bool _ => "bool"
  | .float _ => "float"
  | .str _ => "str"
  | .none => "NoneType"
  | .bytes _ => "bytes"
  | .bytearray _ => "bytearray"
  | .list _ => "list"
  | .tuple _ => "tuple"

/-- `isinstance(v, bool)`. -/
def isBool : Value → Bool
  | .bool _ => true
  | _ => false

/-- The integer that `v` is, if `isinstance(v, int)`. -/
def asInt? : Value → Option Int
  | .int n => some n
  | .bool b => some (if b then 1 else 0)
  | _ => Option.none

/-- A list or a tuple. -/
def isSequence : Value → Bool
  | .list _ => true
  | .tuple _ => true
  | _ => false

end Value

/-- `len(v)`. -/
def len : Value → Except Error Nat
  | .str s => .ok s.length
  | .bytes b => .ok b.length
  | .bytearray b => .ok b.length
  | .list xs => .ok xs.length
  | .tuple xs => .ok xs.length
  | v => .error (.typeError ("object of type " ++ v.typeName ++ " has no len()"))

/-- `n.to_bytes(length, "big")`. -/
def toBytes (n : Int) (length : Nat) : Except Error Bytes :=
  if n < 0 then .error (.overflowError "can't convert negative int to unsigned")
  else if 256 ^ length ≤ n then .error (.overflowError "int too big to convert")
  else .ok (BigEndian.encode length n.toNat)

/-- `x in range(0, 256)`. -/
def IsByte (x : Int) : Prop := 0 ≤ x ∧ x < 256

instance (x : Int) : Decidable (IsByte x) := inferInstanceAs (Decidable (_ ∧ _))

/-- The bytes of a sequence of integers. -/
def packBytes (xs : List Int) : Except Error Bytes :=
  if ∀ x ∈ xs, IsByte x then .ok (xs.map fun x => UInt8.ofNat x.toNat)
  else .error (.valueError "bytes must be in range(0, 256)")

/-- `bytes(v)`.  An integer gives that many zero bytes. -/
def bytesOf : Value → Except Error Bytes
  | .bytes b => .ok b
  | .bytearray b => .ok b
  | .list xs => packBytes xs
  | .tuple xs => packBytes xs
  | .int n =>
    if n < -2 ^ 63 ∨ 2 ^ 63 ≤ n then
      .error (.overflowError "cannot fit 'int' into an index-sized integer")
    else if n < 0 then .error (.valueError "negative count")
    else .ok (List.replicate n.toNat 0)
  | .bool b => .ok (List.replicate b.toNat 0)
  | .str _ => .error (.typeError "string argument without an encoding")
  | v => .error (.typeError ("cannot convert " ++ v.typeName ++ " object to bytes"))

/-- `lhs + v` for a byte string `lhs`. -/
def concat (lhs : Bytes) : Value → Except Error Bytes
  | .bytes b => .ok (lhs ++ b)
  | .bytearray b => .ok (lhs ++ b)
  | v => .error (.typeError ("can't concat " ++ v.typeName ++ " to bytes"))

/-! ## When the operations succeed -/

theorem toBytes_eq_ok {n : Int} {length : Nat} {b : Bytes} :
    toBytes n length = .ok b ↔ 0 ≤ n ∧ n < 256 ^ length ∧ b = BigEndian.encode length n.toNat := by
  unfold toBytes
  split
  · rename_i hneg
    constructor
    · intro h
      cases h
    · intro h
      omega
  · rename_i hpos
    split
    · rename_i hbig
      constructor
      · intro h
        cases h
      · intro h
        exact absurd h.2.1 (Int.not_lt.mpr hbig)
    · rename_i hsmall
      rw [Except.ok.injEq, eq_comm]
      constructor
      · intro h
        exact ⟨Int.not_lt.mp hpos, Int.not_le.mp hsmall, h⟩
      · intro h
        exact h.2.2

theorem packBytes_eq_ok {xs : List Int} {b : Bytes} :
    packBytes xs = .ok b ↔ (∀ x ∈ xs, IsByte x) ∧ b = xs.map fun x => UInt8.ofNat x.toNat := by
  unfold packBytes
  split
  · rename_i h
    rw [Except.ok.injEq, eq_comm]
    exact (and_iff_right h).symm
  · rename_i h
    constructor
    · intro hok
      cases hok
    · intro hok
      exact absurd hok.1 h

/-- The content of a byte string or a byte array. -/
def Value.buffer? : Value → Option Bytes
  | .bytes b => some b
  | .bytearray b => some b
  | _ => Option.none

theorem concat_eq_ok {lhs : Bytes} {v : Value} {b : Bytes} :
    concat lhs v = .ok b ↔ ∃ c, v.buffer? = some c ∧ b = lhs ++ c := by
  cases v <;> simp [concat, Value.buffer?, eq_comm]

/-- What has a length and converts to bytes is a buffer, or a sequence of
bytes. -/
theorem bytesOf_cases {v : Value} {n : Nat} {b : Bytes} (hlen : len v = .ok n)
    (h : bytesOf v = .ok b) : v.buffer? = some b ∨ v.isSequence = true := by
  cases v with
  | bytes => left; cases h; rfl
  | bytearray => left; cases h; rfl
  | list => exact Or.inr rfl
  | tuple => exact Or.inr rfl
  | str => cases h
  | int => cases hlen
  | bool => cases hlen
  | float => cases hlen
  | none => cases hlen

theorem bytesOf_of_buffer {v : Value} {b : Bytes} (h : v.buffer? = some b) :
    bytesOf v = .ok b := by
  cases v <;> simp_all [Value.buffer?, bytesOf]

/-- A conversion to bytes keeps the length. -/
theorem bytesOf_length {v : Value} {n : Nat} {b : Bytes} (hlen : len v = .ok n)
    (h : bytesOf v = .ok b) : b.length = n := by
  cases v with
  | bytes => cases h; cases hlen; rfl
  | bytearray => cases h; cases hlen; rfl
  | list xs => cases hlen; rw [(packBytes_eq_ok.mp h).2, List.length_map]
  | tuple xs => cases hlen; rw [(packBytes_eq_ok.mp h).2, List.length_map]
  | str => cases h
  | int => cases hlen
  | bool => cases hlen
  | float => cases hlen
  | none => cases hlen

/-! ## What they raise -/

theorem len_errors (v : Value) : Errors Error.IsBuiltin (len v) := by
  cases v <;> first | exact errors_ok _ | exact errors_error (Error.isBuiltin_typeError _)

theorem toBytes_errors (n : Int) (length : Nat) : Errors Error.IsBuiltin (toBytes n length) := by
  unfold toBytes
  split
  · exact errors_error (Error.isBuiltin_overflowError _)
  · split
    · exact errors_error (Error.isBuiltin_overflowError _)
    · exact errors_ok _

theorem packBytes_errors (xs : List Int) : Errors Error.IsBuiltin (packBytes xs) := by
  unfold packBytes
  split
  · exact errors_ok _
  · exact errors_error (Error.isBuiltin_valueError _)

theorem bytesOf_errors (v : Value) : Errors Error.IsBuiltin (bytesOf v) := by
  cases v with
  | int n =>
    rw [bytesOf]
    split
    · exact errors_error (Error.isBuiltin_overflowError _)
    · split
      · exact errors_error (Error.isBuiltin_valueError _)
      · exact errors_ok _
  | list xs => exact packBytes_errors xs
  | tuple xs => exact packBytes_errors xs
  | bool b => exact errors_ok _
  | bytes b => exact errors_ok b
  | bytearray b => exact errors_ok b
  | float bits => exact errors_error (Error.isBuiltin_typeError _)
  | str s => exact errors_error (Error.isBuiltin_typeError _)
  | none => exact errors_error (Error.isBuiltin_typeError _)

end Trelyan.Py
