import Trelyan.Lib.PyInt

/-!
# Hexadecimal digits

The two lower-case digits of a byte, as Python's `format(b, "02x")` and
`bytes.hex()` write them, and `bytes.fromhex`, which reads them back.
-/

namespace Trelyan.Hex

/-- The digit of a number below 16. -/
def digit (n : Nat) : Char :=
  if n < 10 then Char.ofNat (0x30 + n) else Char.ofNat (0x57 + n)

/-- The two digits of a byte. -/
def ofByte (b : UInt8) : List Char :=
  [digit (b.toNat / 16), digit (b.toNat % 16)]

/-- `b.hex()`. -/
def ofBytes (b : Bytes) : String := String.ofList (b.flatMap ofByte)

/-- The value of a digit of either case. -/
def value (c : Nat) : Option Nat :=
  if 0x30 ≤ c ∧ c ≤ 0x39 then some (c - 0x30)
  else if 0x61 ≤ c ∧ c ≤ 0x66 then some (c - 0x57)
  else if 0x41 ≤ c ∧ c ≤ 0x46 then some (c - 0x37)
  else none

def nonHexError : Py.Error :=
  .valueError "non-hexadecimal number found in fromhex() arg"

/-- `bytes.fromhex(s)`.  White space may stand between bytes. -/
def toBytes : Py.Text → Except Py.Error Bytes
  | [] => .ok []
  | c :: rest =>
    if c = 0x20 ∨ (0x09 ≤ c ∧ c ≤ 0x0d) then toBytes rest
    else match rest with
      | d :: rest =>
        match value c, value d with
        | some hi, some lo => (toBytes rest).map (UInt8.ofNat (hi * 16 + lo) :: ·)
        | _, _ => .error nonHexError
      | [] => .error nonHexError

theorem toBytes_errors (s : Py.Text) : Errors Py.Error.IsBuiltin (toBytes s) := by
  induction s using toBytes.induct with
  | case1 => exact errors_ok []
  | case2 c rest hspace ih =>
    unfold toBytes
    rw [if_pos hspace]
    exact ih
  | case3 c hspace d rest hi lo hhi hlo ih =>
    rw [toBytes, if_neg hspace, hhi, hlo]
    exact ih.map _
  | case4 c hspace d rest hvalue =>
    rw [toBytes, if_neg hspace]
    split
    · rename_i hi lo hhi hlo
      exact absurd hlo (hvalue hi lo hhi)
    · exact errors_error (Py.Error.isBuiltin_valueError _)
  | case5 c hspace =>
    rw [toBytes, if_neg hspace]
    exact errors_error (Py.Error.isBuiltin_valueError _)

theorem value_digit : ∀ k < 16, value (digit k).toNat = some k ∧
    ¬ ((digit k).toNat = 0x20 ∨ (0x09 ≤ (digit k).toNat ∧ (digit k).toNat ≤ 0x0d)) := by
  decide

/-- What `hex` writes, `fromhex` reads. -/
theorem toBytes_ofBytes (b : Bytes) : toBytes (Py.Text.ofString (ofBytes b)) = .ok b := by
  have htext : Py.Text.ofString (ofBytes b) = (b.flatMap ofByte).map Char.toNat := by
    rw [Py.Text.ofString, ofBytes, String.toList_ofList]
  rw [htext]
  clear htext
  induction b with
  | nil => rfl
  | cons x b ih =>
    have hx := x.toNat_lt
    obtain ⟨hhi, hspace⟩ := value_digit (x.toNat / 16) (by omega)
    obtain ⟨hlo, -⟩ := value_digit (x.toNat % 16) (by omega)
    have hvalue : UInt8.ofNat (x.toNat / 16 * 16 + x.toNat % 16) = x := by
      rw [Nat.div_add_mod', UInt8.ofNat_toNat]
    show toBytes ((digit (x.toNat / 16)).toNat :: (digit (x.toNat % 16)).toNat ::
      (b.flatMap ofByte).map Char.toNat) = _
    rw [toBytes, if_neg hspace, hhi, hlo, ih]
    show Except.ok (_ :: b) = _
    rw [hvalue]

end Trelyan.Hex
