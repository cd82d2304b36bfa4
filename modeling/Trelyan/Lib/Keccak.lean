import Mathlib

/-!
# The permutation Keccak-f

The step mappings of Keccak-f on a state of 25 lanes, with the offsets of `rho` and the
constants of `iota` computed as their definitions say.

An implementation may keep some lanes complemented (`masked`), which saves inversions in
`chi`.  `theta` and `rho` carry a mask along (`theta_masked`, `rho_masked`), and `pi` only
moves it, so that what is left to check is `chi`.
-/

namespace Trelyan.Keccak

variable {w : Nat}

/-- Lanes are indexed modulo 5. -/
scoped instance five : NeZero 5 := ⟨by decide⟩

/-- The lane at column `x` and row `y`. -/
abbrev State (w : Nat) := Fin 5 → Fin 5 → BitVec w

/-! ## The step mappings -/

/-- The parity of a column. -/
def column (A : State w) (x : Fin 5) : BitVec w := A x 0 ^^^ A x 1 ^^^ A x 2 ^^^ A x 3 ^^^ A x 4

def theta (A : State w) : State w := fun x y =>
  A x y ^^^ (column A (x - 1) ^^^ (column A (x + 1)).rotateLeft 1)

/-- The lanes in the order in which `rho` visits them. -/
def walk : Nat → Fin 5 × Fin 5
  | 0 => (1, 0)
  | t + 1 => ((walk t).2, 2 * (walk t).1 + 3 * (walk t).2)

/-- `(t + 1) (t + 2) / 2`, for the lane that is visited at `t`. -/
def offset (x y : Fin 5) : Nat :=
  match (List.range 24).find? fun t => walk t = (x, y) with
  | some t => (t + 1) * (t + 2) / 2
  | none => 0

def rho (A : State w) : State w := fun x y => (A x y).rotateLeft (offset x y)

def pi (A : State w) : State w := fun x y => A (x + 3 * y) x

def chi (A : State w) : State w := fun x y => A x y ^^^ (~~~A (x + 1) y &&& A (x + 2) y)

/-- One step of the shift register, on its bits `R[0], .., R[7]`. -/
def lfsrStep : List Bool → List Bool
  | [r0, r1, r2, r3, r4, r5, r6, r7] => [r7, r0, r1, r2, r3 ^^ r7, r4 ^^ r7, r5 ^^ r7, r6]
  | r => r

/-- The output of the shift register at `t`. -/
def rc (t : Nat) : Bool :=
  (Nat.repeat lfsrStep (t % 255) [true, false, false, false, false, false, false, false]).headD
    false

/-- The constant of a round: the bits `2^j - 1` for `j ≤ l`. -/
def roundConstant (l ir : Nat) : BitVec w :=
  (List.range (l + 1)).foldl
    (fun c j => if rc (j + 7 * ir) then c ||| 1#w <<< (2 ^ j - 1) else c) 0#w

def iota (c : BitVec w) (A : State w) : State w := fun x y =>
  if x = 0 ∧ y = 0 then A x y ^^^ c else A x y

def round (c : BitVec w) (A : State w) : State w := iota c (chi (pi (rho (theta A))))

/-- The first `n` rounds. -/
def rounds (l : Nat) : Nat → State w → State w
  | 0, A => A
  | n + 1, A => round (roundConstant l n) (rounds l n A)

/-- Keccak-f for lanes of `2^l` bits. -/
def keccakF (l : Nat) (A : State (2 ^ l)) : State (2 ^ l) := rounds l (12 + 2 * l) A

/-! ## Complemented lanes -/

/-- `x`, or its complement. -/
def comp (b : Bool) (x : BitVec w) : BitVec w := if b then ~~~x else x

@[simp] theorem comp_false (x : BitVec w) : comp false x = x := rfl

@[simp] theorem comp_true (x : BitVec w) : comp true x = ~~~x := rfl

theorem getLsbD_comp (b : Bool) (x : BitVec w) {i : Nat} (hi : i < w) :
    (comp b x).getLsbD i = (b ^^ x.getLsbD i) := by
  cases b <;> simp [hi]

theorem comp_xor_comp (b c : Bool) (x y : BitVec w) :
    comp b x ^^^ comp c y = comp (b ^^ c) (x ^^^ y) := by
  apply BitVec.eq_of_getLsbD_eq
  intro i hi
  rw [BitVec.getLsbD_xor, getLsbD_comp b x hi, getLsbD_comp c y hi, getLsbD_comp _ _ hi,
    BitVec.getLsbD_xor]
  cases b <;> cases c <;> simp

/-- Rotating moves bits, so that it commutes with complementing. -/
theorem rotateLeft_comp (b : Bool) (x : BitVec w) (k : Nat) :
    (comp b x).rotateLeft k = comp b (x.rotateLeft k) := by
  apply BitVec.eq_of_getLsbD_eq
  intro i hi
  have hk : k % w < w := Nat.mod_lt _ (by omega)
  rw [getLsbD_comp b _ hi, BitVec.getLsbD_rotateLeft, BitVec.getLsbD_rotateLeft]
  by_cases hlow : i < k % w
  · simp only [hlow, decide_true, cond_true]
    exact getLsbD_comp b x (by omega)
  · simp only [hlow, hi, decide_false, decide_true, cond_false, Bool.true_and]
    exact getLsbD_comp b x (by omega)

/-- The state with the lanes of a mask complemented. -/
def masked (m : Fin 5 → Fin 5 → Bool) (A : State w) : State w := fun x y => comp (m x y) (A x y)

def columnMask (m : Fin 5 → Fin 5 → Bool) (x : Fin 5) : Bool :=
  m x 0 ^^ m x 1 ^^ m x 2 ^^ m x 3 ^^ m x 4

def thetaMask (m : Fin 5 → Fin 5 → Bool) : Fin 5 → Fin 5 → Bool := fun x y =>
  m x y ^^ (columnMask m (x - 1) ^^ columnMask m (x + 1))

variable (m : Fin 5 → Fin 5 → Bool) (A : State w)

theorem column_masked (x : Fin 5) : column (masked m A) x = comp (columnMask m x) (column A x) := by
  unfold column masked columnMask
  rw [comp_xor_comp, comp_xor_comp, comp_xor_comp, comp_xor_comp]

theorem theta_masked : theta (masked m A) = masked (thetaMask m) (theta A) := by
  funext x y
  unfold theta
  rw [column_masked, column_masked, rotateLeft_comp, comp_xor_comp]
  exact comp_xor_comp ..

theorem rho_masked : rho (masked m A) = masked m (rho A) := by
  funext x y
  exact rotateLeft_comp ..

theorem iota_masked (c : BitVec w) : iota c (masked m A) = masked m (iota c A) := by
  funext x y
  have hxor := comp_xor_comp (m x y) false (A x y) c
  rw [comp_false, Bool.xor_false] at hxor
  unfold iota masked
  dsimp only
  by_cases h : x = 0 ∧ y = 0
  · rw [if_pos h, if_pos h, hxor]
  · rw [if_neg h, if_neg h]

theorem masked_masked : masked m (masked m A) = A := by
  funext x y
  unfold masked
  cases m x y <;> simp

end Trelyan.Keccak
