import Mathlib
import Trelyan.Lib.Keccak

/-!
# `process_block` of `shake.c`

The portable function.  It keeps six lanes complemented, and each iteration of its loop
computes two rounds without moving lanes: `pi` is only in the indices of the second half,
and at the end of an iteration the lanes are moved back.

`processBlock_spec` says that the result is Keccak-f.
-/

namespace Trelyan.Falcon.Shake

open scoped Keccak
open Keccak (State masked theta rho pi chi iota)

/-! ## The function -/

/-- `RC`. -/
def RC : List UInt64 :=
  [0x0000000000000001, 0x0000000000008082, 0x800000000000808A, 0x8000000080008000,
   0x000000000000808B, 0x0000000080000001, 0x8000000080008081, 0x8000000000008009,
   0x000000000000008A, 0x0000000000000088, 0x0000000080008009, 0x000000008000000A,
   0x000000008000808B, 0x800000000000008B, 0x8000000000008089, 0x8000000000008003,
   0x8000000000008002, 0x8000000000000080, 0x000000000000800A, 0x800000008000000A,
   0x8000000080008081, 0x8000000000008080, 0x0000000080000001, 0x8000000080008008]

/-- `A[i] = f(A[i])`, for the entries of a list one after the other. -/
def updateAll {ι : Type} (idx : ι → Nat) (f : ι → UInt64 → UInt64) (l : List ι)
    (A : List UInt64) : List UInt64 :=
  l.foldl (fun A p => A.set (idx p) (f p (A.getD (idx p) 0))) A

/-- "Invert some words". -/
def invert (A : List UInt64) : List UInt64 :=
  updateAll id (fun _ a => ~~~a) [1, 2, 8, 12, 17, 20] A

/-- A table of indices, by column and row or by row and column. -/
def entry (t : List (List Nat)) (i j : Fin 5) : Nat := (t.getD i []).getD j 0

/-- The columns that a half of the loop body adds up, and the rows that it combines. -/
structure Half where
  cols : List (List Nat)
  rows : List (List Nat)

/-- The round of `RC[j + 0]`. -/
def half0 : Half where
  cols := [[0, 5, 10, 15, 20], [1, 6, 11, 16, 21], [2, 7, 12, 17, 22], [3, 8, 13, 18, 23],
    [4, 9, 14, 19, 24]]
  rows := [[0, 6, 12, 18, 24], [3, 9, 10, 16, 22], [1, 7, 13, 19, 20], [4, 5, 11, 17, 23],
    [2, 8, 14, 15, 21]]

/-- The round of `RC[j + 1]`. -/
def half1 : Half where
  cols := [[0, 3, 1, 4, 2], [6, 9, 7, 5, 8], [12, 10, 13, 11, 14], [18, 16, 19, 17, 15],
    [24, 22, 20, 23, 21]]
  rows := [[0, 9, 13, 17, 21], [18, 22, 1, 5, 14], [6, 10, 19, 23, 2], [24, 3, 7, 11, 15],
    [12, 16, 20, 4, 8]]

/-- `t0`, .., `t4`. -/
def parity (cols : List (List Nat)) (A : List UInt64) (x : Fin 5) : UInt64 :=
  let a := fun x y => A.getD (entry cols x y) 0
  let tt0 := a (x + 1) 0 ^^^ a (x + 1) 1
  let tt1 := a (x + 1) 2 ^^^ a (x + 1) 3
  let tt0 := tt0 ^^^ (a (x + 1) 4 ^^^ tt1)
  let tt0 := (tt0 <<< 1) ||| (tt0 >>> 63)
  let tt2 := a (x - 1) 0 ^^^ a (x - 1) 1
  let tt3 := a (x - 1) 2 ^^^ a (x - 1) 3
  let tt0 := tt0 ^^^ a (x - 1) 4
  let tt2 := tt2 ^^^ tt3
  tt0 ^^^ tt2

/-- The columns one after the other, each from the first row on. -/
def coords : List (Fin 5 × Fin 5) := (List.finRange 5) ×ˢ (List.finRange 5)

/-- By how much the lanes are rotated. -/
def rotation (x y : Fin 5) : UInt64 :=
  ([[0, 36, 3, 41, 18], [1, 44, 10, 45, 2], [62, 6, 43, 15, 61], [28, 55, 25, 21, 56],
    [27, 20, 39, 8, 14]].getD x []).getD y 0

/-- `c0`, .., `c4`, row by row. -/
def combine (y : Fin 5) (a : Fin 5 → UInt64) : List UInt64 :=
  match y with
  | 0 =>
    let bnn := ~~~a 2
    [a 0 ^^^ (a 1 ||| a 2), a 1 ^^^ (bnn ||| a 3), a 2 ^^^ (a 3 &&& a 4), a 3 ^^^ (a 4 ||| a 0),
     a 4 ^^^ (a 0 &&& a 1)]
  | 1 =>
    let bnn := ~~~a 4
    [a 0 ^^^ (a 1 ||| a 2), a 1 ^^^ (a 2 &&& a 3), a 2 ^^^ (a 3 ||| bnn), a 3 ^^^ (a 4 ||| a 0),
     a 4 ^^^ (a 0 &&& a 1)]
  | 2 =>
    let bnn := ~~~a 3
    [a 0 ^^^ (a 1 ||| a 2), a 1 ^^^ (a 2 &&& a 3), a 2 ^^^ (bnn &&& a 4), bnn ^^^ (a 4 ||| a 0),
     a 4 ^^^ (a 0 &&& a 1)]
  | 3 =>
    let bnn := ~~~a 3
    [a 0 ^^^ (a 1 &&& a 2), a 1 ^^^ (a 2 ||| a 3), a 2 ^^^ (bnn ||| a 4), bnn ^^^ (a 4 &&& a 0),
     a 4 ^^^ (a 0 ||| a 1)]
  | 4 =>
    let bnn := ~~~a 1
    [a 0 ^^^ (bnn &&& a 2), bnn ^^^ (a 2 ||| a 3), a 2 ^^^ (a 3 &&& a 4), a 3 ^^^ (a 4 ||| a 0),
     a 4 ^^^ (a 0 &&& a 1)]

/-- `c0`, .., `c4` of a row, and their assignment to its entries. -/
def combineRow (rows : List (List Nat)) (A : List UInt64) (y : Fin 5) : List UInt64 :=
  let c := combine y fun x => A.getD (entry rows y x) 0
  updateAll (entry rows y) (fun x _ => c.getD x 0) (List.finRange 5) A

/-- One round. -/
def halfRound (t : Half) (c : UInt64) (A : List UInt64) : List UInt64 :=
  let A := updateAll (fun p => entry t.cols p.1 p.2)
    (fun p a => a ^^^ parity t.cols A p.1) coords A
  let A := updateAll (fun p => entry t.cols p.1 p.2)
    (fun p a => (a <<< rotation p.1 p.2) ||| (a >>> (64 - rotation p.1 p.2))) coords.tail A
  let A := (List.finRange 5).foldl (combineRow t.rows) A
  A.set 0 (A.getD 0 0 ^^^ c)

/-- `t = A[i0]; A[i0] = A[i1]; A[i1] = A[i2]; ..`, and `A[ik] = t` at the end. -/
def cycle (t : UInt64) : List Nat → List UInt64 → List UInt64
  | i :: j :: l, A => cycle t (j :: l) (A.set i (A.getD j 0))
  | [i], A => A.set i t
  | [], A => A

/-- The two cycles at the end of the loop body. -/
def moveBack (A : List UInt64) : List UInt64 :=
  let A := cycle (A.getD 5 0) [5, 18, 11, 10, 6, 22, 20, 12, 19, 15, 24, 8] A
  cycle (A.getD 1 0) [1, 9, 14, 2, 13, 23, 4, 21, 16, 3, 17, 7] A

/-- `process_block`. -/
def processBlock (A : List UInt64) : List UInt64 :=
  let A := invert A
  let A := (List.range 12).foldl (fun A k =>
    moveBack (halfRound half1 (RC.getD (2 * k + 1) 0) (halfRound half0 (RC.getD (2 * k) 0) A))) A
  invert A

/-! ## Arrays of lanes -/

/-- The lane `(x, y)` of the state is at `idx x y`. -/
structure Holds (A : List UInt64) (idx : Fin 5 → Fin 5 → Nat) (S : State 64) : Prop where
  length : A.length = 25
  lane : ∀ x y, (A.getD (idx x y) 0).toBitVec = S x y

/-- Every lane has a place of its own. -/
structure Places (idx : Fin 5 → Fin 5 → Nat) : Prop where
  lt : ∀ x y, idx x y < 25
  inj : ∀ x y x' y', idx x y = idx x' y' → x = x' ∧ y = y'

theorem getD_set_eq {A : List α} {i : Nat} (hi : i < A.length) (v : α) (j : Nat) {d : α} :
    (A.set i v).getD j d = if j = i then v else A.getD j d := by
  rw [List.getD_eq_getElem?_getD, List.getElem?_set, List.getD_eq_getElem?_getD]
  by_cases hj : i = j
  · subst hj
    rw [if_pos rfl, if_pos rfl, if_pos hi, Option.getD_some]
  · rw [if_neg hj, if_neg (Ne.symm hj)]

section UpdateAll

variable {ι : Type} {idx : ι → Nat} {f : ι → UInt64 → UInt64} {l : List ι} {A : List UInt64}

@[simp] theorem length_updateAll : (updateAll idx f l A).length = A.length := by
  unfold updateAll
  induction l generalizing A with
  | nil => rfl
  | cons p l ih =>
    rw [List.foldl_cons, ih, List.length_set]

theorem getD_updateAll_of_notMem (hlt : ∀ p ∈ l, idx p < A.length) {i : Nat}
    (hi : ∀ p ∈ l, idx p ≠ i) : (updateAll idx f l A).getD i 0 = A.getD i 0 := by
  unfold updateAll
  induction l generalizing A with
  | nil => rfl
  | cons p l ih =>
    rw [List.foldl_cons, ih (fun q hq => by rw [List.length_set]; exact hlt q (.tail _ hq))
      fun q hq => hi q (.tail _ hq), getD_set_eq (hlt p (.head _)), if_neg (hi p (.head _)).symm]

/-- Every entry is updated once. -/
theorem getD_updateAll (hlt : ∀ p ∈ l, idx p < A.length)
    (hinj : l.Pairwise fun p q => idx p ≠ idx q) {p : ι} (hp : p ∈ l) :
    (updateAll idx f l A).getD (idx p) 0 = f p (A.getD (idx p) 0) := by
  induction l generalizing A with
  | nil => cases hp
  | cons q l ih =>
    obtain ⟨hq, hl⟩ := List.pairwise_cons.mp hinj
    have hset : ∀ r ∈ l, idx r < (A.set (idx q) (f q (A.getD (idx q) 0))).length := by
      intro r hr
      rw [List.length_set]
      exact hlt r (.tail _ hr)
    show (updateAll idx f l (A.set (idx q) (f q (A.getD (idx q) 0)))).getD (idx p) 0 = _
    cases hp with
    | head =>
      rw [getD_updateAll_of_notMem hset fun r hr => (hq r hr).symm, getD_set_eq (hlt p (.head _)),
        if_pos rfl]
    | tail _ hp =>
      rw [ih hset hl hp, getD_set_eq (hlt q (.head _)), if_neg (hq p hp).symm]

end UpdateAll

/-! ## The steps of a round -/

theorem toBitVec_rotate (a : UInt64) {k : UInt64} (hpos : 0 < k.toNat) (hk : k.toNat < 64) :
    ((a <<< k) ||| (a >>> (64 - k))).toBitVec = a.toBitVec.rotateLeft k.toNat := by
  have hleft : (k.toBitVec % 64).toNat = k.toNat := Nat.mod_eq_of_lt hk
  have hright : ((64 - k).toBitVec % 64).toNat = 64 - k.toNat := by
    have hle : k ≤ 64 := UInt64.le_iff_toNat_le.mpr (by show k.toNat ≤ 64; omega)
    show (64 - k).toNat % 64 = _
    rw [UInt64.toNat_sub_of_le _ _ hle]
    show (64 - k.toNat) % 64 = _
    omega
  rw [UInt64.toBitVec_or, UInt64.toBitVec_shiftLeft, UInt64.toBitVec_shiftRight,
    BitVec.rotateLeft_def, Nat.mod_eq_of_lt hk]
  show a.toBitVec <<< (k.toBitVec % 64).toNat ||| a.toBitVec >>> ((64 - k).toBitVec % 64).toNat = _
  rw [hleft, hright]

theorem mem_coords : ∀ x y : Fin 5, (x, y) ∈ coords := by
  decide

theorem coords_nodup : coords.Nodup :=
  (List.nodup_finRange 5).product (List.nodup_finRange 5)

theorem Places.pairwise {idx : Fin 5 → Fin 5 → Nat} (hidx : Places idx)
    {l : List (Fin 5 × Fin 5)} (hl : l.Nodup) :
    l.Pairwise fun p q => idx p.1 p.2 ≠ idx q.1 q.2 := by
  refine hl.imp fun {p q} hne heq => hne ?_
  obtain ⟨hx, hy⟩ := hidx.inj _ _ _ _ heq
  exact Prod.ext hx hy

variable {cols : List (List Nat)} {A : List UInt64} {S : State 64}

/-- `t0`, .., `t4` are what `theta` adds to the columns. -/
theorem parity_eq (hA : Holds A (entry cols) S) (x : Fin 5) :
    (parity cols A x).toBitVec =
      Keccak.column S (x - 1) ^^^ (Keccak.column S (x + 1)).rotateLeft 1 := by
  have hcolumn : ∀ x, (A.getD (entry cols x 0) 0 ^^^ A.getD (entry cols x 1) 0 ^^^
      (A.getD (entry cols x 4) 0 ^^^
        (A.getD (entry cols x 2) 0 ^^^ A.getD (entry cols x 3) 0))).toBitVec =
          Keccak.column S x := by
    intro x
    simp only [UInt64.toBitVec_xor, hA.lane, Keccak.column]
    ac_rfl
  unfold parity
  dsimp only
  have hrotate := fun a => toBitVec_rotate a (k := 1) (by decide) (by decide)
  rw [UInt64.toBitVec_xor, UInt64.toBitVec_xor]
  rw [show (63 : UInt64) = 64 - 1 from rfl, hrotate, hcolumn, ← hcolumn (x - 1)]
  simp only [UInt64.toBitVec_xor]
  show _ = _ ^^^ (Keccak.column S (x + 1)).rotateLeft 1
  ac_rfl

/-- Adding `t0`, .., `t4` is `theta`. -/
theorem Holds.theta (hcols : Places (entry cols)) (hA : Holds A (entry cols) S) :
    Holds (updateAll (fun p => entry cols p.1 p.2) (fun p a => a ^^^ parity cols A p.1) coords A)
      (entry cols) (theta S) := by
  have hlt : ∀ p ∈ coords, entry cols p.1 p.2 < A.length := by
    intro p _
    rw [hA.length]
    exact hcols.lt _ _
  refine ⟨by rw [length_updateAll, hA.length], fun x y => ?_⟩
  have hget := getD_updateAll (f := fun p a => a ^^^ parity cols A p.1) hlt
    (hcols.pairwise coords_nodup) (mem_coords x y)
  rw [hget, UInt64.toBitVec_xor, hA.lane, parity_eq hA]
  rfl

theorem rotation_spec : ∀ x y : Fin 5, (x, y) ∈ coords.tail →
    0 < (rotation x y).toNat ∧ (rotation x y).toNat < 64 ∧
      (rotation x y).toNat = Keccak.offset x y % 64 := by
  decide +kernel

/-- Rotating the lanes, all but the first, is `rho`. -/
theorem Holds.rho (hcols : Places (entry cols)) (hA : Holds A (entry cols) S) :
    Holds (updateAll (fun p => entry cols p.1 p.2)
      (fun p a => (a <<< rotation p.1 p.2) ||| (a >>> (64 - rotation p.1 p.2))) coords.tail A)
        (entry cols) (rho S) := by
  have hlt : ∀ p ∈ coords.tail, entry cols p.1 p.2 < A.length := by
    intro p _
    rw [hA.length]
    exact hcols.lt _ _
  refine ⟨by rw [length_updateAll, hA.length], fun x y => ?_⟩
  by_cases hmem : (x, y) ∈ coords.tail
  · obtain ⟨hpos, hk, hoffset⟩ := rotation_spec x y hmem
    have hget := getD_updateAll
      (f := fun p a => (a <<< rotation p.1 p.2) ||| (a >>> (64 - rotation p.1 p.2))) hlt
      (hcols.pairwise (coords_nodup.sublist (List.tail_sublist _))) hmem
    rw [hget, toBitVec_rotate _ hpos hk, hA.lane, hoffset, BitVec.rotateLeft_mod_eq_rotateLeft]
    rfl
  · have hfirst : (x, y) = (0, 0) := by
      have hall : ∀ x y : Fin 5, (x, y) ∉ coords.tail → (x, y) = (0, 0) := by decide
      exact hall x y hmem
    cases hfirst
    have hother : ∀ p ∈ coords.tail, entry cols p.1 p.2 ≠ entry cols 0 0 := by
      intro p hp heq
      obtain ⟨hx, hy⟩ := hcols.inj _ _ _ _ heq
      exact hmem (by rwa [show p = (0, 0) from Prod.ext hx hy] at hp)
    rw [getD_updateAll_of_notMem hlt hother, hA.lane]
    show S 0 0 = (S 0 0).rotateLeft 0
    simp [BitVec.rotateLeft_def, BitVec.ushiftRight_eq_zero]

/-! ## The complemented lanes -/

/-- The lanes that are kept complemented: the entries 1, 2, 8, 12, 17 and 20. -/
def mask (x y : Fin 5) : Bool := x.val + 5 * y.val ∈ [1, 2, 8, 12, 17, 20]

/-- Those at the input of `c0`, .., `c4`. -/
def combineMask (x y : Fin 5) : Bool := Keccak.thetaMask mask (x + 3 * y) x

/-- A property of the five entries of a list, by their positions. -/
theorem forall_getD {p : Fin 5 → UInt64 → Prop} {a0 a1 a2 a3 a4 : UInt64} (h0 : p 0 a0)
    (h1 : p 1 a1) (h2 : p 2 a2) (h3 : p 3 a3) (h4 : p 4 a4) :
    ∀ x : Fin 5, p x ([a0, a1, a2, a3, a4].getD x 0)
  | 0 => h0
  | 1 => h1
  | 2 => h2
  | 3 => h3
  | 4 => h4

/-- The operations with fewer inversions are `chi` on the complemented lanes: for each bit this
is a statement about the five bits of a row. -/
theorem combine_eq {B : State 64} {a : Fin 5 → UInt64} (y : Fin 5)
    (ha : ∀ x, (a x).toBitVec = masked combineMask B x y) (x : Fin 5) :
    ((combine y a).getD x 0).toBitVec = masked mask (chi B) x y := by
  apply BitVec.eq_of_getLsbD_eq
  intro i hi
  have hbit : ∀ x : Fin 5, (a x).toBitVec.getLsbD i =
      (combineMask x y ^^ (B x y).getLsbD i) := by
    intro x
    rw [ha, masked, Keccak.getLsbD_comp _ _ hi]
  rw [masked, Keccak.getLsbD_comp _ _ hi, chi]
  simp only [BitVec.getLsbD_xor, BitVec.getLsbD_and, BitVec.getLsbD_not, hi, decide_true,
    Bool.true_and]
  generalize hb : (fun x => (B x y).getLsbD i) = b
  have hb' : ∀ x, (B x y).getLsbD i = b x := fun x => congrFun hb x
  simp only [hb'] at hbit ⊢
  clear hb hb' ha
  revert x
  let p (y x : Fin 5) (v : UInt64) : Prop :=
    v.toBitVec.getLsbD i = (mask x y ^^ (b x ^^ !b (x + 1) && b (x + 2)))
  show ∀ x : Fin 5, p y x ((combine y a).getD x 0)
  match y with
  | 0 | 1 | 2 | 3 | 4 =>
    refine forall_getD ?_ ?_ ?_ ?_ ?_ <;> dsimp only [p] <;>
      simp only [UInt64.toBitVec_xor, UInt64.toBitVec_or, UInt64.toBitVec_and,
        UInt64.toBitVec_not, BitVec.getLsbD_xor, BitVec.getLsbD_or, BitVec.getLsbD_and,
        BitVec.getLsbD_not, hi, decide_true, Bool.true_and, hbit] <;>
      clear hbit <;> revert b <;> decide +kernel

/-! ## A round -/

section Rows

variable {rows : List (List Nat)}

theorem length_combineRow (y : Fin 5) : (combineRow rows A y).length = A.length := by
  unfold combineRow
  rw [length_updateAll]

variable (hrows : Places fun x y => entry rows y x)
include hrows

theorem getD_combineRow (hlen : A.length = 25) (y y' x : Fin 5) :
    (combineRow rows A y).getD (entry rows y' x) 0 =
      if y' = y then (combine y fun x => A.getD (entry rows y x) 0).getD x 0
      else A.getD (entry rows y' x) 0 := by
  have hlt : ∀ x ∈ List.finRange 5, entry rows y x < A.length := by
    intro x _
    rw [hlen]
    exact hrows.lt x y
  unfold combineRow
  by_cases hy : y' = y
  · have hinj : (List.finRange 5).Pairwise fun x x' => entry rows y x ≠ entry rows y x' :=
      (List.nodup_finRange 5).imp fun hne heq => hne (hrows.inj _ _ _ _ heq).1
    rw [if_pos hy, hy, getD_updateAll hlt hinj (List.mem_finRange x)]
  · have hother : ∀ x' ∈ List.finRange 5, entry rows y x' ≠ entry rows y' x :=
      fun x' _ heq => hy (hrows.inj _ _ _ _ heq).2.symm
    rw [if_neg hy, getD_updateAll_of_notMem hlt hother]

/-- A row is combined from what it held before the first one was. -/
theorem getD_foldl_combineRow {l : List (Fin 5)} (hl : l.Nodup) (hlen : A.length = 25)
    (y x : Fin 5) :
    (l.foldl (combineRow rows) A).getD (entry rows y x) 0 =
      if y ∈ l then (combine y fun x => A.getD (entry rows y x) 0).getD x 0
      else A.getD (entry rows y x) 0 := by
  induction l generalizing A with
  | nil => simp
  | cons y' l ih =>
    obtain ⟨hy', hl⟩ := List.nodup_cons.mp hl
    have hrow := getD_combineRow hrows hlen y'
    rw [List.foldl_cons, ih hl (by rw [length_combineRow, hlen])]
    by_cases hy : y = y'
    · rw [if_neg (hy ▸ hy'), hrow, if_pos hy, if_pos (hy ▸ List.mem_cons_self), hy]
    · simp only [hrow, if_false, List.mem_cons, hy, false_or]

/-- `c0`, .., `c4` are `chi`, row by row. -/
theorem Holds.chi {B : State 64}
    (hA : Holds A (fun x y => entry rows y x) (masked combineMask B)) :
    Holds ((List.finRange 5).foldl (combineRow rows) A) (fun x y => entry rows y x)
      (masked mask (chi B)) := by
  have hlength : ∀ (l : List (Fin 5)) (A : List UInt64),
      (l.foldl (combineRow rows) A).length = A.length := by
    intro l
    induction l with
    | nil => exact fun _ => rfl
    | cons y l ih => exact fun A => (ih _).trans (length_combineRow y)
  refine ⟨by rw [hlength, hA.length], fun x y => ?_⟩
  rw [getD_foldl_combineRow hrows (List.nodup_finRange 5) hA.length,
    if_pos (List.mem_finRange y)]
  exact combine_eq y (fun x => hA.lane x y) x

theorem Holds.iota (hfirst : entry rows 0 0 = 0) {B : State 64} (c : UInt64)
    (hA : Holds A (fun x y => entry rows y x) B) :
    Holds (A.set 0 (A.getD 0 0 ^^^ c)) (fun x y => entry rows y x) (iota c.toBitVec B) := by
  refine ⟨by rw [List.length_set, hA.length], fun x y => ?_⟩
  rw [getD_set_eq (by rw [hA.length]; decide)]
  unfold Keccak.iota
  by_cases hxy : x = 0 ∧ y = 0
  · obtain ⟨rfl, rfl⟩ := hxy
    have hlane := hA.lane 0 0
    rw [hfirst] at hlane
    rw [if_pos hfirst, if_pos ⟨rfl, rfl⟩, UInt64.toBitVec_xor, hlane]
  · have hne : entry rows y x ≠ 0 := by
      intro heq
      exact hxy (hrows.inj x y 0 0 (heq.trans hfirst.symm))
    rw [if_neg hne, if_neg hxy, hA.lane]

end Rows

/-- What makes the indices of a half right: the lanes have places of their own, and a row is
made of the lanes that `pi` moves to it. -/
structure Half.Good (t : Half) : Prop where
  places : Places (entry t.cols)
  rows : ∀ x y, entry t.rows y x = entry t.cols (x + 3 * y) x
  first : entry t.rows 0 0 = 0

theorem Half.Good.placesRows {t : Half} (ht : t.Good) : Places fun x y => entry t.rows y x := by
  have hpi : ∀ x y x' y' : Fin 5, x + 3 * y = x' + 3 * y' → x = x' → y = y' := by decide
  refine ⟨fun x y => ?_, fun x y x' y' heq => ?_⟩
  · rw [ht.rows]
    exact ht.places.lt _ _
  · rw [ht.rows, ht.rows] at heq
    obtain ⟨hsum, hx⟩ := ht.places.inj _ _ _ _ heq
    exact ⟨hx, hpi _ _ _ _ hsum hx⟩

/-- One half of the loop body is one round, on the complemented lanes. -/
theorem Half.Good.halfRound {t : Half} (ht : t.Good) (c : UInt64)
    (hA : Holds A (entry t.cols) (masked mask S)) :
    Holds (halfRound t c A) (fun x y => entry t.rows y x)
      (masked mask (Keccak.round c.toBitVec S)) := by
  have hrho := (hA.theta ht.places).rho ht.places
  rw [Keccak.theta_masked, Keccak.rho_masked] at hrho
  have hpi : Holds _ (fun x y => entry t.rows y x) (masked combineMask (pi (rho (theta S)))) :=
    ⟨hrho.length, fun x y => by rw [ht.rows, hrho.lane]; rfl⟩
  have hiota := (hpi.chi ht.placesRows).iota ht.placesRows ht.first c
  rwa [Keccak.iota_masked] at hiota

instance (idx : Fin 5 → Fin 5 → Nat) : Decidable (Places idx) :=
  decidable_of_iff ((∀ x y, idx x y < 25) ∧ ∀ x y x' y', idx x y = idx x' y' → x = x' ∧ y = y')
    ⟨fun h => ⟨h.1, h.2⟩, fun h => ⟨h.1, h.2⟩⟩

theorem half0_good : half0.Good := ⟨by decide +kernel, by decide, by decide⟩

theorem half1_good : half1.Good := ⟨by decide +kernel, by decide, by decide⟩

/-! ## The loop -/

/-- The second half finds the lanes where the first one has left them. -/
theorem half1_cols : ∀ x y, entry half1.cols x y = entry half0.rows y x := by
  decide

theorem half0_cols : ∀ x y : Fin 5, entry half0.cols x y = x + 5 * y := by
  decide

theorem getD_map_of_lt (f : UInt64 → UInt64) {i : Nat} (hi : i < A.length) :
    (A.map f).getD i 0 = f (A.getD i 0) := by
  rw [List.getD_eq_getElem _ _ hi, List.getD_eq_getElem _ _ (by rwa [List.length_map]),
    List.getElem_map]

/-- Moving entries does not look at them. -/
theorem cycle_map (f : UInt64 → UInt64) (t : UInt64) {l : List Nat} {A : List UInt64}
    (hl : ∀ i ∈ l, i < A.length) : cycle (f t) l (A.map f) = (cycle t l A).map f := by
  fun_induction cycle t l A with
  | case1 i j l A ih =>
    have hj : j < A.length := hl j (by simp)
    have hrest : ∀ i' ∈ j :: l, i' < (A.set i (A.getD j 0)).length := by
      intro i' hi'
      rw [List.length_set]
      exact hl i' (.tail _ hi')
    have hset : (A.map f).set i ((A.map f).getD j 0) = (A.set i (A.getD j 0)).map f := by
      rw [List.map_set, getD_map_of_lt f hj]
    rw [cycle, hset, ih hrest]
  | case2 => rw [cycle, List.map_set]
  | case3 => rfl

theorem length_cycle (t : UInt64) (l : List Nat) : (cycle t l A).length = A.length := by
  fun_induction cycle t l A with
  | case1 A i j l ih => rw [ih, List.length_set]
  | case2 => rw [List.length_set]
  | case3 => rfl

theorem length_moveBack : (moveBack A).length = A.length := by
  unfold moveBack
  rw [length_cycle, length_cycle]

theorem moveBack_map (f : UInt64 → UInt64) (hlen : A.length = 25) :
    moveBack (A.map f) = (moveBack A).map f := by
  unfold moveBack
  dsimp only
  rw [getD_map_of_lt f (by rw [hlen]; decide), cycle_map f _ (by rw [hlen]; decide),
    getD_map_of_lt f (by rw [length_cycle, hlen]; decide),
    cycle_map f _ (by rw [length_cycle, hlen]; decide)]

/-- The lanes go back to their places: by `moveBack_map` it is enough to move their numbers. -/
theorem getD_moveBack (hlen : A.length = 25) (x y : Fin 5) :
    (moveBack A).getD (entry half0.cols x y) 0 = A.getD (entry half1.rows y x) 0 := by
  let numbers := (List.range 25).map UInt64.ofNat
  have hmoved : ∀ x y : Fin 5, entry half0.cols x y < (moveBack numbers).length ∧
      ((moveBack numbers).getD (entry half0.cols x y) 0).toNat = entry half1.rows y x := by
    decide +kernel
  have hA : A = numbers.map fun i => A.getD i.toNat 0 := by
    apply List.ext_getElem
    · simp [numbers, hlen]
    · intro i hi _
      have hsize : i < 2 ^ 64 := by omega
      simp [numbers, hi, UInt64.toNat_ofNat_of_lt' hsize]
  obtain ⟨hlt, hnumber⟩ := hmoved x y
  rw [hA, moveBack_map _ rfl, getD_map_of_lt _ hlt, hnumber, ← hA]

theorem RC_eq : ∀ j < 24, (RC.getD j 0).toBitVec = Keccak.roundConstant 6 j := by
  decide +kernel

/-- An iteration of the loop is two rounds. -/
theorem Holds.iteration {k : Nat} (hk : k < 12) (hA : Holds A (entry half0.cols) (masked mask S)) :
    Holds (moveBack (Shake.halfRound half1 (RC.getD (2 * k + 1) 0)
      (Shake.halfRound half0 (RC.getD (2 * k) 0) A))) (entry half0.cols)
        (masked mask (Keccak.round (Keccak.roundConstant 6 (2 * k + 1))
          (Keccak.round (Keccak.roundConstant 6 (2 * k)) S))) := by
  have hfirst := half0_good.halfRound (RC.getD (2 * k) 0) hA
  rw [RC_eq (2 * k) (by omega)] at hfirst
  have hsecond := half1_good.halfRound (RC.getD (2 * k + 1) 0)
    ⟨hfirst.length, fun x y => by rw [half1_cols, hfirst.lane]⟩
  rw [RC_eq (2 * k + 1) (by omega)] at hsecond
  refine ⟨by rw [length_moveBack, hsecond.length], fun x y => ?_⟩
  rw [getD_moveBack hsecond.length, hsecond.lane]

theorem Holds.iterations {n : Nat} (hn : n ≤ 12)
    (hA : Holds A (entry half0.cols) (masked mask S)) :
    Holds ((List.range n).foldl (fun A k =>
      moveBack (Shake.halfRound half1 (RC.getD (2 * k + 1) 0)
        (Shake.halfRound half0 (RC.getD (2 * k) 0) A))) A) (entry half0.cols)
          (masked mask (Keccak.rounds 6 (2 * n) S)) := by
  induction n with
  | zero => exact hA
  | succ n ih =>
    have hstep := (ih (by omega)).iteration (show n < 12 by omega)
    rw [List.range_succ, List.foldl_append, List.foldl_cons, List.foldl_nil]
    exact hstep

/-- Inverting some words complements the lanes of the mask. -/
theorem Holds.invert (hA : Holds A (entry half0.cols) S) :
    Holds (invert A) (entry half0.cols) (masked mask S) := by
  have hlt : ∀ i ∈ [1, 2, 8, 12, 17, 20], id i < A.length := by
    rw [hA.length]
    decide
  refine ⟨by unfold Shake.invert; rw [length_updateAll, hA.length], fun x y => ?_⟩
  unfold Shake.invert masked
  by_cases hmem : entry half0.cols x y ∈ [1, 2, 8, 12, 17, 20]
  · have hmask : mask x y = true := by
      rw [half0_cols] at hmem
      exact decide_eq_true hmem
    have hget := getD_updateAll (f := fun _ a => ~~~a) hlt (by decide) hmem
    rw [id_eq] at hget
    rw [hget, UInt64.toBitVec_not, hA.lane, hmask, Keccak.comp_true]
  · have hmask : mask x y = false := by
      rw [half0_cols] at hmem
      exact decide_eq_false hmem
    rw [getD_updateAll_of_notMem hlt fun p hp heq => hmem (by rwa [← heq]), hA.lane, hmask,
      Keccak.comp_false]

/-- `process_block` is Keccak-f, the lane `(x, y)` being the entry `x + 5 y`. -/
theorem processBlock_spec (hA : Holds A (fun x y => x + 5 * y) S) :
    Holds (processBlock A) (fun x y => x + 5 * y) (Keccak.keccakF 6 S) := by
  have hcols : entry half0.cols = fun x y : Fin 5 => x.val + 5 * y.val := by
    funext x y
    exact half0_cols x y
  rw [← hcols] at hA ⊢
  have hloop := (hA.invert.iterations (le_refl 12)).invert
  rwa [Keccak.masked_masked] at hloop

end Trelyan.Falcon.Shake
