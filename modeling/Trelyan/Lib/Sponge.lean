import Mathlib.Logic.Function.Iterate
import Trelyan.Lib.Keccak

/-!
# The sponge construction, on bytes

`stream` is the construction: the padded message is added to the state block by block, and
byte `k` of the output is byte `k % r` of the state after `k / r` more permutations.

An implementation keeps a position in the block (`Ctx`) and takes one byte after the other.
`perm_flip` says what it has absorbed after its padding, `Squeezed.squeeze` what it returns, and
`Ops.Sim` compares two representations of the state.
-/

namespace Trelyan.Sponge

open scoped Keccak

/-- What a sponge does with its state. -/
structure Ops (σ : Type) where
  perm : σ → σ
  xorByte : σ → Nat → UInt8 → σ
  byte : σ → Nat → UInt8

variable {σ τ : Type} (O : Ops σ) (r : Nat)

/-! ## The construction -/

/-- Adds bytes to the state, from position `i` on. -/
def xorBytes (s : σ) : Nat → List UInt8 → σ
  | _, [] => s
  | i, b :: l => xorBytes (O.xorByte s i b) (i + 1) l

/-- What fills the last block of a message of `n` bytes: the byte `d`, and a last bit. -/
def pad (d : UInt8) (n : Nat) : List UInt8 :=
  if r - n % r = 1 then [d ^^^ 0x80] else d :: (List.replicate (r - n % r - 2) 0 ++ [0x80])

/-- Absorbs the full blocks. -/
def absorb (s : σ) (l : List UInt8) : σ :=
  if 0 < r ∧ r ≤ l.length then absorb (O.perm (xorBytes O s 0 (l.take r))) (l.drop r) else s
termination_by l.length
decreasing_by
  rw [List.length_drop]
  omega

/-- The output for a message, from the state `s`. -/
def stream (d : UInt8) (s : σ) (l : List UInt8) (k : Nat) : UInt8 :=
  O.byte (O.perm^[k / r] (absorb O r s (l ++ pad r d l.length))) (k % r)

/-! ## One byte after the other -/

/-- A state, and the position in the block. -/
structure Ctx (σ : Type) where
  state : σ
  pos : Nat

def absorbByte (c : Ctx σ) (b : UInt8) : Ctx σ :=
  let s := O.xorByte c.state c.pos b
  if c.pos + 1 = r then ⟨O.perm s, 0⟩ else ⟨s, c.pos + 1⟩

/-- Adds the padding; the block is left to be permuted. -/
def flip (d : UInt8) (c : Ctx σ) : Ctx σ :=
  ⟨O.xorByte (O.xorByte c.state c.pos d) (r - 1) 0x80, r⟩

def squeezeByte (c : Ctx σ) : UInt8 × Ctx σ :=
  let c := if c.pos = r then ⟨O.perm c.state, 0⟩ else c
  (O.byte c.state c.pos, ⟨c.state, c.pos + 1⟩)

def squeeze : Nat → Ctx σ → List UInt8 × Ctx σ
  | 0, c => ([], c)
  | n + 1, c =>
    let t := squeezeByte O r c
    let u := squeeze n t.2
    (t.1 :: u.1, u.2)

/-- Adding a byte is adding its bits. -/
structure Ops.Lawful : Prop where
  xor_zero : ∀ s i, O.xorByte s i 0 = s
  xor_xor : ∀ s i a b, O.xorByte (O.xorByte s i a) i b = O.xorByte s i (a ^^^ b)

variable {O r}

/-! ### Absorbing -/

theorem xorBytes_append (s : σ) (i : Nat) (l l' : List UInt8) :
    xorBytes O s i (l ++ l') = xorBytes O (xorBytes O s i l) (i + l.length) l' := by
  induction l generalizing s i with
  | nil => rfl
  | cons b l ih =>
    show xorBytes O (O.xorByte s i b) (i + 1) (l ++ l') = _
    rw [ih, List.length_cons, show i + (l.length + 1) = i + 1 + l.length by omega]
    rfl

theorem xorBytes_replicate (hO : O.Lawful) (s : σ) (i n : Nat) :
    xorBytes O s i (List.replicate n 0) = s := by
  induction n generalizing i with
  | zero => rfl
  | succ n ih =>
    show xorBytes O (O.xorByte s i 0) (i + 1) (List.replicate n 0) = s
    rw [hO.xor_zero, ih]

/-- Bytes that do not reach the end of the block. -/
theorem foldl_absorbByte_of_lt {s : σ} {i : Nat} {l : List UInt8} (h : i + l.length < r) :
    l.foldl (absorbByte O r) ⟨s, i⟩ = ⟨xorBytes O s i l, i + l.length⟩ := by
  induction l generalizing s i with
  | nil => rfl
  | cons b l ih =>
    rw [List.length_cons] at h
    have hstep : absorbByte O r ⟨s, i⟩ b = ⟨O.xorByte s i b, i + 1⟩ := by
      unfold absorbByte
      rw [if_neg (show ¬ i + 1 = r by omega)]
    rw [List.foldl_cons, hstep, ih (by omega), List.length_cons,
      show i + (l.length + 1) = i + 1 + l.length by omega]
    rfl

/-- Bytes that reach it. -/
theorem foldl_absorbByte_of_eq {s : σ} {i : Nat} {l : List UInt8} (hl : l ≠ [])
    (h : i + l.length = r) :
    l.foldl (absorbByte O r) ⟨s, i⟩ = ⟨O.perm (xorBytes O s i l), 0⟩ := by
  have hlen : 0 < l.length := List.length_pos_iff.mpr hl
  have hsplit := List.dropLast_concat_getLast hl
  have hinit : i + l.dropLast.length < r := by
    rw [List.length_dropLast]
    omega
  rw [← hsplit, List.foldl_append, foldl_absorbByte_of_lt hinit, xorBytes_append]
  show absorbByte O r _ _ = _
  unfold absorbByte
  rw [if_pos (by show i + l.dropLast.length + 1 = r; rw [List.length_dropLast]; omega)]
  rfl

theorem absorb_of_le (hr : 0 < r) {s : σ} {l : List UInt8} (h : r ≤ l.length) :
    absorb O r s l = absorb O r (O.perm (xorBytes O s 0 (l.take r))) (l.drop r) := by
  rw [absorb, if_pos ⟨hr, h⟩]

theorem absorb_of_lt {s : σ} {l : List UInt8} (h : l.length < r) : absorb O r s l = s := by
  rw [absorb, if_neg (by omega)]

theorem length_pad (d : UInt8) {n : Nat} (hr : 0 < r) : (pad r d n).length = r - n % r := by
  have hlt := Nat.mod_lt n hr
  unfold pad
  by_cases h : r - n % r = 1
  · rw [if_pos h, h]
    rfl
  · rw [if_neg h, List.length_cons, List.length_append, List.length_replicate, List.length_cons,
      List.length_nil]
    omega

/-- Adding the padding byte by byte is adding its two ends. -/
theorem xorBytes_pad (hO : O.Lawful) (d : UInt8) (s : σ) {n : Nat} (hn : n < r) :
    xorBytes O s n (pad r d n) = O.xorByte (O.xorByte s n d) (r - 1) 0x80 := by
  unfold pad
  rw [Nat.mod_eq_of_lt hn]
  by_cases h : r - n = 1
  · rw [if_pos h, show r - 1 = n by omega, hO.xor_xor]
    rfl
  · rw [if_neg h]
    show xorBytes O (O.xorByte s n d) (n + 1) (List.replicate (r - n - 2) 0 ++ [0x80]) = _
    rw [xorBytes_append, xorBytes_replicate hO, List.length_replicate,
      show n + 1 + (r - n - 2) = r - 1 by omega]
    rfl

/-- After the padding, the permutation gives what the construction has absorbed. -/
theorem perm_flip (hO : O.Lawful) (hr : 0 < r) (d : UInt8) (s : σ) (l : List UInt8) :
    O.perm (flip O r d (l.foldl (absorbByte O r) ⟨s, 0⟩)).state =
      absorb O r s (l ++ pad r d l.length) := by
  fun_induction absorb O r s l with
  | case1 s l h ih =>
    have hblock : (l.take r).length = r := by
      rw [List.length_take]
      omega
    have hne : l.take r ≠ [] := List.ne_nil_of_length_pos (by omega)
    have hpad : pad r d (l.drop r).length = pad r d l.length := by
      unfold pad
      rw [List.length_drop, ← Nat.mod_eq_sub_mod h.2]
    have hfold : l.foldl (absorbByte O r) ⟨s, 0⟩ =
        (l.drop r).foldl (absorbByte O r) ⟨O.perm (xorBytes O s 0 (l.take r)), 0⟩ := by
      have hfirst : (l.take r).foldl (absorbByte O r) ⟨s, 0⟩ = _ :=
        foldl_absorbByte_of_eq hne (by omega)
      rw [← hfirst, ← List.foldl_append, List.take_append_drop]
    rw [hpad] at ih
    rw [absorb_of_le hr (by rw [List.length_append]; omega), List.take_append_of_le_length h.2,
      List.drop_append_of_le_length h.2, ← ih, hfold]
  | case2 s l h =>
    have hlt : l.length < r := by omega
    have hlength : (l ++ pad r d l.length).length = r := by
      rw [List.length_append, length_pad d hr, Nat.mod_eq_of_lt hlt]
      omega
    rw [foldl_absorbByte_of_lt (by omega), absorb_of_le hr (Nat.le_of_eq hlength.symm),
      absorb_of_lt (by rw [List.length_drop]; omega), List.take_of_length_le (Nat.le_of_eq hlength),
      xorBytes_append, Nat.zero_add, xorBytes_pad hO d _ hlt]
    rfl

/-! ### Squeezing -/

/-- `k` bytes of the output have been taken, from the state `s` on. -/
def Squeezed (O : Ops σ) (r : Nat) (s : σ) (k : Nat) (c : Ctx σ) : Prop :=
  (c.pos = r ∧ k % r = 0 ∧ c.state = O.perm^[k / r] s) ∨
    (c.pos < r ∧ k % r = c.pos ∧ c.state = O.perm^[k / r] (O.perm s))

theorem squeezed_zero (s : σ) : Squeezed O r s 0 ⟨s, r⟩ :=
  .inl ⟨rfl, Nat.zero_mod r, by rw [Nat.zero_div]; rfl⟩

theorem Squeezed.step (hr : 0 < r) {s : σ} {k : Nat} {c : Ctx σ} (h : Squeezed O r s k c) :
    (squeezeByte O r c).1 = O.byte (O.perm^[k / r] (O.perm s)) (k % r) ∧
      Squeezed O r s (k + 1) (squeezeByte O r c).2 := by
  -- Whether or not the block had to be permuted, the byte is read at `k % r`.
  have hready : squeezeByte O r c =
      (O.byte (O.perm^[k / r] (O.perm s)) (k % r), ⟨O.perm^[k / r] (O.perm s), k % r + 1⟩) := by
    unfold squeezeByte
    rcases h with ⟨hpos, hk, hstate⟩ | ⟨hpos, hk, hstate⟩
    · rw [if_pos hpos, hk, hstate, ← Function.iterate_succ_apply' O.perm,
        Function.iterate_succ_apply]
    · rw [if_neg (by omega), hk, ← hstate]
  have hlt := Nat.mod_lt k hr
  have hdiv := Nat.div_add_mod k r
  rw [hready]
  refine ⟨rfl, ?_⟩
  by_cases hend : k % r + 1 = r
  · have hmul : k + 1 = r * (k / r + 1) := by
      rw [Nat.mul_add]
      omega
    refine .inl ⟨hend, by rw [hmul, Nat.mul_mod_right], ?_⟩
    rw [hmul, Nat.mul_div_cancel_left _ hr, Function.iterate_succ_apply]
  · have hadd : k + 1 = r * (k / r) + (k % r + 1) := by omega
    have hsmall : k % r + 1 < r := by omega
    refine .inr ⟨hsmall, ?_, ?_⟩
    · rw [hadd, Nat.mul_add_mod, Nat.mod_eq_of_lt hsmall]
    · rw [hadd, Nat.mul_add_div hr, Nat.div_eq_of_lt hsmall, Nat.add_zero]
      rfl

/-- The bytes that are taken are the next ones of the output. -/
theorem Squeezed.squeeze (hr : 0 < r) {s : σ} {k n : Nat} {c : Ctx σ} (h : Squeezed O r s k c) :
    (squeeze O r n c).1 =
        (List.range' k n).map (fun j => O.byte (O.perm^[j / r] (O.perm s)) (j % r)) ∧
      Squeezed O r s (k + n) (squeeze O r n c).2 := by
  induction n generalizing k c with
  | zero => exact ⟨rfl, h⟩
  | succ n ih =>
    obtain ⟨hbyte, hnext⟩ := h.step hr
    obtain ⟨hrest, hlast⟩ := ih hnext
    rw [show k + (n + 1) = k + 1 + n by omega]
    refine ⟨?_, hlast⟩
    show _ :: (Sponge.squeeze O r n (squeezeByte O r c).2).1 = _
    rw [hbyte, hrest, List.range'_succ, List.map_cons]

theorem squeeze_add (m n : Nat) (c : Ctx σ) :
    squeeze O r (m + n) c =
      ((squeeze O r m c).1 ++ (squeeze O r n (squeeze O r m c).2).1,
        (squeeze O r n (squeeze O r m c).2).2) := by
  induction m generalizing c with
  | zero => rw [Nat.zero_add]; rfl
  | succ m ih =>
    rw [Nat.succ_add]
    show (_ :: (squeeze O r (m + n) _).1, (squeeze O r (m + n) _).2) = _
    rw [ih]
    rfl

/-- Bytes of one block. -/
theorem squeeze_block {s : σ} {i n : Nat} (h : i + n ≤ r) :
    squeeze O r n ⟨s, i⟩ = ((List.range' i n).map (O.byte s), ⟨s, i + n⟩) := by
  induction n generalizing i with
  | zero => rfl
  | succ n ih =>
    have hbyte : squeezeByte O r ⟨s, i⟩ = (O.byte s i, ⟨s, i + 1⟩) := by
      unfold squeezeByte
      rw [if_neg (show ¬ i = r by omega)]
    show ((squeezeByte O r ⟨s, i⟩).1 :: (squeeze O r n (squeezeByte O r ⟨s, i⟩).2).1,
      (squeeze O r n (squeezeByte O r ⟨s, i⟩).2).2) = _
    rw [hbyte, ih (by omega), List.range'_succ, List.map_cons,
      show i + (n + 1) = i + 1 + n by omega]

/-- At the end of a block, the state is permuted first. -/
theorem squeeze_end (hr : 0 < r) (s : σ) {n : Nat} (hn : 0 < n) :
    squeeze O r n ⟨s, r⟩ = squeeze O r n ⟨O.perm s, 0⟩ := by
  have hbyte : squeezeByte O r ⟨s, r⟩ = squeezeByte O r ⟨O.perm s, 0⟩ := by
    unfold squeezeByte
    rw [if_pos rfl, if_neg (show ¬ 0 = r by omega)]
  cases n with
  | zero => omega
  | succ n =>
    unfold squeeze
    rw [hbyte]

/-! ## Two representations of the state -/

/-- The operations keep `R`, and read the same bytes. -/
structure Ops.Sim (O : Ops σ) (P : Ops τ) (r : Nat) (R : σ → τ → Prop) : Prop where
  perm : ∀ {s t}, R s t → R (O.perm s) (P.perm t)
  xorByte : ∀ {s t i}, R s t → i < r → ∀ b, R (O.xorByte s i b) (P.xorByte t i b)
  byte : ∀ {s t i}, R s t → i < r → O.byte s i = P.byte t i

section Sim

variable {P : Ops τ} {R : σ → τ → Prop} (hsim : O.Sim P r R)
include hsim

theorem Ops.Sim.xorBytes {s : σ} {t : τ} {i : Nat} {l : List UInt8} (h : R s t)
    (hl : i + l.length ≤ r) : R (Sponge.xorBytes O s i l) (Sponge.xorBytes P t i l) := by
  induction l generalizing s t i with
  | nil => exact h
  | cons b l ih =>
    rw [List.length_cons] at hl
    exact ih (hsim.xorByte h (by omega) b) (by omega)

theorem Ops.Sim.absorb {s : σ} {t : τ} (h : R s t) (l : List UInt8) :
    R (Sponge.absorb O r s l) (Sponge.absorb P r t l) := by
  fun_induction Sponge.absorb O r s l generalizing t with
  | case1 s l hl ih =>
    rw [absorb_of_le hl.1 (s := t) hl.2]
    refine ih (hsim.perm (hsim.xorBytes h ?_))
    rw [List.length_take]
    omega
  | case2 s l hl =>
    rw [Sponge.absorb, if_neg hl]
    exact h

theorem Ops.Sim.iterate {s : σ} {t : τ} (h : R s t) (n : Nat) :
    R (O.perm^[n] s) (P.perm^[n] t) := by
  induction n with
  | zero => exact h
  | succ n ih =>
    rw [Function.iterate_succ_apply', Function.iterate_succ_apply']
    exact hsim.perm ih

/-- Both give the same output. -/
theorem Ops.Sim.stream (hr : 0 < r) (d : UInt8) {s : σ} {t : τ} (h : R s t) (l : List UInt8) :
    stream O r d s l = stream P r d t l := by
  funext k
  exact hsim.byte (hsim.iterate (hsim.absorb h _) _) (Nat.mod_lt k hr)

end Sim

/-! ## The bytes of a Keccak state -/

/-- The state of Keccak-f with lanes of 64 bits: byte `i` is in the lane `i / 8`. -/
def keccak : Ops (Keccak.State 64) where
  perm := Keccak.keccakF 6
  xorByte S i b := fun x y =>
    if x + 5 * y = i / 8 then S x y ^^^ b.toBitVec.setWidth 64 <<< (8 * (i % 8)) else S x y
  byte S i := .ofBitVec ((S (Fin.ofNat 5 (i / 8)) (Fin.ofNat 5 (i / 8 / 5)) >>>
    (8 * (i % 8))).setWidth 8)

/-- SHAKE256: blocks of 136 bytes. -/
def shake256 : List UInt8 → Nat → UInt8 := stream keccak 136 0x1F fun _ _ => 0#64

end Trelyan.Sponge
