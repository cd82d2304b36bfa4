import Trelyan.Falcon.Keccak
import Trelyan.Lib.BigEndian
import Trelyan.Lib.Sponge

/-!
# SHAKE256

The context of `shake.c`: `init`, then `inject` any number of times, then `flip`, then
`extract` any number of times.  The functions read and write the state either as bytes (a
little-endian machine) or through shifts of its words; `byteOps` and `wordOps` are the two.

Whatever the pieces, what comes out is SHAKE256 of what went in, in order
(`shakeRun_eq`).
-/

namespace Trelyan.Falcon.Shake

open Keccak (State)
open Sponge (Ops Ctx)

/-! ## The functions -/

/-- `FALCON_LE` is 0: bytes are shifted into and out of `st.A`. -/
def wordOps : Ops (List UInt64) where
  perm := processBlock
  xorByte A v b :=
    A.set (v >>> 3) (A.getD (v >>> 3) 0 ^^^ b.toUInt64 <<< UInt64.ofNat ((v &&& 7) <<< 3))
  byte A v := (A.getD (v >>> 3) 0 >>> UInt64.ofNat ((v &&& 7) <<< 3)).toUInt8

/-- `st.A`, from the bytes of the union. -/
def load (dbuf : Bytes) : List UInt64 :=
  (List.range 25).map fun i => (List.range 8).foldl
    (fun w j => w ||| (dbuf.getD (8 * i + j) 0).toUInt64 <<< UInt64.ofNat (8 * j)) 0

/-- The bytes of the union, from `st.A`. -/
def store (A : List UInt64) : Bytes :=
  (List.range 200).map fun v => (A.getD (v / 8) 0 >>> UInt64.ofNat (8 * (v % 8))).toUInt8

/-- `FALCON_LE` is 1: bytes are those of `st.dbuf`. -/
def byteOps : Ops Bytes where
  perm dbuf := store (processBlock (load dbuf))
  xorByte dbuf v b := dbuf.set v (dbuf.getD v 0 ^^^ b)
  byte dbuf v := dbuf.getD v 0

variable {σ : Type} (O : Ops σ)

/-- The loop of `Zf(i_shake256_inject)`, at most `fuel` times. -/
def inject : Nat → Ctx σ → Bytes → Option (Ctx σ)
  | _, c, [] => some c
  | 0, _, _ :: _ => none
  | fuel + 1, c, b :: l =>
    let clen := min (136 - c.pos) (b :: l).length
    let s := Sponge.xorBytes O c.state c.pos ((b :: l).take clen)
    let dptr := c.pos + clen
    inject fuel (if dptr = 136 then ⟨O.perm s, 0⟩ else ⟨s, dptr⟩) ((b :: l).drop clen)

/-- `Zf(i_shake256_flip)`. -/
def flip (c : Ctx σ) : Ctx σ := ⟨O.xorByte (O.xorByte c.state c.pos 0x1F) 135 0x80, 136⟩

/-- The loop of `Zf(i_shake256_extract)`, at most `fuel` times. -/
def extract : Nat → Nat → Ctx σ → Option (Bytes × Ctx σ)
  | _, 0, c => some ([], c)
  | 0, _ + 1, _ => none
  | fuel + 1, len + 1, c =>
    let c := if c.pos = 136 then ⟨O.perm c.state, 0⟩ else c
    let clen := min (136 - c.pos) (len + 1)
    (extract fuel (len + 1 - clen) ⟨c.state, c.pos + clen⟩).map fun t =>
      ((List.range' c.pos clen).map (O.byte c.state) ++ t.1, t.2)

/-- Calls of `inject`, one after the other. -/
def injectAll (fuel : Nat) : List Bytes → Ctx σ → Option (Ctx σ)
  | [], c => some c
  | l :: pieces, c => (inject O fuel c l).bind (injectAll fuel pieces)

/-- Calls of `extract`. -/
def extractAll (fuel : Nat) : List Nat → Ctx σ → Option (List Bytes)
  | [], _ => some []
  | n :: lens, c =>
    (extract O fuel n c).bind fun t => (extractAll fuel lens t.2).map fun out => t.1 :: out

/-- A whole run, from `Zf(i_shake256_init)` on: `s₀` is the state of zeros. -/
def shakeRun (s₀ : σ) (fuel : Nat) (pieces : List Bytes) (lens : List Nat) :
    Option (List Bytes) :=
  (injectAll O fuel pieces ⟨s₀, 0⟩).bind fun c => extractAll O fuel lens (flip O c)

/-! ## Chunks are bytes -/

variable {O}

theorem inject_eq {fuel : Nat} {c : Ctx σ} {l : Bytes} (hpos : c.pos < 136)
    (hfuel : l.length ≤ fuel) :
    inject O fuel c l = some (l.foldl (Sponge.absorbByte O 136) c) := by
  fun_induction inject O fuel c l with
  | case1 => rfl
  | case2 => simp at hfuel
  | case3 fuel c b l clen s dptr ih =>
    have hsplit := List.take_append_drop clen (b :: l)
    have hlen : (b :: l).length = l.length + 1 := rfl
    have htake : ((b :: l).take clen).length = clen := List.length_take_of_le (by omega)
    have hchunk : ((b :: l).take clen).foldl (Sponge.absorbByte O 136) c =
        if dptr = 136 then ⟨O.perm s, 0⟩ else ⟨s, dptr⟩ := by
      by_cases hend : dptr = 136
      · have hne : (b :: l).take clen ≠ [] := List.ne_nil_of_length_pos (by omega)
        rw [if_pos hend]
        exact Sponge.foldl_absorbByte_of_eq hne (by rw [htake]; exact hend)
      · rw [if_neg hend]
        have hlt := Sponge.foldl_absorbByte_of_lt (O := O) (s := c.state) (i := c.pos)
          (l := (b :: l).take clen) (r := 136) (by omega)
        rwa [htake] at hlt
    rw [ih ?_ ?_, ← hchunk, ← List.foldl_append, hsplit]
    · by_cases hend : dptr = 136
      · rw [if_pos hend]
        show 0 < 136
        decide
      · rw [if_neg hend]
        show dptr < 136
        omega
    · rw [List.length_drop]
      omega

theorem pos_absorbByte {c : Ctx σ} (hpos : c.pos < 136) (b : UInt8) :
    (Sponge.absorbByte O 136 c b).pos < 136 := by
  unfold Sponge.absorbByte
  by_cases hend : c.pos + 1 = 136
  · rw [if_pos hend]
    show 0 < 136
    decide
  · rw [if_neg hend]
    show c.pos + 1 < 136
    omega

theorem pos_foldl {c : Ctx σ} (hpos : c.pos < 136) (l : Bytes) :
    (l.foldl (Sponge.absorbByte O 136) c).pos < 136 := by
  induction l generalizing c with
  | nil => exact hpos
  | cons b l ih => exact ih (pos_absorbByte hpos b)

theorem extract_eq {fuel len : Nat} {c : Ctx σ} (hpos : c.pos ≤ 136) (hfuel : len ≤ fuel) :
    extract O fuel len c = some (Sponge.squeeze O 136 len c) := by
  fun_induction extract O fuel len c with
  | case1 => rfl
  | case2 => omega
  | case3 fuel len c₀ c clen ih =>
    have hready : c.pos < 136 ∧ Sponge.squeeze O 136 (len + 1) c₀ =
        Sponge.squeeze O 136 (len + 1) c := by
      by_cases hend : c₀.pos = 136
      · have hc : c = ⟨O.perm c₀.state, 0⟩ := if_pos hend
        have hc₀ : c₀ = ⟨c₀.state, 136⟩ := by rw [← hend]
        rw [hc]
        refine ⟨show 0 < 136 by decide, ?_⟩
        nth_rewrite 1 [hc₀]
        exact Sponge.squeeze_end (by decide) _ (by omega)
      · have hc : c = c₀ := if_neg hend
        rw [hc]
        exact ⟨by omega, rfl⟩
    have hclen : c.pos + clen ≤ 136 := by omega
    have hsum : len + 1 = clen + (len + 1 - clen) := by omega
    rw [ih hclen (by omega), hready.2, hsum, Sponge.squeeze_add, Sponge.squeeze_block hclen]
    rw [show clen + (len + 1 - clen) - clen = len + 1 - clen by omega]
    rfl

theorem injectAll_eq {fuel : Nat} {pieces : List Bytes} {c : Ctx σ} (hpos : c.pos < 136)
    (hfuel : ∀ l ∈ pieces, l.length ≤ fuel) :
    injectAll O fuel pieces c = some (pieces.flatten.foldl (Sponge.absorbByte O 136) c) := by
  induction pieces generalizing c with
  | nil => rfl
  | cons l pieces ih =>
    unfold injectAll
    rw [inject_eq hpos (hfuel l (.head _)), Option.bind_some,
      ih (pos_foldl hpos l) fun l hl => hfuel l (.tail _ hl), List.flatten_cons,
      List.foldl_append]

/-- Consecutive pieces of a stream, from byte `k` on. -/
def cut (s : Nat → UInt8) : Nat → List Nat → List Bytes
  | _, [] => []
  | k, n :: lens => (List.range' k n).map s :: cut s (k + n) lens

theorem Squeezed.pos_le {s : σ} {k : Nat} {c : Ctx σ} (h : Sponge.Squeezed O 136 s k c) :
    c.pos ≤ 136 := by
  rcases h with ⟨hpos, _⟩ | ⟨hpos, _⟩
  · omega
  · omega

theorem extractAll_eq {s : σ} {fuel k : Nat} {lens : List Nat} {c : Ctx σ}
    (h : Sponge.Squeezed O 136 s k c) (hfuel : ∀ n ∈ lens, n ≤ fuel) :
    extractAll O fuel lens c =
      some (cut (fun j => O.byte (O.perm^[j / 136] (O.perm s)) (j % 136)) k lens) := by
  induction lens generalizing k c with
  | nil => rfl
  | cons n lens ih =>
    obtain ⟨hbytes, hnext⟩ := h.squeeze (n := n) (by decide)
    unfold extractAll
    rw [extract_eq (Squeezed.pos_le h) (hfuel n (.head _)), Option.bind_some,
      ih hnext fun n hn => hfuel n (.tail _ hn), Option.map_some, hbytes]
    rfl

/-- What comes out of a run, however it is cut. -/
theorem shakeRun_stream (hO : O.Lawful) (s₀ : σ) {fuel : Nat} {pieces : List Bytes}
    {lens : List Nat} (hpieces : ∀ l ∈ pieces, l.length ≤ fuel) (hlens : ∀ n ∈ lens, n ≤ fuel) :
    shakeRun O s₀ fuel pieces lens =
      some (cut (Sponge.stream O 136 0x1F s₀ pieces.flatten) 0 lens) := by
  have hflip := Sponge.perm_flip hO (r := 136) (by decide) 0x1F s₀ pieces.flatten
  have hout := extractAll_eq (O := O) (Sponge.squeezed_zero (r := 136)
    (Sponge.flip O 136 0x1F (pieces.flatten.foldl (Sponge.absorbByte O 136) ⟨s₀, 0⟩)).state) hlens
  rw [hflip] at hout
  unfold shakeRun
  rw [injectAll_eq (show 0 < 136 by decide) hpieces, Option.bind_some]
  exact hout

/-! ## The two representations -/

theorem shift_eq (v : Nat) : (v &&& 7) <<< 3 = 8 * (v % 8) := by
  rw [Nat.shiftLeft_eq, show (7 : Nat) = 2 ^ 3 - 1 from rfl, Nat.and_two_pow_sub_one_eq_mod]
  omega

theorem wordOps_lawful : wordOps.Lawful := by
  refine ⟨fun A v => ?_, fun A v a b => ?_⟩
  · show A.set (v >>> 3) (A.getD (v >>> 3) 0 ^^^ (0 : UInt8).toUInt64 <<< _) = A
    rw [show (0 : UInt8).toUInt64 = 0 from rfl, UInt64.zero_shiftLeft, UInt64.xor_zero]
    by_cases hv : v >>> 3 < A.length
    · rw [List.getD_eq_getElem _ _ hv, List.set_getElem_self]
    · rw [List.set_eq_of_length_le (by omega)]
  · show (A.set (v >>> 3) _).set (v >>> 3) ((A.set (v >>> 3) _).getD (v >>> 3) 0 ^^^ _) = _
    rw [List.set_set]
    by_cases hv : v >>> 3 < A.length
    · rw [getD_set_eq hv, if_pos rfl, UInt64.xor_assoc]
      show _ = A.set (v >>> 3) (_ ^^^ (a ^^^ b).toUInt64 <<< _)
      rw [UInt8.toUInt64_xor, UInt64.shiftLeft_xor]
    · rw [List.set_eq_of_length_le (by omega)]
      exact (List.set_eq_of_length_le (by omega)).symm

theorem byteOps_lawful : byteOps.Lawful := by
  refine ⟨fun d v => ?_, fun d v a b => ?_⟩
  · show d.set v (d.getD v 0 ^^^ 0) = d
    rw [UInt8.xor_zero]
    by_cases hv : v < d.length
    · rw [List.getD_eq_getElem _ _ hv, List.set_getElem_self]
    · rw [List.set_eq_of_length_le (by omega)]
  · show (d.set v _).set v ((d.set v _).getD v 0 ^^^ b) = d.set v (d.getD v 0 ^^^ (a ^^^ b))
    rw [List.set_set]
    by_cases hv : v < d.length
    · rw [List.getD_eq_getElem _ _ (by rwa [List.length_set]), List.getElem_set_self,
        UInt8.xor_assoc]
    · rw [List.set_eq_of_length_le (by omega), List.set_eq_of_length_le (by omega)]

/-! ### Words and the lanes of the state -/

theorem toNat_shift {j : Nat} (hj : j < 8) : (UInt64.ofNat (8 * j)).toNat % 64 = 8 * j := by
  rw [UInt64.toNat_ofNat_of_lt' (show 8 * j < 2 ^ 64 by omega), Nat.mod_eq_of_lt (by omega)]

theorem toBitVec_shiftLeft (w : UInt64) {j : Nat} (hj : j < 8) :
    (w <<< UInt64.ofNat (8 * j)).toBitVec = w.toBitVec <<< (8 * j) := by
  rw [UInt64.toBitVec_shiftLeft]
  show w.toBitVec <<< ((UInt64.ofNat (8 * j)).toNat % 64) = _
  rw [toNat_shift hj]

theorem toBitVec_shiftRight (w : UInt64) {j : Nat} (hj : j < 8) :
    (w >>> UInt64.ofNat (8 * j)).toBitVec = w.toBitVec >>> (8 * j) := by
  rw [UInt64.toBitVec_shiftRight]
  show w.toBitVec >>> ((UInt64.ofNat (8 * j)).toNat % 64) = _
  rw [toNat_shift hj]

/-- The words hold the lanes of a Keccak state. -/
def Lanes (A : List UInt64) (S : State 64) : Prop := Holds A (fun x y => x + 5 * y) S

theorem wordOps_sim : wordOps.Sim Sponge.keccak 136 Lanes := by
  refine ⟨fun {A S} h => ?_, fun {A S i} h hi b => ⟨?_, fun x y => ?_⟩, fun {A S i} h hi => ?_⟩
  · dsimp only [wordOps, Sponge.keccak]
    exact processBlock_spec h
  · rw [← h.length]
    exact List.length_set ..
  · have hlt : i >>> 3 < A.length := by
      rw [h.length, Nat.shiftRight_eq_div_pow]
      omega
    show ((A.set (i >>> 3) _).getD (x + 5 * y) 0).toBitVec =
      if x + 5 * y = i / 8 then _ else _
    rw [getD_set_eq hlt, shift_eq, Nat.shiftRight_eq_div_pow]
    by_cases hlane : x.val + 5 * y.val = i / 8
    · rw [if_pos hlane, if_pos hlane, UInt64.toBitVec_xor, ← hlane, h.lane,
        toBitVec_shiftLeft _ (Nat.mod_lt _ (by decide))]
      rfl
    · rw [if_neg hlane, if_neg hlane, h.lane]
  · have hlane := h.lane (Fin.ofNat 5 (i / 8)) (Fin.ofNat 5 (i / 8 / 5))
    have hindex : (Fin.ofNat 5 (i / 8)).val + 5 * (Fin.ofNat 5 (i / 8 / 5)).val = i >>> 3 := by
      show i / 8 % 5 + 5 * (i / 8 / 5 % 5) = i >>> 3
      rw [Nat.shiftRight_eq_div_pow]
      omega
    rw [hindex] at hlane
    apply UInt8.toBitVec_inj.mp
    show ((A.getD (i >>> 3) 0 >>> UInt64.ofNat ((i &&& 7) <<< 3)).toUInt8).toBitVec = _
    rw [UInt64.toBitVec_toUInt8, shift_eq, toBitVec_shiftRight _ (Nat.mod_lt _ (by decide)), hlane]
    rfl

/-! ### The union -/

/-- Bit `z` of a byte that is moved to position `j` of a word. -/
theorem getLsbD_byte (b : UInt8) {j z : Nat} (hj : j < 8) (hz : z < 64) :
    (b.toUInt64 <<< UInt64.ofNat (8 * j)).toBitVec.getLsbD z =
      (decide (z / 8 = j) && b.toBitVec.getLsbD (z % 8)) := by
  rw [toBitVec_shiftLeft _ hj, BitVec.getLsbD_shiftLeft, UInt8.toBitVec_toUInt64,
    BitVec.getLsbD_setWidth]
  rcases Nat.lt_trichotomy (z / 8) j with hlt | heq | hgt
  · simp [show z < 8 * j by omega, show ¬ z / 8 = j by omega]
  · simp [hz, heq, show ¬ z < 8 * j by omega, show z - 8 * j = z % 8 by omega,
      show z % 8 < 64 by omega]
  · have hhigh : b.toBitVec.getLsbD (z - 8 * j) = false := BitVec.getLsbD_of_ge _ _ (by omega)
    simp [hhigh, show ¬ z / 8 = j by omega]

/-- Bit `i` of the byte at position `j` of a word. -/
theorem getLsbD_wordByte (w : UInt64) {j i : Nat} (hj : j < 8) (hi : i < 8) :
    (w >>> UInt64.ofNat (8 * j)).toUInt8.toBitVec.getLsbD i =
      w.toBitVec.getLsbD (8 * j + i) := by
  rw [UInt64.toBitVec_toUInt8, toBitVec_shiftRight _ hj, BitVec.getLsbD_setWidth,
    BitVec.getLsbD_ushiftRight, decide_eq_true hi, Bool.true_and]

/-- Adding a byte to a word changes the byte at its position only. -/
theorem wordByte_xor (w : UInt64) (b : UInt8) {j k : Nat} (hj : j < 8) (hk : k < 8) :
    ((w ^^^ b.toUInt64 <<< UInt64.ofNat (8 * j)) >>> UInt64.ofNat (8 * k)).toUInt8 =
      (w >>> UInt64.ofNat (8 * k)).toUInt8 ^^^ (if k = j then b else 0) := by
  apply UInt8.toBitVec_inj.mp
  apply BitVec.eq_of_getLsbD_eq
  intro i hi
  rw [getLsbD_wordByte _ hk hi, UInt64.toBitVec_xor, BitVec.getLsbD_xor,
    getLsbD_byte b hj (show 8 * k + i < 64 by omega), UInt8.toBitVec_xor, BitVec.getLsbD_xor,
    getLsbD_wordByte _ hk hi, show (8 * k + i) / 8 = k by omega, show (8 * k + i) % 8 = i by omega]
  by_cases hkj : k = j
  · rw [if_pos hkj, decide_eq_true hkj, Bool.true_and]
  · rw [if_neg hkj, decide_eq_false hkj, Bool.false_and]
    simp

@[simp] theorem length_store (A : List UInt64) : (store A).length = 200 := by
  simp [store]

theorem getD_store (A : List UInt64) {v : Nat} (hv : v < 200) :
    (store A).getD v 0 = (A.getD (v / 8) 0 >>> UInt64.ofNat (8 * (v % 8))).toUInt8 := by
  rw [List.getD_eq_getElem _ _ (by rwa [length_store])]
  simp [store]

theorem getLsbD_foldl_load (d : Bytes) (i : Nat) {n z : Nat} (hn : n ≤ 8) (hz : z < 64) :
    ((List.range n).foldl (fun w j =>
      w ||| (d.getD (8 * i + j) 0).toUInt64 <<< UInt64.ofNat (8 * j)) 0).toBitVec.getLsbD z =
        (decide (z / 8 < n) && (d.getD (8 * i + z / 8) 0).toBitVec.getLsbD (z % 8)) := by
  induction n with
  | zero => simp
  | succ n ih =>
    rw [List.range_succ, List.foldl_append, List.foldl_cons, List.foldl_nil, UInt64.toBitVec_or,
      BitVec.getLsbD_or, ih (by omega), getLsbD_byte _ (show n < 8 by omega) hz]
    by_cases heq : z / 8 = n
    · simp [heq]
    · simp [heq, show z / 8 < n + 1 ↔ z / 8 < n by omega]

/-- Reading back the words that were written. -/
theorem load_store {A : List UInt64} (hA : A.length = 25) : load (store A) = A := by
  apply List.ext_getElem
  · simp [load, hA]
  · intro i hi hi'
    have hget : (load (store A))[i] = (List.range 8).foldl (fun w j =>
        w ||| ((store A).getD (8 * i + j) 0).toUInt64 <<< UInt64.ofNat (8 * j)) 0 := by
      simp [load]
    refine hget.trans ?_
    apply UInt64.toBitVec_inj.mp
    apply BitVec.eq_of_getLsbD_eq
    intro z hz
    rw [getLsbD_foldl_load _ _ (le_refl 8) hz, decide_eq_true (show z / 8 < 8 by omega),
      Bool.true_and, getD_store _ (by omega), show (8 * i + z / 8) / 8 = i by omega,
      show (8 * i + z / 8) % 8 = z / 8 by omega,
      getLsbD_wordByte _ (by omega) (Nat.mod_lt _ (by decide)),
      show 8 * (z / 8) + z % 8 = z by omega, List.getD_eq_getElem _ _ (by omega)]

/-- The two views of the union. -/
def Views (d : Bytes) (A : List UInt64) : Prop := A.length = 25 ∧ d = store A

theorem length_processBlock {A : List UInt64} (hA : A.length = 25) :
    (processBlock A).length = 25 := by
  exact (processBlock_spec (A := A) (S := fun x y => (A.getD (x + 5 * y) 0).toBitVec)
    ⟨hA, fun _ _ => rfl⟩).length

theorem byteOps_sim : byteOps.Sim wordOps 136 Views := by
  refine ⟨fun {d A} h => ?_, fun {d A v} h hv b => ?_, fun {d A v} h hv => ?_⟩
  · dsimp only [byteOps, wordOps]
    exact ⟨length_processBlock h.1, by rw [h.2, load_store h.1]⟩
  · refine ⟨(List.length_set ..).trans h.1, ?_⟩
    show d.set v (d.getD v 0 ^^^ b) = store (A.set (v >>> 3) (A.getD (v >>> 3) 0 ^^^ _))
    have hlt : v >>> 3 < A.length := by
      rw [h.1, Nat.shiftRight_eq_div_pow]
      omega
    rw [h.2]
    apply List.ext_getElem
    · simp
    · intro i hi hi'
      have hi₂₀₀ : i < 200 := by rwa [length_store] at hi'
      rw [← List.getD_eq_getElem _ 0 hi, ← List.getD_eq_getElem _ 0 hi',
        getD_set_eq (by rw [length_store]; omega), getD_store _ hi₂₀₀, getD_store _ hi₂₀₀,
        getD_store _ (by omega), getD_set_eq hlt, shift_eq, Nat.shiftRight_eq_div_pow]
      by_cases hiv : i = v
      · rw [if_pos hiv, hiv, if_pos rfl, wordByte_xor _ _ (by omega) (by omega), if_pos rfl]
      · rw [if_neg hiv]
        by_cases hword : i / 8 = v / 8
        · have hne : i % 8 ≠ v % 8 := by omega
          rw [if_pos hword, wordByte_xor _ _ (by omega) (by omega), if_neg hne, UInt8.xor_zero,
            hword]
        · rw [if_neg hword]
  · show d.getD v 0 = (A.getD (v >>> 3) 0 >>> UInt64.ofNat ((v &&& 7) <<< 3)).toUInt8
    rw [h.2, getD_store _ (by omega), shift_eq, Nat.shiftRight_eq_div_pow]

/-! ## What the functions return -/

/-- `memset(sc->st.A, 0, sizeof sc->st.A)`, for the words and for the bytes. -/
def zeroWords : List UInt64 := List.replicate 25 0

def zeroBytes : Bytes := List.replicate 200 0

theorem lanes_zero : Lanes zeroWords fun _ _ => 0#64 := by
  refine ⟨by decide, fun x y => ?_⟩
  revert x y
  decide

theorem views_zero : Views zeroBytes zeroWords := ⟨by decide, by decide +kernel⟩

theorem stream_words (l : Bytes) :
    Sponge.stream wordOps 136 0x1F zeroWords l = Sponge.shake256 l :=
  wordOps_sim.stream (by decide) 0x1F lanes_zero l

theorem stream_bytes (l : Bytes) :
    Sponge.stream byteOps 136 0x1F zeroBytes l = Sponge.shake256 l :=
  (byteOps_sim.stream (by decide) 0x1F views_zero l).trans (stream_words l)

/-- On either machine, a run returns consecutive pieces of SHAKE256 of all that went in. -/
theorem shakeRun_eq {fuel : Nat} {pieces : List Bytes} {lens : List Nat}
    (hpieces : ∀ l ∈ pieces, l.length ≤ fuel) (hlens : ∀ n ∈ lens, n ≤ fuel) :
    shakeRun wordOps zeroWords fuel pieces lens =
        some (cut (Sponge.shake256 pieces.flatten) 0 lens) ∧
      shakeRun byteOps zeroBytes fuel pieces lens =
        some (cut (Sponge.shake256 pieces.flatten) 0 lens) := by
  refine ⟨?_, ?_⟩
  · rw [shakeRun_stream wordOps_lawful _ hpieces hlens, stream_words]
  · rw [shakeRun_stream byteOps_lawful _ hpieces hlens, stream_bytes]

/-- `abc`, in two pieces. -/
theorem shakeRun_abc :
    shakeRun wordOps zeroWords 3 [[97], [98, 99]] [2, 1] =
      some (cut (Sponge.shake256 [[97], [98, 99]].flatten) 0 [2, 1]) :=
  (shakeRun_eq (by decide) (by decide)).1

end Trelyan.Falcon.Shake
