import Trelyan.Falcon.Modq
import Trelyan.Lib.Compact

/-!
# Hashing to a point

The hash is a stream of 16-bit samples.  Those below `5 q` are taken modulo `q`, the others
are rejected.  `hash_to_point_vartime` takes samples until it has `n` of them.
`hash_to_point_ct` takes a fixed number, marks the rejected ones, and squeezes them out
without a branch on a sample; it has its samples reduced and its swaps done by masks.

The two agree exactly if the fixed number of samples has `n` good ones
(`hashToPointCt_eq_iff`).
-/

namespace Trelyan.Falcon.HashToPoint

/-! ## The functions -/

/-- `w = (buf[0] << 8) | buf[1]`, for the next two bytes of the stream. -/
def sample (s : Nat → UInt8) (i : Nat) : UInt32 :=
  ((s (2 * i)).toUInt32 <<< 8) ||| (s (2 * i + 1)).toUInt32

/-- `while (w >= 12289) w -= 12289`, at most `fuel` times. -/
def subtractQ : Nat → UInt32 → UInt32
  | 0, w => w
  | fuel + 1, w => if w ≥ 12289 then subtractQ fuel (w - 12289) else w

/-- The loop of `Zf(hash_to_point_vartime)`, from sample `i` on, for at most `fuel` samples. -/
def vartimeLoop (s : Nat → UInt8) : Nat → Nat → Nat → Option (List UInt16)
  | _, _, 0 => some []
  | 0, _, _ + 1 => none
  | fuel + 1, i, n + 1 =>
    let w := sample s i
    if w < 61445 then
      (vartimeLoop s fuel (i + 1) n).map fun x => (subtractQ 4 w).toUInt16 :: x
    else vartimeLoop s fuel (i + 1) (n + 1)

/-- `Zf(hash_to_point_vartime)`. -/
def hashToPointVartime (fuel : Nat) (logn : Nat) (s : Nat → UInt8) : Option (List UInt16) :=
  vartimeLoop s fuel 0 (2 ^ logn)

/-- `overtab`. -/
def overtab : List Nat := [0, 65, 67, 71, 77, 86, 100, 122, 154, 205, 287]

/-- `wr - (d & (((wr - d) >> 31) - 1))`. -/
def condSub (d wr : UInt32) : UInt32 := wr - (d &&& (((wr - d) >>> 31) - 1))

/-- A sample modulo `q`, or 0xFFFF. -/
def mark (w : UInt32) : UInt16 :=
  let wr := condSub 24578 w
  let wr := condSub 24578 wr
  let wr := condSub 12289 wr
  let wr := wr ||| (((w - 61445) >>> 31) - 1)
  wr.toUInt16

/-- The body of the inner loop: the array, and `v`. -/
def squeezeStep (p : Nat) (t : List UInt16 × UInt32) (u : Nat) : List UInt16 × UInt32 :=
  let sv := (t.1.getD u 0).toUInt32
  let j := UInt32.ofNat u - t.2
  let mk := (sv >>> 15) - 1
  let v := t.2 - mk
  if u < p then (t.1, v)
  else
    let dv := (t.1.getD (u - p) 0).toUInt32
    let mk := mk &&& -(((j &&& UInt32.ofNat p) + 0x1FF) >>> 9)
    let s := (sv ^^^ (mk &&& (sv ^^^ dv))).toUInt16
    let d := (dv ^^^ (mk &&& (sv ^^^ dv))).toUInt16
    ((t.1.set u s).set (u - p) d, v)

/-- `for (p = 1; p <= over; p <<= 1)`, at most `fuel` times. -/
def squeezeLoop (excess : Nat) : Nat → Nat → List UInt16 → List UInt16
  | 0, _, tt => tt
  | fuel + 1, p, tt =>
    if p ≤ excess then
      squeezeLoop excess fuel (2 * p) ((List.range tt.length).foldl (squeezeStep p) (tt, 0)).1
    else tt

/-- `Zf(hash_to_point_ct)`; the array is `x`, `tt1` and `tt2` one after the other. -/
def hashToPointCt (logn : Nat) (s : Nat → UInt8) : List UInt16 :=
  let n := 2 ^ logn
  let excess := overtab.getD logn 0
  let tt := (List.range (n + excess)).map fun u => mark (sample s u)
  (squeezeLoop excess excess 1 tt).take n

/-! ## Samples -/

/-- The sample is not rejected. -/
def accepted (w : UInt32) : Bool := w.toNat < 61445

/-- A sample modulo `q`. -/
def reduced (w : UInt32) : UInt16 := UInt16.ofNat (w.toNat % 12289)

/-- `k` samples from sample `i` on. -/
def samples (s : Nat → UInt8) (i k : Nat) : List UInt32 := (List.range' i k).map (sample s)

theorem sample_lt (s : Nat → UInt8) (i : Nat) : (sample s i).toNat < 65536 := by
  have hhigh := (s (2 * i)).toNat_lt
  have hlow := (s (2 * i + 1)).toNat_lt
  have hor : (sample s i).toNat =
      ((s (2 * i)).toUInt32 <<< 8).toNat ||| (s (2 * i + 1)).toUInt32.toNat := UInt32.toNat_or ..
  have hshift : ((s (2 * i)).toUInt32 <<< 8).toNat < 2 ^ 16 := by
    rw [UInt32.toNat_shiftLeft, UInt8.toNat_toUInt32, Nat.shiftLeft_eq]
    show (s (2 * i)).toNat * 2 ^ 8 % 2 ^ 32 < 2 ^ 16
    omega
  rw [hor]
  exact Nat.or_lt_two_pow hshift (by rw [UInt8.toNat_toUInt32]; omega)

theorem subtractQ_toNat {fuel : Nat} {w : UInt32} (h : w.toNat < 12289 * (fuel + 1)) :
    (subtractQ fuel w).toNat = w.toNat % 12289 := by
  induction fuel generalizing w with
  | zero =>
    show w.toNat = _
    exact (Nat.mod_eq_of_lt (by omega)).symm
  | succ fuel ih =>
    unfold subtractQ
    by_cases hge : 12289 ≤ w
    · have hle : 12289 ≤ w.toNat := UInt32.le_iff_toNat_le.mp hge
      have hlt := w.toNat_lt
      have hsub : (w - 12289).toNat = w.toNat - 12289 :=
        UInt32.toNat_sub_of_le _ _ hge
      rw [if_pos hge, ih (by omega), hsub]
      omega
    · have hlt : ¬ 12289 ≤ w.toNat := fun hle => hge (UInt32.le_iff_toNat_le.mpr hle)
      rw [if_neg hge, Nat.mod_eq_of_lt (by omega)]

theorem subtractQ_eq {w : UInt32} (h : accepted w = true) :
    (subtractQ 4 w).toUInt16 = reduced w := by
  have hlt : w.toNat < 61445 := of_decide_eq_true h
  rw [← UInt16.toNat_inj, UInt32.toNat_toUInt16, subtractQ_toNat (by omega)]
  rfl

theorem condSub_toNat {d wr : UInt32} (hd : d.toNat < 2 ^ 31) (hwr : wr.toNat < 2 ^ 31) :
    (condSub d wr).toNat = if wr.toNat < d.toNat then wr.toNat else wr.toNat - d.toNat := by
  have hsub : (wr - d).toNat = (2 ^ 32 - d.toNat + wr.toNat) % 2 ^ 32 := UInt32.toNat_sub ..
  unfold condSub
  rw [Bits.shift_31]
  by_cases hlt : wr.toNat < d.toNat
  · rw [if_pos (show 2 ^ 31 ≤ _ by omega), if_pos hlt, UInt32.sub_self, UInt32.and_zero,
      UInt32.sub_zero]
  · rw [if_neg (show ¬ 2 ^ 31 ≤ _ by omega), if_neg hlt, UInt32.zero_sub, UInt32.and_neg_one]
    exact UInt32.toNat_sub_of_le _ _ (UInt32.le_iff_toNat_le.mpr (by omega))

theorem mark_toNat {w : UInt32} (hw : w.toNat < 65536) :
    (mark w).toNat = if w.toNat < 61445 then w.toNat % 12289 else 65535 := by
  have h1 := @condSub_toNat 24578 w (by decide) (by omega)
  have h2 := @condSub_toNat 24578 (condSub 24578 w) (by decide)
    (by split_ifs at h1 <;> omega)
  have h3 := @condSub_toNat 12289 (condSub 24578 (condSub 24578 w)) (by decide)
    (by split_ifs at h1 h2 <;> omega)
  have hsub : (w - 61445).toNat = (2 ^ 32 - 61445 + w.toNat) % 2 ^ 32 := UInt32.toNat_sub ..
  rw [show (24578 : UInt32).toNat = 24578 from rfl] at h1 h2
  rw [show (12289 : UInt32).toNat = 12289 from rfl] at h3
  unfold mark
  dsimp only
  rw [UInt32.toNat_toUInt16, UInt32.toNat_or, Bits.shift_31]
  by_cases hlt : w.toNat < 61445
  · rw [if_pos (show 2 ^ 31 ≤ _ by omega), if_pos hlt, show ((1 : UInt32) - 1).toNat = 0 from rfl,
      Nat.or_zero]
    split_ifs at h1 h2 h3 <;> omega
  · rw [if_neg (show ¬ 2 ^ 31 ≤ _ by omega), if_neg hlt,
      show ((0 : UInt32) - 1).toNat = 2 ^ 32 - 1 from rfl]
    have hor : (condSub 12289 (condSub 24578 (condSub 24578 w))).toNat ||| (2 ^ 32 - 1) =
        2 ^ 32 - 1 := by
      apply le_antisymm
      · exact Nat.le_sub_one_of_lt (Nat.or_lt_two_pow (UInt32.toNat_lt _) (by decide))
      · exact Nat.right_le_or
    rw [hor]
    rfl

/-! ## The plain loop -/

theorem samples_succ (s : Nat → UInt8) (i k : Nat) :
    samples s i (k + 1) = sample s i :: samples s (i + 1) k := by
  rw [samples, List.range'_succ, List.map_cons]
  rfl

/-- The plain loop returns the first `n` good samples, if it sees so many. -/
theorem vartimeLoop_eq (s : Nat → UInt8) (fuel i n : Nat) :
    vartimeLoop s fuel i n =
      if n ≤ ((samples s i fuel).filter accepted).length then
        some ((((samples s i fuel).filter accepted).take n).map reduced)
      else none := by
  induction fuel generalizing i n with
  | zero =>
    cases n with
    | zero => rfl
    | succ n => rfl
  | succ fuel ih =>
    cases n with
    | zero => simp [vartimeLoop]
    | succ n =>
      have hlt : (sample s i < 61445) ↔ accepted (sample s i) = true := by
        rw [accepted, decide_eq_true_iff, UInt32.lt_iff_toNat_lt]
        rfl
      unfold vartimeLoop
      dsimp only
      rw [samples_succ]
      by_cases hok : accepted (sample s i) = true
      · rw [if_pos (hlt.mpr hok), ih, List.filter_cons, if_pos hok, subtractQ_eq hok,
          List.length_cons, List.take_succ_cons, List.map_cons]
        by_cases hle : n ≤ ((samples s (i + 1) fuel).filter accepted).length
        · rw [if_pos hle, if_pos (by omega), Option.map_some]
        · rw [if_neg hle, if_neg (by omega), Option.map_none]
      · rw [if_neg (mt hlt.mp hok), ih, List.filter_cons, if_neg hok]

/-! ## The passes -/

/-- The entry is not 0xFFFF: its high bit is not set. -/
def valid (w : UInt16) : Bool := w.toNat < 2 ^ 15

theorem mark_valid {w : UInt32} (hw : w.toNat < 65536) : valid (mark w) = accepted w := by
  have h := mark_toNat hw
  unfold valid accepted
  rw [decide_eq_decide]
  split_ifs at h <;> omega

theorem mark_eq {w : UInt32} (hw : w.toNat < 65536) (h : accepted w = true) :
    mark w = reduced w := by
  have hlt : w.toNat < 61445 := of_decide_eq_true h
  rw [← UInt16.toNat_inj, mark_toNat hw, if_pos hlt]
  exact (Nat.mod_eq_of_lt (by omega)).symm

/-- The good samples are the valid entries. -/
theorem filter_mark (s : Nat → UInt8) (i k : Nat) :
    ((samples s i k).map mark).filter valid = ((samples s i k).filter accepted).map reduced := by
  induction k generalizing i with
  | zero => rfl
  | succ k ih =>
    have hlt := sample_lt s i
    rw [samples_succ, List.map_cons, List.filter_cons, List.filter_cons, mark_valid hlt, ih]
    split_ifs with h
    · rw [List.map_cons, mark_eq hlt h]
    · rfl

/-- The mask is all ones for a valid entry. -/
theorem valid_mask (w : UInt16) :
    (w.toUInt32 >>> 15) - 1 = if valid w then -1 else 0 := by
  have hlt := w.toNat_lt
  have hshift : (w.toUInt32 >>> 15).toNat = w.toNat / 2 ^ 15 := by
    rw [UInt32.toNat_shiftRight, UInt16.toNat_toUInt32]
    exact Nat.shiftRight_eq_div_pow _ 15
  unfold valid
  by_cases hw : w.toNat < 2 ^ 15
  · have hzero : w.toUInt32 >>> 15 = 0 := by
      rw [← UInt32.toNat_inj, hshift]
      exact Nat.div_eq_of_lt hw
    rw [hzero, decide_eq_true hw]
    rfl
  · have hone : w.toUInt32 >>> 15 = 1 := by
      rw [← UInt32.toNat_inj, hshift]
      show _ = 1
      omega
    rw [hone, decide_eq_false hw]
    rfl

/-- The mask is all ones if the distance has the bit of the pass. -/
theorem jump_mask {j : UInt32} {k : Nat} (hk : k ≤ 9) :
    -(((j &&& UInt32.ofNat (2 ^ k)) + 0x1FF) >>> 9) =
      if j.toNat &&& 2 ^ k ≠ 0 then -1 else 0 := by
  have hpow : 2 ^ k ≤ 2 ^ 9 := Nat.pow_le_pow_right (by omega) hk
  have hpos := Nat.two_pow_pos k
  have hand : (j &&& UInt32.ofNat (2 ^ k)).toNat = j.toNat &&& 2 ^ k := by
    rw [UInt32.toNat_and, UInt32.toNat_ofNat', Nat.mod_eq_of_lt (by omega)]
  have hbit : j.toNat &&& 2 ^ k = 0 ∨ j.toNat &&& 2 ^ k = 2 ^ k := by
    rw [Nat.and_two_pow]
    cases j.toNat.testBit k with
    | true => exact Or.inr (Nat.one_mul _)
    | false => exact Or.inl (Nat.zero_mul _)
  have hsum : ((j &&& UInt32.ofNat (2 ^ k)) + 0x1FF).toNat = (j.toNat &&& 2 ^ k) + 511 := by
    rw [UInt32.toNat_add, hand, show (0x1FF : UInt32).toNat = 511 from rfl,
      Nat.mod_eq_of_lt (by omega)]
  have hshift : (((j &&& UInt32.ofNat (2 ^ k)) + 0x1FF) >>> 9).toNat =
      ((j.toNat &&& 2 ^ k) + 511) / 2 ^ 9 := by
    rw [UInt32.toNat_shiftRight, hsum]
    exact Nat.shiftRight_eq_div_pow _ 9
  rcases hbit with hzero | hset
  · have hval : ((j &&& UInt32.ofNat (2 ^ k)) + 0x1FF) >>> 9 = 0 := by
      rw [← UInt32.toNat_inj, hshift, hzero]
      rfl
    rw [hval, if_neg (not_not.mpr hzero)]
    rfl
  · have hval : ((j &&& UInt32.ofNat (2 ^ k)) + 0x1FF) >>> 9 = 1 := by
      rw [← UInt32.toNat_inj, hshift, hset]
      show _ = 1
      omega
    rw [hval, if_pos (by omega)]

/-- The source's step, by masks, is the step of a pass. -/
theorem squeezeStep_eq {k u : Nat} {tt : List UInt16} {v : UInt32} (hk : k ≤ 9)
    (hu : u < tt.length) (hlen : tt.length < 2 ^ 32) (hv : v.toNat ≤ u) :
    ((squeezeStep (2 ^ k) (tt, v) u).1, (squeezeStep (2 ^ k) (tt, v) u).2.toNat) =
      Compact.moveStep valid (2 ^ k) (tt, v.toNat) u := by
  have hpos := Nat.two_pow_pos k
  have hj : (UInt32.ofNat u - v).toNat = u - v.toNat := by
    have hofNat : (UInt32.ofNat u).toNat = u := by
      rw [UInt32.toNat_ofNat', Nat.mod_eq_of_lt (by omega)]
    rw [UInt32.toNat_sub_of_le _ _ (UInt32.le_iff_toNat_le.mpr (by rwa [hofNat])), hofNat]
  have hstay : ∀ i, i < tt.length → tt.set i (tt.getD i 0) = tt := by
    intro i hi
    rw [List.getD_eq_getElem _ _ hi, List.set_getElem_self]
  unfold squeezeStep Compact.moveStep
  dsimp only
  rw [valid_mask, jump_mask hk, hj, List.getElem?_eq_getElem hu, List.getD_eq_getElem _ _ hu]
  dsimp only
  cases hx : valid tt[u] with
  | false =>
    simp only [if_neg Bool.false_ne_true, UInt32.zero_and, UInt32.xor_zero, UInt32.sub_zero,
      UInt16.toUInt16_toUInt32]
    by_cases hlt : u < 2 ^ k
    · rw [if_pos hlt]
    · rw [if_neg hlt, List.set_getElem_self, hstay _ (by omega)]
  | true =>
    have hcount : (v - -1).toNat = v.toNat + 1 := by
      rw [UInt32.sub_eq_add_neg, UInt32.neg_neg, UInt32.toNat_add]
      exact Nat.mod_eq_of_lt (by rw [show (1 : UInt32).toNat = 1 from rfl]; omega)
    have hswap : ∀ x y : UInt16, (x.toUInt32 ^^^ (x.toUInt32 ^^^ y.toUInt32)).toUInt16 = y ∧
        (y.toUInt32 ^^^ (x.toUInt32 ^^^ y.toUInt32)).toUInt16 = x := by
      intro x y
      constructor
      · rw [← UInt32.xor_assoc, UInt32.xor_self, UInt32.zero_xor, UInt16.toUInt16_toUInt32]
      · rw [UInt32.xor_comm, UInt32.xor_assoc, UInt32.xor_self, UInt32.xor_zero,
          UInt16.toUInt16_toUInt32]
    simp only [if_true, UInt32.neg_one_and]
    by_cases hlt : u < 2 ^ k
    · rw [if_pos hlt, if_neg (by omega), hcount]
    · have hbelow : u - 2 ^ k < tt.length := by omega
      rw [if_neg hlt]
      by_cases hmove : (u - v.toNat) &&& 2 ^ k ≠ 0
      · rw [if_pos hmove, if_pos ⟨by omega, hmove⟩, UInt32.neg_one_and, (hswap _ _).1,
          (hswap _ _).2, Compact.swap, List.getElem?_eq_getElem hbelow, List.getElem?_eq_getElem hu,
          List.getD_eq_getElem _ _ hbelow, List.set_comm _ _ (by omega), hcount]
      · rw [if_neg hmove, if_neg fun h => hmove h.2, UInt32.zero_and, UInt32.xor_zero,
          UInt32.xor_zero, UInt16.toUInt16_toUInt32, UInt16.toUInt16_toUInt32,
          List.set_getElem_self, hstay _ hbelow, hcount]

/-- The source's pass is the pass. -/
theorem squeeze_eq_pass {k : Nat} {tt : List UInt16} (hk : k ≤ 9) (hlen : tt.length < 2 ^ 32) :
    ((List.range tt.length).foldl (squeezeStep (2 ^ k)) (tt, 0)).1 =
      Compact.pass valid (2 ^ k) tt := by
  have hloop : ∀ m ≤ tt.length,
      ((((List.range m).foldl (squeezeStep (2 ^ k)) (tt, 0)).1,
        ((List.range m).foldl (squeezeStep (2 ^ k)) (tt, 0)).2.toNat) =
        (List.range m).foldl (Compact.moveStep valid (2 ^ k)) (tt, 0)) ∧
      ((List.range m).foldl (squeezeStep (2 ^ k)) (tt, 0)).1.length = tt.length ∧
      ((List.range m).foldl (squeezeStep (2 ^ k)) (tt, 0)).2.toNat ≤ m := by
    intro m
    induction m with
    | zero => exact fun _ => ⟨rfl, rfl, le_refl _⟩
    | succ m ih =>
      intro hm
      obtain ⟨heq, hlength, hle⟩ := ih (by omega)
      rw [List.range_succ, List.foldl_append, List.foldl_append, ← heq]
      generalize (List.range m).foldl (squeezeStep (2 ^ k)) (tt, 0) = t at hlength hle
      have hstep := squeezeStep_eq (v := t.2) hk (show m < t.1.length by omega) (by omega) hle
      obtain ⟨hkeep, hgrow⟩ := Compact.length_moveStep valid (2 ^ k)
        (t.1, t.2.toNat) m
      rw [← hstep] at hkeep hgrow
      refine ⟨hstep, hkeep.trans hlength, ?_⟩
      exact le_trans hgrow (by simpa using hle)
  exact congrArg Prod.fst (hloop tt.length (le_refl _)).1

theorem squeezeLoop_eq {excess fuel k : Nat} {tt : List UInt16} (hover : excess < 2 ^ 10)
    (hal : Compact.Aligned valid (2 ^ k) 0 tt) (hlen : tt.length < 2 ^ 32) :
    squeezeLoop excess fuel (2 ^ k) tt = Compact.passes valid excess fuel (2 ^ k) tt := by
  induction fuel generalizing k tt with
  | zero => rfl
  | succ fuel ih =>
    unfold squeezeLoop Compact.passes
    by_cases hle : 2 ^ k ≤ excess
    · have hk : k ≤ 9 := by
        by_contra hgt
        have hpow : 2 ^ 10 ≤ 2 ^ k := Nat.pow_le_pow_right (by omega) (by omega)
        omega
      have hdouble : 2 * 2 ^ k = 2 ^ (k + 1) := (Nat.pow_succ').symm
      obtain ⟨hnext, _, hlength⟩ := Compact.pass_spec hal
      rw [hdouble] at hnext
      rw [if_pos hle, if_pos hle, squeeze_eq_pass hk hlen, hdouble, ih hnext (by rwa [hlength])]
    · rw [if_neg hle, if_neg hle]

/-! ## The two functions agree -/

/-- How many samples the constant-time function takes. -/
def taken (logn : Nat) : Nat := 2 ^ logn + overtab.getD logn 0

theorem overtab_lt (logn : Nat) : overtab.getD logn 0 < 2 ^ 10 := by
  have hall : ∀ excess ∈ overtab, excess < 2 ^ 10 := by decide
  rw [List.getD_eq_getElem?_getD]
  cases h : overtab[logn]? with
  | none => exact Nat.two_pow_pos 10
  | some excess => exact hall excess (List.mem_of_getElem? h)

/-- The result after the passes: the good samples in order, then what was rejected. -/
theorem hashToPointCt_spec {logn : Nat} (hlogn : logn ≤ 10) (s : Nat → UInt8) :
    ∃ tt : List UInt16, hashToPointCt logn s = tt.take (2 ^ logn) ∧ tt.length = taken logn ∧
      tt.filter valid = ((samples s 0 (taken logn)).filter accepted).map reduced ∧
      (2 ^ logn ≤ ((samples s 0 (taken logn)).filter accepted).length →
        tt.take (2 ^ logn) =
          (((samples s 0 (taken logn)).filter accepted).take (2 ^ logn)).map reduced) := by
  have hpow : 2 ^ logn ≤ 2 ^ 10 := Nat.pow_le_pow_right (by omega) hlogn
  have hover := overtab_lt logn
  have htaken : taken logn = 2 ^ logn + overtab.getD logn 0 := rfl
  have hmarks : (List.range (taken logn)).map (fun u => mark (sample s u)) =
      (samples s 0 (taken logn)).map mark := by
    rw [samples, List.range_eq_range', List.map_map]
    rfl
  have hlen : ((samples s 0 (taken logn)).map mark).length = taken logn := by
    rw [List.length_map, samples, List.length_map, List.length_range']
  have hstart : Compact.Aligned valid (2 ^ 0) 0 ((samples s 0 (taken logn)).map mark) :=
    Compact.aligned_one 0 _
  have hfilter := filter_mark s 0 (taken logn)
  have hcount := Compact.length_filter_add_gaps valid
    ((samples s 0 (taken logn)).map mark)
  have hct : hashToPointCt logn s = (squeezeLoop (overtab.getD logn 0) (overtab.getD logn 0) (2 ^ 0)
      ((samples s 0 (taken logn)).map mark)).take (2 ^ logn) := by
    rw [← hmarks]
    rfl
  rw [squeezeLoop_eq hover hstart (by omega)] at hct
  obtain ⟨hkeep, hlength, hsorted⟩ := @Compact.passes_spec _ _ (overtab.getD logn 0)
    (overtab.getD logn 0) _ _ hstart (by omega)
  rw [hfilter] at hkeep hsorted hcount
  refine ⟨_, hct, hlength.trans hlen, hkeep, ?_⟩
  intro henough
  rw [List.length_map] at hcount
  obtain ⟨t, ht, _⟩ := hsorted (by omega)
  rw [ht, List.take_append_of_le_length (by rwa [List.length_map]), List.map_take]

/-- The constant-time function returns what the plain one does, exactly if the fixed number of
samples is enough. -/
theorem hashToPointCt_eq_iff {logn : Nat} (hlogn : logn ≤ 10) (s : Nat → UInt8) :
    (∃ fuel, hashToPointVartime fuel logn s = some (hashToPointCt logn s)) ↔
      2 ^ logn ≤ ((samples s 0 (taken logn)).filter accepted).length := by
  obtain ⟨tt, hct, hlen, hfilter, henough⟩ := hashToPointCt_spec hlogn s
  unfold hashToPointVartime
  constructor
  · intro ⟨fuel, heq⟩
    rw [vartimeLoop_eq] at heq
    split_ifs at heq with hfuel
    rw [Option.some.injEq, hct] at heq
    -- every entry of the plain result is valid, so `n` entries of `tt` are
    have hvalid : ∀ w ∈ tt.take (2 ^ logn), valid w = true := by
      intro w hw
      rw [← heq] at hw
      obtain ⟨x, hx, hxw⟩ := List.mem_map.mp hw
      have hval : (reduced x).toNat = x.toNat % 12289 % 2 ^ 16 := UInt16.toNat_ofNat'
      rw [← hxw]
      exact decide_eq_true (by omega)
    have hsub := ((List.take_sublist (2 ^ logn) tt).filter valid).length_le
    rw [List.filter_eq_self.mpr hvalid, List.length_take, hlen, hfilter, List.length_map] at hsub
    unfold taken at hsub ⊢
    omega
  · intro hle
    refine ⟨taken logn, ?_⟩
    rw [vartimeLoop_eq, if_pos hle, hct, henough hle]

end Trelyan.Falcon.HashToPoint
