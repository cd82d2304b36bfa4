import Trelyan.Falcon.Modq

/-!
# The transforms of `vrfy.c`

`mq_NTT` and `mq_iNTT` run the loops of `Trelyan.Lib.Ntt` on arrays of 16-bit words, with
the two tables.  An array stands for a polynomial modulo `X^n + 1` over the integers modulo
`q` (`IsPoly`), and the tables hold iterated square roots of `-1` (`gm_roots`).

So the exported operations are those of the ring: multiplying two arrays entry by entry
between the transforms multiplies the polynomials (`mqINTT_montymul`).
-/

namespace Trelyan.Falcon.Vrfy

/-! ## The functions -/

/-- The body of the inner loop of `mq_NTT`. -/
def nttStep (s u v : UInt16) : UInt16 × UInt16 :=
  let v := mqMontymul v.toUInt32 s.toUInt32
  ((mqAdd u.toUInt32 v).toUInt16, (mqSub u.toUInt32 v).toUInt16)

/-- The body of the inner loop of `mq_iNTT`. -/
def inttStep (s u v : UInt16) : UInt16 × UInt16 :=
  let w := mqSub u.toUInt32 v.toUInt32
  ((mqAdd u.toUInt32 v.toUInt32).toUInt16, (mqMontymul w s.toUInt32).toUInt16)

/-- `mq_NTT`. -/
def mqNTT (logn : Nat) (a : List UInt16) : List UInt16 :=
  Ntt.forward nttStep (fun k => gmb.getD k 0) logn logn a

/-- `ni`: the word `R`, halved `logn` times. -/
def mqNi (logn : Nat) : UInt32 := (List.range logn).foldl (fun ni _ => mqRshift1 ni) 4091

/-- `mq_iNTT`. -/
def mqINTT (logn : Nat) (a : List UInt16) : List UInt16 :=
  (Ntt.backward inttStep (fun k => igmb.getD k 0) logn logn a).map fun w =>
    (mqMontymul w.toUInt32 (mqNi logn)).toUInt16

/-- `mq_poly_tomonty`. -/
def mqPolyTomonty (f : List UInt16) : List UInt16 :=
  f.map fun w => (mqMontymul w.toUInt32 10952).toUInt16

/-- `mq_poly_montymul_ntt`. -/
def mqPolyMontymulNtt (f g : List UInt16) : List UInt16 :=
  List.zipWith (fun v w => (mqMontymul v.toUInt32 w.toUInt32).toUInt16) f g

/-- `mq_poly_sub`. -/
def mqPolySub (f g : List UInt16) : List UInt16 :=
  List.zipWith (fun v w => (mqSub v.toUInt32 w.toUInt32).toUInt16) f g

/-- `Zf(to_ntt_monty)`. -/
def toNttMonty (logn : Nat) (h : List UInt16) : List UInt16 := mqPolyTomonty (mqNTT logn h)

/-! ## Arrays and polynomials -/

/-- The residue of an entry. -/
def zq16 (w : UInt16) : Zq := w.toNat

/-- The entry is below `q`. -/
def Reduced (w : UInt16) : Prop := w.toNat < 12289

/-- The array holds the `n` coefficients `f`, reduced. -/
abbrev IsPoly (n : Nat) (a : List UInt16) (f : Nat → Zq) : Prop :=
  Ntt.Represents zq16 Reduced n a f

/-- The residue of each entry. -/
def coeff (a : List UInt16) (k : Nat) : Zq := zq16 (a.getD k 0)

theorem isPoly_coeff {n : Nat} {a : List UInt16} (hlen : a.length = n)
    (ha : ∀ w ∈ a, Reduced w) : IsPoly n a (coeff a) :=
  Ntt.Represents.self hlen ha

/-- What is written back into an array. -/
theorem zq16_of_zq {w : UInt32} {x : Zq} (h : w.toNat < 12289 ∧ zq w = x) :
    Reduced w.toUInt16 ∧ zq16 w.toUInt16 = x := by
  have hval : w.toUInt16.toNat = w.toNat := by
    rw [UInt32.toNat_toUInt16]
    exact Nat.mod_eq_of_lt (by omega)
  unfold Reduced zq16
  rw [hval]
  exact h

theorem reduced_toUInt32 {w : UInt16} (h : Reduced w) : w.toUInt32.toNat < 12289 := by
  rw [UInt16.toNat_toUInt32]
  exact h

theorem zq_toUInt32 (w : UInt16) : zq w.toUInt32 = zq16 w := by
  unfold zq zq16
  rw [UInt16.toNat_toUInt32]

theorem montymul_spec {v w : UInt16} (hv : Reduced v) (hw : Reduced w) :
    Reduced (mqMontymul v.toUInt32 w.toUInt32).toUInt16 ∧
      zq16 (mqMontymul v.toUInt32 w.toUInt32).toUInt16 = zq16 v * zq16 w / montR := by
  have h := zq16_of_zq (mqMontymul_spec (reduced_toUInt32 hv) (reduced_toUInt32 hw))
  rwa [zq_toUInt32, zq_toUInt32] at h

theorem sub_spec {v w : UInt16} (hv : Reduced v) (hw : Reduced w) :
    Reduced (mqSub v.toUInt32 w.toUInt32).toUInt16 ∧
      zq16 (mqSub v.toUInt32 w.toUInt32).toUInt16 = zq16 v - zq16 w := by
  have h := zq16_of_zq (mqSub_spec (reduced_toUInt32 hv) (reduced_toUInt32 hw))
  rwa [zq_toUInt32, zq_toUInt32] at h

/-! ## The tables -/

/-- The root that an entry of `GMb` holds in Montgomery form. -/
def gm (k : Nat) : Zq := zq16 (gmb.getD k 0) / montR

/-- The root that an entry of `iGMb` holds. -/
def igm (k : Nat) : Zq := zq16 (igmb.getD k 0) / montR

/-- For each entry of `GMb` from the third on, `R` times the square that it must have. -/
def gmbSquares : List Nat := gmb.tail.flatMap fun w => [w.toNat, 12289 - w.toNat]

theorem gmb_reduced : ∀ w ∈ gmb, w.toNat < 12289 := by
  have h : gmb.all (fun w => w.toNat < 12289) = true := by decide +kernel
  simpa using h

theorem igmb_reduced : ∀ w ∈ igmb, w.toNat < 12289 := by
  have h : igmb.all (fun w => w.toNat < 12289) = true := by decide +kernel
  simpa using h

theorem gmb_squares : ∀ p ∈ (gmb.drop 2).zip gmbSquares,
    p.1.toNat * p.1.toNat % 12289 = 4091 * p.2 % 12289 := by
  have h : ((gmb.drop 2).zip gmbSquares).all (fun p =>
      p.1.toNat * p.1.toNat % 12289 == 4091 * p.2 % 12289) = true := by decide +kernel
  simpa using h

theorem gmb_inverses : ∀ p ∈ gmb.zip igmb,
    p.1.toNat * p.2.toNat % 12289 = 4091 * 4091 % 12289 := by
  have h : (gmb.zip igmb).all (fun p =>
      p.1.toNat * p.2.toNat % 12289 == 4091 * 4091 % 12289) = true := by decide +kernel
  simpa using h

theorem length_gmb : gmb.length = 1024 := by decide +kernel

theorem length_igmb : igmb.length = 1024 := by decide +kernel

theorem getD_reduced {t : List UInt16} (ht : ∀ w ∈ t, w.toNat < 12289) (k : Nat) :
    Reduced (t.getD k 0) := by
  rw [List.getD_eq_getElem?_getD]
  cases h : t[k]? with
  | none => exact Nat.zero_lt_succ _
  | some w => exact ht w (List.mem_of_getElem? h)

/-- Two entries for each one. -/
theorem getElem?_flatMap_pair {α β : Type} (f g : α → β) (l : List α) (k : Nat) :
    (l.flatMap fun w => [f w, g w])[2 * k]? = l[k]?.map f ∧
      (l.flatMap fun w => [f w, g w])[2 * k + 1]? = l[k]?.map g := by
  induction l generalizing k with
  | nil => simp
  | cons w l ih =>
    cases k with
    | zero => simp
    | succ k => simpa [Nat.mul_succ] using ih k

/-- The square of an entry is the entry above it, or its opposite. -/
theorem gmb_square {k : Nat} (hk : 2 ≤ k) (hlt : k < 1024) :
    (gmb.getD k 0).toNat * (gmb.getD k 0).toNat % 12289 =
      4091 * (if k % 2 = 0 then (gmb.getD (k / 2) 0).toNat
        else 12289 - (gmb.getD (k / 2) 0).toNat) % 12289 := by
  have hlen := length_gmb
  have hentry : (gmb.drop 2)[k - 2]? = some (gmb.getD k 0) := by
    rw [List.getElem?_drop, show 2 + (k - 2) = k by omega, List.getD_eq_getElem?_getD,
      List.getElem?_eq_getElem (by omega)]
    rfl
  have habove : gmb.tail[k / 2 - 1]? = some (gmb.getD (k / 2) 0) := by
    rw [List.getElem?_tail, show k / 2 - 1 + 1 = k / 2 by omega, List.getD_eq_getElem?_getD,
      List.getElem?_eq_getElem (by omega)]
    rfl
  have hsquare : gmbSquares[k - 2]? = some (if k % 2 = 0 then (gmb.getD (k / 2) 0).toNat
      else 12289 - (gmb.getD (k / 2) 0).toNat) := by
    obtain ⟨heven, hodd⟩ := getElem?_flatMap_pair (fun w : UInt16 => w.toNat)
      (fun w => 12289 - w.toNat) gmb.tail (k / 2 - 1)
    rw [habove, Option.map_some] at heven hodd
    unfold gmbSquares
    split_ifs with h
    · rw [← heven]
      exact congrArg (fun i => _[i]?) (by omega)
    · rw [← hodd]
      exact congrArg (fun i => _[i]?) (by omega)
  refine gmb_squares (gmb.getD k 0, _) (List.mem_of_getElem? (i := k - 2) ?_)
  rw [List.getElem?_zip_eq_some]
  exact ⟨hentry, hsquare⟩

/-- `GMb` holds iterated square roots of `-1`. -/
theorem gm_roots : Ntt.Roots gm 1024 := by
  intro k hk hlt
  unfold gm
  rw [div_pow, div_eq_iff (pow_ne_zero 2 montR_ne_zero)]
  by_cases hone : k = 1
  · rw [hone]
    decide +kernel
  · have hsq := cast_eq_of_mod (gmb_square (by omega) hlt)
    have hbound := getD_reduced gmb_reduced (k / 2)
    have hR : ((4091 : Nat) : Zq) = montR := by decide
    rw [Nat.cast_mul, Nat.cast_mul, hR] at hsq
    rw [Ntt.root, if_neg (by omega)]
    split_ifs at hsq ⊢ with heven
    · unfold zq16
      rw [sq, hsq, sq, div_mul_eq_mul_div, ← mul_assoc, mul_div_cancel_right₀ _ montR_ne_zero,
        mul_comm]
    · have hsub : ((12289 - (gmb.getD (k / 2) 0).toNat : Nat) : Zq) =
          -((gmb.getD (k / 2) 0).toNat : Zq) := by
        rw [Nat.cast_sub (Nat.le_of_lt hbound),
          show ((12289 : Nat) : Zq) = 0 from ZMod.natCast_self 12289, zero_sub]
      unfold zq16
      rw [sq, hsq, hsub, sq, ← mul_assoc, neg_mul, div_mul_cancel₀ _ montR_ne_zero, mul_comm]

/-- `iGMb` holds the inverses. -/
theorem gm_inverse : Ntt.Inverse gm igm 1024 := by
  intro k _ hlt
  have hpair : (gmb.zip igmb)[k]? = some (gmb.getD k 0, igmb.getD k 0) := by
    rw [List.getElem?_zip_eq_some, List.getD_eq_getElem?_getD, List.getD_eq_getElem?_getD,
      List.getElem?_eq_getElem (by rw [length_gmb]; exact hlt),
      List.getElem?_eq_getElem (by rw [length_igmb]; exact hlt)]
    exact ⟨rfl, rfl⟩
  have hmul := cast_eq_of_mod (gmb_inverses _ (List.mem_of_getElem? hpair))
  have hR : ((4091 : Nat) : Zq) = montR := by decide
  rw [Nat.cast_mul, Nat.cast_mul, hR] at hmul
  unfold gm igm zq16
  rw [div_mul_div_comm, hmul, div_self (mul_ne_zero montR_ne_zero montR_ne_zero)]

theorem gm_roots_pow {logn : Nat} (hlogn : logn ≤ 10) : Ntt.Roots gm (2 ^ logn) := by
  intro k hk hlt
  have hle : 2 ^ logn ≤ 2 ^ 10 := Nat.pow_le_pow_right (by omega) hlogn
  exact gm_roots k hk (by omega)

theorem gm_inverse_pow {logn : Nat} (hlogn : logn ≤ 10) : Ntt.Inverse gm igm (2 ^ logn) := by
  intro k hk hlt
  have hle : 2 ^ logn ≤ 2 ^ 10 := Nat.pow_le_pow_right (by omega) hlogn
  exact gm_inverse k hk (by omega)

/-! ## The transforms on arrays -/

theorem nttStep_simulates (n : Nat) :
    Ntt.Simulates zq16 Reduced nttStep Ntt.ct (fun k => gmb.getD k 0) gm n := by
  intro k _ _ u v hu hv
  have hs := getD_reduced gmb_reduced k
  obtain ⟨hmlt, hmul⟩ := mqMontymul_spec (reduced_toUInt32 hv) (reduced_toUInt32 hs)
  have hadd := zq16_of_zq (mqAdd_spec (reduced_toUInt32 hu) hmlt)
  have hsub := zq16_of_zq (mqSub_spec (reduced_toUInt32 hu) hmlt)
  refine ⟨⟨hadd.1, hsub.1⟩, ?_⟩
  have hfactor : zq (mqMontymul v.toUInt32 (gmb.getD k 0).toUInt32) = zq16 v * gm k := by
    rw [hmul, zq_toUInt32, zq_toUInt32, mul_div_assoc]
    rfl
  unfold Ntt.ct
  rw [← hfactor, ← zq_toUInt32 u]
  exact Prod.ext hadd.2 hsub.2

theorem inttStep_simulates (n : Nat) :
    Ntt.Simulates zq16 Reduced inttStep Ntt.gs (fun k => igmb.getD k 0) igm n := by
  intro k _ _ u v hu hv
  have hs := getD_reduced igmb_reduced k
  have hadd := zq16_of_zq (mqAdd_spec (reduced_toUInt32 hu) (reduced_toUInt32 hv))
  obtain ⟨hslt, hsub⟩ := mqSub_spec (reduced_toUInt32 hu) (reduced_toUInt32 hv)
  have hmul := zq16_of_zq (mqMontymul_spec hslt (reduced_toUInt32 hs))
  rw [zq_toUInt32, zq_toUInt32] at hadd hsub
  rw [hsub, zq_toUInt32, mul_div_assoc] at hmul
  exact ⟨⟨hadd.1, hmul.1⟩, Prod.ext hadd.2 hmul.2⟩

/-- The values at the roots of `X^n + 1`. -/
def hat (logn : Nat) (f : Nat → Zq) : Nat → Zq := Ntt.forwardFn Ntt.ct gm logn logn f

/-- The polynomial with these values. -/
def unhat (logn : Nat) (f : Nat → Zq) (p : Nat) : Zq :=
  Ntt.backwardFn Ntt.gs igm logn logn f p / (2 ^ logn : Nat)

variable {logn : Nat} {a b : List UInt16} {f h : Nat → Zq}

theorem unhat_eq (logn : Nat) (f : Nat → Zq) :
    unhat logn f = fun p => Ntt.backwardFn Ntt.gs igm logn logn f p / 2 ^ logn := by
  funext p
  rw [unhat, Nat.cast_pow, Nat.cast_ofNat]

theorem two_pow_ne_zero (logn : Nat) : (2 : Zq) ^ logn ≠ 0 := pow_ne_zero logn (by decide)

theorem mqNTT_spec (ha : IsPoly (2 ^ logn) a f) : IsPoly (2 ^ logn) (mqNTT logn a) (hat logn f) :=
  ha.forward (nttStep_simulates _) (le_refl _)

/-- Halving `R` as often as `n` can be halved. -/
theorem mqNi_spec (logn : Nat) :
    (mqNi logn).toNat < 12289 ∧ zq (mqNi logn) * 2 ^ logn = montR := by
  induction logn with
  | zero => decide
  | succ logn ih =>
    have hstep : mqNi (logn + 1) = mqRshift1 (mqNi logn) := by
      rw [mqNi, List.range_succ, List.foldl_append]
      rfl
    obtain ⟨hlt, hhalf⟩ := mqRshift1_spec ih.1
    rw [hstep]
    refine ⟨hlt, ?_⟩
    rw [pow_succ', ← mul_assoc, hhalf]
    exact ih.2

theorem mqINTT_spec (ha : IsPoly (2 ^ logn) a f) :
    IsPoly (2 ^ logn) (mqINTT logn a) (unhat logn f) := by
  have hback := ha.backward (inttStep_simulates _) (le_refl _)
  obtain ⟨hlt, hni⟩ := mqNi_spec logn
  have hscale : ∀ w, Reduced w → Reduced (mqMontymul w.toUInt32 (mqNi logn)).toUInt16 ∧
      zq16 (mqMontymul w.toUInt32 (mqNi logn)).toUInt16 = zq16 w / 2 ^ logn := by
    intro w hw
    have h := zq16_of_zq (mqMontymul_spec (reduced_toUInt32 hw) hlt)
    rw [zq_toUInt32] at h
    refine ⟨h.1, h.2.trans ?_⟩
    rw [← hni, ← mul_div_mul_right (zq16 w) (2 ^ logn)
      (left_ne_zero_of_mul (hni ▸ montR_ne_zero : zq (mqNi logn) * 2 ^ logn ≠ 0)),
      mul_comm (zq (mqNi logn)) (2 ^ logn)]
  rw [unhat_eq]
  exact hback.map (F := fun x => x / 2 ^ logn) hscale

theorem unhat_hat (hlogn : logn ≤ 10) (f : Nat → Zq) {p : Nat} (hp : p < 2 ^ logn) :
    unhat logn (hat logn f) p = f p := by
  rw [unhat_eq]
  dsimp only
  rw [hat, Ntt.backwardFn_forwardFn (gm_inverse_pow hlogn) (le_refl _) hp,
    mul_div_cancel_left₀ _ (two_pow_ne_zero logn)]

theorem hat_unhat (hlogn : logn ≤ 10) (f : Nat → Zq) {p : Nat} (hp : p < 2 ^ logn) :
    hat logn (unhat logn f) p = f p := by
  have hscale : unhat logn f = fun p =>
      (2 ^ logn)⁻¹ * Ntt.backwardFn Ntt.gs igm logn logn f p := by
    rw [unhat_eq]
    exact funext fun p => div_eq_inv_mul _ _
  rw [hscale, hat, Ntt.forwardFn_smul]
  dsimp only
  rw [Ntt.forwardFn_backwardFn (gm_inverse_pow hlogn) (le_refl _) hp,
    inv_mul_cancel_left₀ (two_pow_ne_zero logn)]

theorem unhat_congr {f h : Nat → Zq} (heq : ∀ p < 2 ^ logn, f p = h p) {p : Nat}
    (hp : p < 2 ^ logn) : unhat logn f p = unhat logn h p := by
  rw [unhat, unhat, Ntt.backwardFn_congr (le_refl _) heq hp]

/-- The product of two polynomials modulo `X^n + 1`. -/
noncomputable def ringMul (logn : Nat) (f h : Nat → Zq) : Nat → Zq :=
  Ntt.mulMod (2 ^ logn) f h

theorem hat_ringMul (hlogn : logn ≤ 10) {p : Nat} (hp : p < 2 ^ logn) :
    hat logn (ringMul logn f h) p = hat logn f p * hat logn h p :=
  Ntt.forwardFn_mulMod (gm_roots_pow hlogn) hp

theorem unhat_mul (hlogn : logn ≤ 10) {p : Nat} (hp : p < 2 ^ logn) :
    unhat logn (fun i => hat logn f i * hat logn h i) p = ringMul logn f h p := by
  rw [← unhat_hat hlogn (ringMul logn f h) hp]
  exact unhat_congr (fun p hp => (hat_ringMul hlogn hp).symm) hp

theorem montymulNtt_spec (ha : IsPoly (2 ^ logn) a f) (hb : IsPoly (2 ^ logn) b h) :
    IsPoly (2 ^ logn) (mqPolyMontymulNtt a b) fun p => f p * h p / montR :=
  ha.zipWith (F := fun x y => x * y / montR) (fun _ _ hv hw => montymul_spec hv hw) hb

theorem polySub_spec (ha : IsPoly (2 ^ logn) a f) (hb : IsPoly (2 ^ logn) b h) :
    IsPoly (2 ^ logn) (mqPolySub a b) fun p => f p - h p :=
  ha.zipWith (F := fun x y => x - y) (fun _ _ hv hw => sub_spec hv hw) hb

theorem polyTomonty_spec (ha : IsPoly (2 ^ logn) a f) :
    IsPoly (2 ^ logn) (mqPolyTomonty a) fun p => f p * montR := by
  refine ha.map (F := fun x => x * montR) fun w hw => ?_
  have h := zq16_of_zq (mqMontymul_spec (reduced_toUInt32 hw)
    (show (10952 : UInt32).toNat < 12289 by decide))
  have hR2 : zq 10952 = montR * montR := by decide
  rw [zq_toUInt32, hR2, ← mul_assoc, mul_div_cancel_right₀ _ montR_ne_zero] at h
  exact h

theorem toNttMonty_spec (ha : IsPoly (2 ^ logn) a f) :
    IsPoly (2 ^ logn) (toNttMonty logn a) fun p => hat logn f p * montR :=
  polyTomonty_spec (mqNTT_spec ha)

/-- The product that the verifier computes: one operand transformed, the other transformed
and in Montgomery form. -/
theorem mqINTT_montymul (hlogn : logn ≤ 10) (ha : IsPoly (2 ^ logn) a f)
    (hb : IsPoly (2 ^ logn) b h) :
    IsPoly (2 ^ logn) (mqINTT logn (mqPolyMontymulNtt (mqNTT logn a) (toNttMonty logn b)))
      (ringMul logn f h) := by
  refine (mqINTT_spec (montymulNtt_spec (mqNTT_spec ha) (toNttMonty_spec hb))).congr ?_
  intro p hp
  rw [← unhat_mul hlogn hp]
  refine unhat_congr (fun p _ => ?_) hp
  rw [← mul_assoc, mul_div_cancel_right₀ _ montR_ne_zero]

end Trelyan.Falcon.Vrfy
