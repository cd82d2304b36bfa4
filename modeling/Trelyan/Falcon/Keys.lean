import Trelyan.Falcon.Vrfy

/-!
# Dividing in the ring

`compute_public`, `complete_private` and `verify_recover` divide one polynomial by another:
they transform both, divide entry by entry, and transform back.  Division by zero is what
may go wrong.  A polynomial has an inverse exactly if no entry of its transform is zero
(`invertible_iff`), so the check of these functions on the entries is the check that the
divisor has an inverse, and the quotient is the one solution of an equation in the ring
(`quotient_iff`).
-/

namespace Trelyan.Falcon.Vrfy

open Finset

/-! ## Inverses -/

variable {logn : Nat} {f g h : Nat → Zq}

/-- The polynomial 1. -/
def one (k : Nat) : Zq := if k = 0 then 1 else 0

/-- `f` has an inverse modulo `q` and `X^n + 1`. -/
def Invertible (logn : Nat) (f : Nat → Zq) : Prop :=
  ∃ u, ∀ k < 2 ^ logn, ringMul logn u f k = one k

theorem hat_congr (heq : ∀ p < 2 ^ logn, f p = h p) {p : Nat} (hp : p < 2 ^ logn) :
    hat logn f p = hat logn h p :=
  Ntt.forwardFn_congr (le_refl _) heq hp

theorem hat_inj (hlogn : logn ≤ 10) (heq : ∀ p < 2 ^ logn, hat logn f p = hat logn h p) {p : Nat}
    (hp : p < 2 ^ logn) : f p = h p := by
  rw [← unhat_hat hlogn f hp, ← unhat_hat hlogn h hp]
  exact unhat_congr heq hp

theorem hat_one (hlogn : logn ≤ 10) {p : Nat} (hp : p < 2 ^ logn) : hat logn one p = 1 := by
  rw [hat, Ntt.forwardFn_eq (gm_roots_pow hlogn) hp, Ntt.eval_poly,
    sum_eq_single_of_mem 0 (mem_range.mpr (Nat.two_pow_pos logn))]
  · simp [one]
  · intro k _ hk
    rw [one, if_neg hk, zero_mul]

/-- The polynomial whose values are the quotients. -/
def quotient (logn : Nat) (g f : Nat → Zq) : Nat → Zq :=
  unhat logn fun p => hat logn g p / hat logn f p

/-- The quotient is the one solution `h` of `h f = g`. -/
theorem quotient_iff (hlogn : logn ≤ 10) (hf : ∀ p < 2 ^ logn, hat logn f p ≠ 0) :
    (∀ k < 2 ^ logn, ringMul logn h f k = g k) ↔ ∀ k < 2 ^ logn, h k = quotient logn g f k := by
  constructor
  · intro heq k hk
    refine hat_inj hlogn (fun p hp => ?_) hk
    rw [quotient, hat_unhat hlogn _ hp, eq_div_iff (hf p hp), ← hat_ringMul hlogn hp]
    exact hat_congr heq hp
  · intro heq k hk
    refine hat_inj hlogn (fun p hp => ?_) hk
    rw [hat_ringMul hlogn hp, hat_congr heq hp, quotient, hat_unhat hlogn _ hp,
      div_mul_cancel₀ _ (hf p hp)]

/-- A polynomial has an inverse exactly if no entry of its transform is zero. -/
theorem invertible_iff (hlogn : logn ≤ 10) :
    Invertible logn f ↔ ∀ p < 2 ^ logn, hat logn f p ≠ 0 := by
  constructor
  · intro ⟨u, hu⟩ p hp hzero
    have h1 := hat_congr hu hp
    rw [hat_ringMul hlogn hp, hat_one hlogn hp, hzero, mul_zero] at h1
    exact zero_ne_one h1
  · intro hf
    exact ⟨quotient logn one f, (quotient_iff hlogn hf).mpr fun _ _ => rfl⟩

/-! ## The functions -/

/-- `for (..) { if (tt[u] == 0) return 0; h[u] = (uint16_t)mq_div_12289(h[u], tt[u]); }`. -/
def divNtt : List UInt16 → List UInt16 → Option (List UInt16)
  | v :: h, w :: tt =>
    if w = 0 then none
    else (divNtt h tt).map fun r => (mqDiv12289 v.toUInt32 w.toUInt32).toUInt16 :: r
  | _, _ => some []

/-- `(uint16_t)mq_conv_small(f[u])`. -/
def convSmall (z : Int8) : UInt16 := (mqConvSmall z.toInt32).toUInt16

/-- `Zf(compute_public)`. -/
def computePublic (logn : Nat) (f g : List Int8) : Option (List UInt16) :=
  let tt := f.map convSmall
  let h := g.map convSmall
  let h := mqNTT logn h
  let tt := mqNTT logn tt
  (divNtt h tt).map (mqINTT logn)

/-- `w -= (Q & ~-((w - (Q >> 1)) >> 31)); gi = *(int32_t *)&w;`, and the range check. -/
def privateCoeff (w : UInt16) : Option Int8 :=
  let w := w.toUInt32
  let w := w - ((12289 : UInt32) &&& ~~~(-((w - ((12289 : UInt32) >>> 1)) >>> 31)))
  let gi := w.toInt32
  if gi.toInt < -127 ∨ gi.toInt > 127 then none else some gi.toInt8

/-- `Zf(complete_private)`. -/
def completePrivate (logn : Nat) (f g F : List Int8) : Option (List Int8) :=
  let t1 := g.map convSmall
  let t2 := F.map convSmall
  let t1 := mqNTT logn t1
  let t2 := mqNTT logn t2
  let t1 := mqPolyTomonty t1
  let t1 := mqPolyMontymulNtt t1 t2
  let t2 := f.map convSmall
  let t2 := mqNTT logn t2
  (divNtt t1 t2).bind fun t1 => (mqINTT logn t1).mapM privateCoeff

/-- `r |= (uint32_t)(tt[u] - 1)`, over the array. -/
def zeroFlag (tt : List UInt16) : UInt32 := tt.foldl (fun r w => r ||| (w.toUInt32 - 1)) 0

/-- `Zf(is_invertible)`. -/
def isInvertible (logn : Nat) (s2 : List Int16) : UInt32 :=
  let tt := mqNTT logn (s2.map reduceS)
  (1 : UInt32) - (zeroFlag tt >>> 31)

/-- `Zf(count_nttzero)`. -/
def countNttzero (logn : Nat) (sig : List Int16) : UInt32 :=
  let s2 := mqNTT logn (sig.map reduceS)
  s2.foldl (fun r w => r + ((w.toUInt32 - (1 : UInt32)) >>> 31)) 0

/-- `Zf(verify_recover)`: the key, and the result. -/
def verifyRecover (logn : Nat) (c0 : List UInt16) (s1 s2 : List Int16) : List UInt16 × UInt32 :=
  let tt := s2.map reduceS
  let h := List.zipWith (fun c s => (mqSub c.toUInt32 (addQ s.toInt32.toUInt32)).toUInt16) c0 s1
  let tt := mqNTT logn tt
  let h := mqNTT logn h
  let r := zeroFlag tt
  let h := List.zipWith (fun v w => (mqDiv12289 v.toUInt32 w.toUInt32).toUInt16) h tt
  let h := mqINTT logn h
  let r := ~~~r &&& (if isShort logn s1 s2 then -1 else 0)
  (h, r >>> 31)

/-! ## What they compute -/

theorem div_spec {v w : UInt16} (hv : Reduced v) (hw : Reduced w) :
    Reduced (mqDiv12289 v.toUInt32 w.toUInt32).toUInt16 ∧
      zq16 (mqDiv12289 v.toUInt32 w.toUInt32).toUInt16 = zq16 v / zq16 w := by
  have h := zq16_of_zq (mqDiv12289_spec (reduced_toUInt32 hv) (reduced_toUInt32 hw))
  rwa [zq_toUInt32, zq_toUInt32] at h

theorem polyDiv_spec {n : Nat} {a b : List UInt16} (ha : IsPoly n a g) (hb : IsPoly n b f) :
    IsPoly n (List.zipWith (fun v w => (mqDiv12289 v.toUInt32 w.toUInt32).toUInt16) a b)
      fun p => g p / f p :=
  ha.zipWith (F := fun x y => x / y) (fun _ _ hv hw => div_spec hv hw) hb

theorem zq16_eq_zero {w : UInt16} (hw : Reduced w) : zq16 w = 0 ↔ w = 0 := by
  have hlt : w.toNat < 12289 := hw
  unfold zq16
  rw [ZMod.natCast_eq_zero_iff, ← UInt16.toNat_inj]
  constructor
  · intro hdvd
    exact Nat.eq_zero_of_dvd_of_lt hdvd hlt
  · intro hzero
    rw [hzero]
    exact dvd_zero _

theorem divNtt_eq {h tt : List UInt16} (hlen : h.length = tt.length) :
    divNtt h tt = if 0 ∈ tt then none
      else some (List.zipWith (fun v w => (mqDiv12289 v.toUInt32 w.toUInt32).toUInt16) h tt) := by
  induction h generalizing tt with
  | nil =>
    rw [List.length_eq_zero_iff.mp hlen.symm]
    rfl
  | cons v h ih =>
    cases tt with
    | nil => simp at hlen
    | cons w tt =>
      rw [divNtt, ih (by simpa using hlen)]
      by_cases hw : w = 0
      · simp [hw]
      · by_cases hmem : 0 ∈ tt
        · simp [hw, hmem]
        · simp [hw, hmem, Ne.symm hw]

/-- A zero entry is a zero value. -/
theorem zero_mem_iff {n : Nat} {a : List UInt16} (ha : IsPoly n a f) :
    0 ∈ a ↔ ∃ p < n, f p = 0 := by
  constructor
  · intro hmem
    obtain ⟨p, hp, hzero⟩ := List.mem_iff_getElem.mp hmem
    have hpn : p < n := by rw [← ha.length]; exact hp
    have hval := ha.value p hpn
    rw [List.getD_eq_getElem _ _ hp, hzero] at hval
    exact ⟨p, hpn, hval.symm⟩
  · intro ⟨p, hp, hzero⟩
    have hpa : p < a.length := by rw [ha.length]; exact hp
    have hval := ha.value p hp
    rw [hzero, zq16_eq_zero (ha.admissible p hp), List.getD_eq_getElem _ _ hpa] at hval
    rw [← hval]
    exact List.getElem_mem hpa

/-- Dividing the transforms succeeds exactly if the divisor has an inverse, and gives the
quotient. -/
theorem mqINTT_div (hlogn : logn ≤ 10) {a b : List UInt16}
    (ha : IsPoly (2 ^ logn) a (hat logn g)) (hb : IsPoly (2 ^ logn) b (hat logn f)) :
    (¬ Invertible logn f ∧ divNtt a b = none) ∨
      (Invertible logn f ∧ ∃ r, divNtt a b = some r ∧
        IsPoly (2 ^ logn) (mqINTT logn r) (quotient logn g f)) := by
  rw [invertible_iff hlogn, divNtt_eq (ha.length.trans hb.length.symm)]
  by_cases hzero : ∃ p < 2 ^ logn, hat logn f p = 0
  · rw [if_pos ((zero_mem_iff hb).mpr hzero)]
    obtain ⟨p, hp, h0⟩ := hzero
    exact Or.inl ⟨fun h => h p hp h0, rfl⟩
  · rw [if_neg (mt (zero_mem_iff hb).mp hzero)]
    refine Or.inr ⟨fun p hp h0 => hzero ⟨p, hp, h0⟩, _, rfl, ?_⟩
    exact mqINTT_spec (polyDiv_spec ha hb)

/-- The integers of an array of bytes, modulo `q`. -/
def residues (s : List Int8) (k : Nat) : Zq := ((s.getD k 0).toInt : Int)

theorem convSmall_spec (z : Int8) :
    Reduced (convSmall z) ∧ zq16 (convSmall z) = (z.toInt : Zq) := by
  have hlo := z.le_toInt
  have hhi := z.toInt_lt
  have h := mqConvSmall_spec (x := z.toInt32) (by rw [Int8.toInt_toInt32]; omega)
    (by rw [Int8.toInt_toInt32]; omega)
  rw [Int8.toInt_toInt32] at h
  exact zq16_of_zq h

theorem isPoly_convSmall {n : Nat} {s : List Int8} (hlen : s.length = n) :
    IsPoly n (s.map convSmall) (residues s) :=
  have hs : Ntt.Represents (fun z : Int8 => (z.toInt : Zq)) (fun _ => True) n s (residues s) :=
    Ntt.Represents.self hlen fun _ _ => trivial
  hs.map (F := id) fun z _ => convSmall_spec z

/-- An array is determined by its residues. -/
theorem isPoly_unique {n : Nat} {a b : List UInt16} (ha : IsPoly n a f) (hb : IsPoly n b f) :
    a = b := by
  apply List.ext_getElem (ha.length.trans hb.length.symm)
  intro k hka hkb
  have hk : k < n := by rw [← ha.length]; exact hka
  have hva := ha.value k hk
  have hvb := hb.value k hk
  have hra : (a.getD k default).toNat < 12289 := ha.admissible k hk
  have hrb : (b.getD k default).toNat < 12289 := hb.admissible k hk
  rw [← hvb] at hva
  rw [List.getD_eq_getElem _ _ hka] at hva hra
  rw [List.getD_eq_getElem _ _ hkb] at hva hrb
  have hmod := (ZMod.natCast_eq_natCast_iff' _ _ _).mp hva
  rw [Nat.mod_eq_of_lt hra, Nat.mod_eq_of_lt hrb] at hmod
  exact UInt16.toNat_inj.mp hmod

/-- `compute_public` finds the one public key `h` with `h f = g`, if `f` has an inverse. -/
theorem computePublic_iff (hlogn : logn ≤ 10) {f g : List Int8} (hf : f.length = 2 ^ logn)
    (hg : g.length = 2 ^ logn) {h : List UInt16} :
    computePublic logn f g = some h ↔
      Invertible logn (residues f) ∧ h.length = 2 ^ logn ∧ (∀ w ∈ h, Reduced w) ∧
        ∀ k < 2 ^ logn, ringMul logn (coeff h) (residues f) k = residues g k := by
  have hdiv := mqINTT_div hlogn (mqNTT_spec (isPoly_convSmall hg))
    (mqNTT_spec (isPoly_convSmall hf))
  unfold computePublic
  dsimp only
  rcases hdiv with ⟨hnot, hnone⟩ | ⟨hinv, r, hr, hpoly⟩
  · rw [hnone]
    simp [hnot]
  · have hquot := fun k => @quotient_iff logn (residues f) (residues g) k hlogn
      ((invertible_iff hlogn).mp hinv)
    rw [hr, Option.map_some, Option.some.injEq]
    constructor
    · intro hh
      subst hh
      exact ⟨hinv, hpoly.length, hpoly.ok_of_mem, (hquot _).mpr fun k hk => hpoly.value k hk⟩
    · intro ⟨_, hlen, hred, heq⟩
      exact isPoly_unique hpoly ((isPoly_coeff hlen hred).congr ((hquot _).mp heq))

/-- An entry minus one has its high bit set exactly if the entry is zero. -/
theorem high_sub_one (w : UInt16) : 2 ^ 31 ≤ (w.toUInt32 - 1).toNat ↔ w = 0 := by
  have hw := w.toNat_lt
  have hsub : (w.toUInt32 - 1).toNat = (2 ^ 32 - 1 + w.toNat) % 2 ^ 32 := by
    rw [UInt32.toNat_sub, UInt16.toNat_toUInt32]
    rfl
  rw [hsub, ← UInt16.toNat_inj]
  show _ ↔ w.toNat = 0
  omega

/-- The flag has its high bit set exactly if an entry is zero. -/
theorem high_zeroFlag (tt : List UInt16) : 2 ^ 31 ≤ (zeroFlag tt).toNat ↔ 0 ∈ tt := by
  have hloop : ∀ (tt : List UInt16) (r : UInt32),
      (2 ^ 31 ≤ (tt.foldl (fun r w => r ||| (w.toUInt32 - 1)) r).toNat ↔
        2 ^ 31 ≤ r.toNat ∨ 0 ∈ tt) := by
    intro tt
    induction tt with
    | nil => simp
    | cons w tt ih =>
      intro r
      rw [List.foldl_cons, ih, UInt32.toNat_or, Bits.high_or, high_sub_one, List.mem_cons, or_assoc,
        eq_comm (a := (0 : UInt16))]
  have h := hloop tt 0
  rw [show (0 : UInt32).toNat = 0 from rfl] at h
  unfold zeroFlag
  simpa using h

/-- `is_invertible` says whether `s2` has an inverse. -/
theorem isInvertible_eq (hlogn : logn ≤ 10) {s2 : List Int16} (hs : SmallPoly logn s2) :
    isInvertible logn s2 = 1 ↔ Invertible logn (modQ (ints s2)) := by
  have hpoly := mqNTT_spec (isPoly_reduceS hs)
  unfold isInvertible
  dsimp only
  rw [Bits.shift_31, invertible_iff hlogn]
  by_cases hhigh : 2 ^ 31 ≤ (zeroFlag (mqNTT logn (s2.map reduceS))).toNat
  · obtain ⟨p, hp, h0⟩ := (zero_mem_iff hpoly).mp ((high_zeroFlag _).mp hhigh)
    rw [if_pos hhigh]
    constructor
    · intro h
      exact absurd h (by decide)
    · intro h
      exact absurd h0 (h p hp)
  · have hnone := mt (zero_mem_iff hpoly).mpr (mt (high_zeroFlag _).mpr hhigh)
    rw [if_neg hhigh]
    constructor
    · intro _ p hp h0
      exact hnone ⟨p, hp, h0⟩
    · intro _
      rfl

theorem isInvertible_two : isInvertible 1 [3, -1] = 1 ∧ Invertible 1 (modQ (ints [3, -1])) :=
  have h : isInvertible 1 [3, -1] = 1 := by decide +kernel
  ⟨h, (isInvertible_eq (by decide) smallPoly_two).mp h⟩

/-- What is subtracted leaves an integer between -6145 and 6143. -/
theorem center_toInt {w : UInt16} (hw : Reduced w) :
    (w.toUInt32 - ((12289 : UInt32) &&&
      ~~~(-((w.toUInt32 - ((12289 : UInt32) >>> 1)) >>> 31)))).toInt32.toInt =
        if w.toNat < 6144 then (w.toNat : Int) else (w.toNat : Int) - 12289 := by
  have hlt : w.toNat < 12289 := hw
  have hdiff : (w.toUInt32 - ((12289 : UInt32) >>> 1)).toNat =
      (2 ^ 32 - 6144 + w.toNat) % 2 ^ 32 := by
    rw [UInt32.toNat_sub, UInt16.toNat_toUInt32]
    rfl
  have hword : ∀ x : UInt32, x.toInt32.toInt =
      if 2 * x.toNat < 2 ^ 32 then (x.toNat : Int) else (x.toNat : Int) - (2 ^ 32 : Nat) :=
    fun x => BitVec.toInt_eq_toNat_cond ..
  rw [Bits.shift_31, hword, UInt32.toNat_sub, UInt16.toNat_toUInt32]
  by_cases hlow : w.toNat < 6144
  · rw [if_pos (show 2 ^ 31 ≤ _ by omega), if_pos hlow,
      show ((12289 : UInt32) &&& ~~~(-(1 : UInt32))).toNat = 0 from rfl]
    omega
  · rw [if_neg (show ¬ 2 ^ 31 ≤ _ by omega), if_neg hlow,
      show ((12289 : UInt32) &&& ~~~(-(0 : UInt32))).toNat = 12289 from rfl]
    omega

/-- The byte that has the residue, if there is one. -/
theorem privateCoeff_eq_some {w : UInt16} (hw : Reduced w) {z : Int8} :
    privateCoeff w = some z ↔ (z.toInt : Zq) = zq16 w ∧ -127 ≤ z.toInt := by
  have hlt : w.toNat < 12289 := hw
  have hcenter := center_toInt hw
  have hlo := z.le_toInt
  have hhi := z.toInt_lt
  unfold privateCoeff
  dsimp only
  generalize (w.toUInt32 - ((12289 : UInt32) &&&
    ~~~(-((w.toUInt32 - ((12289 : UInt32) >>> 1)) >>> 31)))).toInt32 = gi at hcenter
  have hbyte : gi.toInt8.toInt = Int.bmod gi.toInt (2 ^ 8) := Int32.toInt_toInt8 gi
  have hres : (z.toInt : Zq) = zq16 w ↔ (12289 : Int) ∣ w.toNat - z.toInt := by
    have hsub := ZMod.intCast_eq_intCast_iff_dvd_sub z.toInt w.toNat 12289
    rwa [Int.cast_natCast] at hsub
  rw [hres]
  by_cases hout : gi.toInt < -127 ∨ gi.toInt > 127
  · rw [if_pos hout]
    split_ifs at hcenter <;> simp <;> omega
  · rw [if_neg hout, Option.some.injEq, ← Int8.toInt_inj, hbyte,
      Int.bmod_eq_of_le (by omega) (by omega)]
    split_ifs at hcenter <;> omega

/-- All elements are mapped. -/
theorem mapM_eq_some_iff {α β : Type} {f : α → Option β} {l : List α} {r : List β} :
    l.mapM f = some r ↔ List.Forall₂ (fun x y => f x = some y) l r := by
  induction l generalizing r with
  | nil => cases r <;> simp
  | cons x l ih =>
    rw [List.mapM_cons, Option.bind_eq_bind, Option.bind_eq_some_iff]
    constructor
    · intro ⟨y, hy, hrest⟩
      obtain ⟨s, hs, hcons⟩ := Option.bind_eq_some_iff.mp hrest
      cases hcons
      exact List.Forall₂.cons hy (ih.mp hs)
    · intro h
      cases h with
      | cons hy hs =>
        refine ⟨_, hy, ?_⟩
        rw [ih.mpr hs]
        rfl

/-- The bytes that have the residues of an array. -/
theorem mapM_privateCoeff {n : Nat} {a : List UInt16} (ha : IsPoly n a f) {G : List Int8} :
    a.mapM privateCoeff = some G ↔
      G.length = n ∧ (∀ z ∈ G, -127 ≤ z.toInt) ∧ ∀ k < n, residues G k = f k := by
  have hentry : ∀ {k : Nat} (hka : k < a.length) {z : Int8},
      privateCoeff a[k] = some z ↔ (z.toInt : Zq) = f k ∧ -127 ≤ z.toInt := by
    intro k hka z
    have hk : k < n := by rw [← ha.length]; exact hka
    have hred := ha.admissible k hk
    have hval := ha.value k hk
    rw [List.getD_eq_getElem _ _ hka] at hred hval
    rw [privateCoeff_eq_some hred, hval]
  have halen := ha.length
  rw [mapM_eq_some_iff, List.forall₂_iff_get]
  constructor
  · intro ⟨hlen, hall⟩
    refine ⟨by omega, ?_, ?_⟩
    · intro z hz
      obtain ⟨k, hk, hkz⟩ := List.mem_iff_getElem.mp hz
      have hka : k < a.length := by omega
      rw [← hkz]
      exact ((hentry hka).mp (hall k hka hk)).2
    · intro k hk
      have hka : k < a.length := by omega
      have hkG : k < G.length := by omega
      rw [residues, List.getD_eq_getElem _ _ hkG]
      exact ((hentry hka).mp (hall k hka hkG)).1
  · intro ⟨hlen, hlo, hval⟩
    refine ⟨by omega, fun k hka hkG => (hentry hka).mpr ⟨?_, hlo _ (List.getElem_mem hkG)⟩⟩
    have hk := hval k (by omega)
    rwa [residues, List.getD_eq_getElem _ _ hkG] at hk

/-- `complete_private` finds the one `G` with `G f = g F` and small entries, if `f` has an
inverse. -/
theorem completePrivate_iff (hlogn : logn ≤ 10) {f g F G : List Int8} (hf : f.length = 2 ^ logn)
    (hg : g.length = 2 ^ logn) (hF : F.length = 2 ^ logn) :
    completePrivate logn f g F = some G ↔
      Invertible logn (residues f) ∧ G.length = 2 ^ logn ∧ (∀ z ∈ G, -127 ≤ z.toInt) ∧
        ∀ k < 2 ^ logn, ringMul logn (residues G) (residues f) k =
          ringMul logn (residues g) (residues F) k := by
  have hprod := montymulNtt_spec (polyTomonty_spec (mqNTT_spec (isPoly_convSmall hg)))
    (mqNTT_spec (isPoly_convSmall hF))
  have hhat : ∀ p < 2 ^ logn, hat logn (residues g) p * montR * hat logn (residues F) p / montR =
      hat logn (ringMul logn (residues g) (residues F)) p := by
    intro p hp
    rw [hat_ringMul hlogn hp, mul_right_comm, mul_div_cancel_right₀ _ montR_ne_zero]
  have hdiv := mqINTT_div hlogn (hprod.congr hhat) (mqNTT_spec (isPoly_convSmall hf))
  unfold completePrivate
  dsimp only
  rcases hdiv with ⟨hnot, hnone⟩ | ⟨hinv, r, hr, hpoly⟩
  · rw [hnone]
    simp [hnot]
  · have hquot := @quotient_iff logn (residues f) (ringMul logn (residues g) (residues F))
      (residues G) hlogn ((invertible_iff hlogn).mp hinv)
    rw [hr, Option.bind_some, mapM_privateCoeff hpoly, hquot]
    simp only [hinv, true_and]

/-- Every zero entry adds one. -/
theorem countNttzero_toNat (logn : Nat) (sig : List Int16)
    (hlen : (mqNTT logn (sig.map reduceS)).length < 2 ^ 32) :
    (countNttzero logn sig).toNat = (mqNTT logn (sig.map reduceS)).count 0 := by
  have hloop : ∀ (tt : List UInt16) (r : UInt32), r.toNat + tt.length < 2 ^ 32 →
      (tt.foldl (fun r w => r + ((w.toUInt32 - (1 : UInt32)) >>> 31)) r).toNat =
        r.toNat + tt.count 0 := by
    intro tt
    induction tt with
    | nil => simp
    | cons w tt ih =>
      intro r hr
      rw [List.length_cons] at hr
      have hstep : (r + ((w.toUInt32 - (1 : UInt32)) >>> 31)).toNat =
          r.toNat + if w = 0 then 1 else 0 := by
        rw [Bits.shift_31, UInt32.toNat_add]
        by_cases hw : w = 0
        · rw [if_pos ((high_sub_one w).mpr hw), if_pos hw]
          exact Nat.mod_eq_of_lt (by rw [show (1 : UInt32).toNat = 1 from rfl]; omega)
        · rw [if_neg (mt (high_sub_one w).mp hw), if_neg hw]
          exact Nat.mod_eq_of_lt (by rw [show (0 : UInt32).toNat = 0 from rfl]; omega)
      rw [List.foldl_cons, ih _ (by rw [hstep]; split_ifs <;> omega), hstep, List.count_cons]
      simp only [beq_iff_eq]
      omega
  have h := hloop (mqNTT logn (sig.map reduceS)) 0 (by simpa using hlen)
  rw [show (0 : UInt32).toNat = 0 from rfl, Nat.zero_add] at h
  exact h

/-- `count_nttzero` counts no zero exactly if the signature value has an inverse. -/
theorem countNttzero_eq_zero (hlogn : logn ≤ 10) {sig : List Int16} (hs : SmallPoly logn sig) :
    countNttzero logn sig = 0 ↔ Invertible logn (modQ (ints sig)) := by
  have hpoly := mqNTT_spec (isPoly_reduceS hs)
  have hle : 2 ^ logn ≤ 2 ^ 10 := Nat.pow_le_pow_right (by omega) hlogn
  rw [← UInt32.toNat_inj, countNttzero_toNat _ _ (by rw [hpoly.length]; omega),
    show (0 : UInt32).toNat = 0 from rfl, List.count_eq_zero, zero_mem_iff hpoly,
    invertible_iff hlogn]
  constructor
  · intro hnone p hp h0
    exact hnone ⟨p, hp, h0⟩
  · intro h ⟨p, hp, h0⟩
    exact h p hp h0

theorem countNttzero_two : countNttzero 1 [3, -1] = 0 ∧ Invertible 1 (modQ (ints [3, -1])) :=
  have h : countNttzero 1 [3, -1] = 0 := by decide +kernel
  ⟨h, (countNttzero_eq_zero (by decide) smallPoly_two).mp h⟩

theorem ringMul_comm (hlogn : logn ≤ 10) {k : Nat} (hk : k < 2 ^ logn) :
    ringMul logn f h k = ringMul logn h f k :=
  hat_inj hlogn (fun p hp => by rw [hat_ringMul hlogn hp, hat_ringMul hlogn hp, mul_comm]) hk

/-- The final flag of `verify_recover`. -/
theorem recover_flag (r : UInt32) (short : Bool) :
    ((~~~r &&& (if short then -1 else 0)) >>> 31 : UInt32) = 1 ↔
      ¬ 2 ^ 31 ≤ r.toNat ∧ short = true := by
  have hr := r.toNat_lt
  rw [Bits.shift_31]
  cases short with
  | true =>
    have hnot : (~~~r &&& (-1 : UInt32)).toNat = 2 ^ 32 - 1 - r.toNat := by
      rw [UInt32.and_neg_one]
      exact UInt32.toNat_not r
    rw [if_pos rfl, hnot]
    split_ifs with hhigh
    · simp
      omega
    · simp
      omega
  | false =>
    simp

/-- `verify_recover` accepts with the one key under which the signature is good, if its value
has an inverse and is short. -/
theorem verifyRecover_iff (hlogn : logn ≤ 10) {c0 : List UInt16} {c : Nat → Zq}
    (hc : IsPoly (2 ^ logn) c0 c) {s1 s2 : List Int16} (hs1 : SmallPoly logn s1)
    (hs2 : SmallPoly logn s2) {h : List UInt16} :
    verifyRecover logn c0 s1 s2 = (h, 1) ↔
      Invertible logn (modQ (ints s2)) ∧ h.length = 2 ^ logn ∧ (∀ w ∈ h, Reduced w) ∧
        ShortSolution logn c (coeff h) (ints s1) (ints s2) := by
  have htt := mqNTT_spec (isPoly_reduceS hs2)
  have hnum : IsPoly (2 ^ logn)
      (List.zipWith (fun c s => (mqSub c.toUInt32 (addQ s.toInt32.toUInt32)).toUInt16) c0 s1)
      (fun k => c k - modQ (ints s1) k) := by
    refine Ntt.Represents.zipWith (F := fun x y => x - y) (fun v z hv hz => ?_) hc hs1.represents
    obtain ⟨hlt, hval⟩ := addQ_spec hz
    have hsub := zq16_of_zq (mqSub_spec (reduced_toUInt32 hv) hlt)
    rwa [zq_toUInt32, hval] at hsub
  have hshort := @isShort_iff logn s1 s2 (by rw [hs1.length, hs2.length])
  rw [sqNorm_eq_sum, sqNorm_eq_sum, hs1.length, hs2.length] at hshort
  unfold verifyRecover
  dsimp only
  rw [Prod.mk.injEq, recover_flag, high_zeroFlag, hshort, zero_mem_iff htt, invertible_iff hlogn]
  have hpoly : IsPoly _ (mqINTT logn _) (quotient logn _ _) :=
    mqINTT_spec (polyDiv_spec (mqNTT_spec hnum) htt)
  -- the equation for `h`, solved for the quotient
  have hequation : ∀ f : Nat → Zq, (∀ p < 2 ^ logn, hat logn (modQ (ints s2)) p ≠ 0) →
      ((∀ k < 2 ^ logn, modQ (ints s1) k + ringMul logn (modQ (ints s2)) f k = c k) ↔
        ∀ k < 2 ^ logn, f k = quotient logn (fun k => c k - modQ (ints s1) k)
          (modQ (ints s2)) k) := by
    intro f hf
    rw [← quotient_iff hlogn hf]
    refine forall₂_congr fun k hk => ?_
    rw [ringMul_comm hlogn hk, eq_sub_iff_add_eq, add_comm]
  constructor
  · intro ⟨hh, hnone, hle⟩
    have hf : ∀ p < 2 ^ logn, hat logn (modQ (ints s2)) p ≠ 0 :=
      fun p hp h0 => hnone ⟨p, hp, h0⟩
    subst hh
    exact ⟨hf, hpoly.length, hpoly.ok_of_mem, (hequation _ hf).mpr hpoly.value, hle⟩
  · intro ⟨hf, hlen, hred, heq, hle⟩
    refine ⟨?_, fun ⟨p, hp, h0⟩ => hf p hp h0, hle⟩
    exact isPoly_unique hpoly ((isPoly_coeff hlen hred).congr ((hequation _ hf).mp heq))

/-- The signature is good under the key that `verify_recover` finds. -/
theorem verifyRaw_of_recover (hlogn : logn ≤ 10) {c0 : List UInt16} {c : Nat → Zq}
    (hc : IsPoly (2 ^ logn) c0 c) {s1 s2 : List Int16} (hs1 : SmallPoly logn s1)
    (hs2 : SmallPoly logn s2) {h : List UInt16} (hrec : verifyRecover logn c0 s1 s2 = (h, 1)) :
    verifyRaw logn c0 s2 (toNttMonty logn h) = true := by
  obtain ⟨_, hlen, hred, hsol⟩ := (verifyRecover_iff hlogn hc hs1 hs2).mp hrec
  exact (verifyRaw_iff hlogn hc hs2 (isPoly_coeff hlen hred)).mpr ⟨_, hsol⟩

theorem verifyRaw_of_recover_two :
    verifyRecover 1 [11, 13] [2, -1] [3, -1] = ([3688, 1234], 1) ∧
      verifyRaw 1 [11, 13] [3, -1] (toNttMonty 1 [3688, 1234]) = true :=
  have h : verifyRecover 1 [11, 13] [2, -1] [3, -1] = ([3688, 1234], 1) := by decide +kernel
  ⟨h, verifyRaw_of_recover (by decide) (isPoly_coeff rfl (by simp [Reduced]))
    ⟨rfl, by simp [Small]⟩ smallPoly_two h⟩

end Trelyan.Falcon.Vrfy
