import Mathlib.Logic.Equiv.Fin.Basic
import Mathlib.Probability.Distributions.Uniform

/-!
# Balanced functions

A function is balanced if every value has the same number of arguments.  Such a
function takes a uniform argument to a uniform value (`Balanced.map_uniform`), and
this is the exact form of "no bias": there is no argument left over.

A uniform pair is a pair of independent uniform draws (`uniform_prod`), so that a
balanced function into a product also says that the two halves are independent.
-/

namespace Trelyan

open scoped ENNReal

variable {α β γ δ ι : Type} {f : α → β} {g : γ → δ} {j k : ℕ}

/-- Every value of `f` has `k` arguments. -/
def Balanced (f : α → β) (k : ℕ) : Prop := ∀ b, Nat.card {a // f a = b} = k

namespace Balanced

theorem comp_equiv (h : Balanced f k) (e : γ ≃ α) : Balanced (f ∘ e) k := by
  intro b
  rw [← h b]
  exact Nat.card_congr (e.subtypeEquiv fun _ => Iff.rfl)

theorem snd : Balanced (Prod.snd : α × β → β) (Nat.card α) := by
  intro b
  refine Nat.card_congr ⟨fun x => x.1.1, fun a => ⟨(a, b), rfl⟩, ?_, fun _ => rfl⟩
  intro x
  apply Subtype.ext
  exact Prod.ext rfl x.2.symm

/-- The remainder of a number below `m * n` divided by `n`. -/
theorem modNat (m n : ℕ) : Balanced (Fin.modNat : Fin (m * n) → Fin n) m := by
  have hsnd : Balanced (Prod.snd : Fin m × Fin n → Fin n) (Nat.card (Fin m)) := snd
  rw [Nat.card_fin] at hsnd
  exact hsnd.comp_equiv finProdFinEquiv.symm

theorem prodMap (hf : Balanced f j) (hg : Balanced g k) : Balanced (Prod.map f g) (j * k) := by
  intro b
  have hsplit : {x : α × γ // Prod.map f g x = b} ≃ {a // f a = b.1} × {c // g c = b.2} :=
    (Equiv.subtypeEquivRight fun _ => Prod.ext_iff).trans
      (Equiv.subtypeProdEquivProd (p := fun a => f a = b.1) (q := fun c => g c = b.2))
  rw [Nat.card_congr hsplit, Nat.card_prod, hf, hg]

/-- A sequence of values, one for each argument of a sequence. -/
theorem pi [Fintype ι] (hf : Balanced f k) :
    Balanced (fun (x : ι → α) i => f (x i)) (k ^ Fintype.card ι) := by
  intro b
  have hsplit : {x : ι → α // (fun i => f (x i)) = b} ≃ ((i : ι) → {a // f a = b i}) :=
    (Equiv.subtypeEquivRight fun _ => funext_iff).trans
      (Equiv.subtypePiEquivPi (p := fun i a => f a = b i))
  rw [Nat.card_congr hsplit, Nat.card_pi, Finset.prod_congr rfl fun i _ => hf (b i)]
  exact Finset.prod_const k

section Uniform

variable [Fintype α] [Fintype β]

theorem card_eq (h : Balanced f k) : Fintype.card α = Fintype.card β * k := by
  have hfib := Nat.card_congr (Equiv.sigmaFiberEquiv f)
  rw [Nat.card_sigma, Finset.sum_congr rfl fun b _ => h b] at hfib
  simpa using hfib.symm

/-- A uniform argument gives a uniform value. -/
theorem map_uniform [Nonempty α] [Nonempty β] (h : Balanced f k) :
    (PMF.uniformOfFintype α).map f = PMF.uniformOfFintype β := by
  classical
  ext b
  have hk : k ≠ 0 := by
    intro h0
    have hcard := h.card_eq
    rw [h0, Nat.mul_zero] at hcard
    exact Fintype.card_ne_zero hcard
  have hfib : Fintype.card (Set.preimage f {b}) = k := by
    rw [← h b, Nat.card_eq_fintype_card]
    rfl
  rw [← PMF.toOuterMeasure_apply_singleton, PMF.toOuterMeasure_map_apply,
    PMF.toOuterMeasure_uniformOfFintype_apply, PMF.uniformOfFintype_apply, hfib, h.card_eq]
  have hk0 : (k : ℝ≥0∞) ≠ 0 := by exact_mod_cast hk
  have hktop : (k : ℝ≥0∞) ≠ ∞ := ENNReal.natCast_ne_top k
  rw [Nat.cast_mul, ENNReal.div_eq_inv_mul, ENNReal.mul_inv (.inr hktop) (.inr hk0), mul_assoc,
    ENNReal.inv_mul_cancel hk0 hktop, mul_one]

end Uniform

end Balanced

section Product

variable [Fintype α] [Nonempty α] [Fintype β] [Nonempty β]

omit [Fintype α] [Nonempty α] [Fintype β] [Nonempty β] in
theorem map_mk_self (p : PMF β) (x : α × β) : (p.map (Prod.mk x.1)) x = p x.2 := by
  rw [PMF.map_apply, tsum_eq_single x.2, if_pos rfl]
  intro b hb
  rw [if_neg]
  intro heq
  exact hb (congrArg Prod.snd heq).symm

omit [Fintype α] [Nonempty α] [Fintype β] [Nonempty β] in
theorem map_mk_of_ne (p : PMF β) {a : α} {x : α × β} (h : a ≠ x.1) :
    (p.map (Prod.mk a)) x = 0 := by
  rw [PMF.apply_eq_zero_iff, PMF.support_map]
  intro ⟨b, _, hb⟩
  exact h (congrArg Prod.fst hb)

/-- A uniform pair: two independent uniform draws. -/
theorem uniform_prod :
    PMF.uniformOfFintype (α × β) =
      (PMF.uniformOfFintype α).bind fun a => (PMF.uniformOfFintype β).map fun b => (a, b) := by
  ext x
  have hzero : ∀ a, a ≠ x.1 → PMF.uniformOfFintype α a *
      ((PMF.uniformOfFintype β).map (Prod.mk a)) x = 0 := by
    intro a ha
    rw [map_mk_of_ne _ ha, mul_zero]
  rw [PMF.bind_apply, tsum_eq_single x.1 hzero, map_mk_self]
  simp only [PMF.uniformOfFintype_apply, Fintype.card_prod, Nat.cast_mul]
  exact ENNReal.mul_inv (.inr (ENNReal.natCast_ne_top _)) (.inl (ENNReal.natCast_ne_top _))

end Product

end Trelyan
