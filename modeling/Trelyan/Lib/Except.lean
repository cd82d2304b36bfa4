/-!
# Computations that may fail

The few facts about `Except` that the inversion of a program needs: when a
sequence of steps succeeds, each step succeeded, and each check that it made
holds.  When it fails, the error is one of those of its steps (`Errors`,
`Fails`).
-/

namespace Trelyan

variable {ε α β : Type}

/-- A check: go on if `p` holds, and fail with `e` otherwise. -/
def require (p : Prop) [Decidable p] (e : ε) : Except ε Unit :=
  if p then .ok () else .error e

theorem bind_eq_ok {x : Except ε α} {f : α → Except ε β} {b : β} :
    (x >>= f) = .ok b ↔ ∃ a, x = .ok a ∧ f a = .ok b := by
  cases x <;> simp [bind, Except.bind]

theorem bind_eq_error {x : Except ε α} {f : α → Except ε β} {e : ε} :
    (x >>= f) = .error e ↔ x = .error e ∨ ∃ a, x = .ok a ∧ f a = .error e := by
  cases x <;> simp [bind, Except.bind]

theorem map_bind (x : Except ε α) (f : α → Except ε β) {γ : Type} (g : β → γ) :
    (x >>= f).map g = x >>= fun a => (f a).map g := by
  cases x <;> rfl

theorem require_eq_ok {p : Prop} [Decidable p] {e : ε} {u : Unit} : require p e = .ok u ↔ p := by
  by_cases h : p <;> simp [require, h]

theorem require_bind_eq_ok {p : Prop} [Decidable p] {e : ε} {f : Unit → Except ε α} {a : α} :
    (require p e >>= f) = .ok a ↔ p ∧ f () = .ok a := by
  by_cases h : p <;> simp [require, h, bind, Except.bind]

/-! ## What a computation fails with -/

/-- Every error of `x` satisfies `P`. -/
def Errors (P : ε → Prop) (x : Except ε α) : Prop := ∀ e, x = .error e → P e

section Errors

variable {P : ε → Prop}

theorem errors_ok (a : α) : Errors P (.ok a) := by
  intro e h
  cases h

theorem errors_error {e : ε} (h : P e) : Errors P (.error e : Except ε α) := by
  intro e' he
  cases he
  exact h

theorem errors_require {p : Prop} [Decidable p] {e : ε} (h : P e) : Errors P (require p e) := by
  unfold require
  split
  · exact errors_ok ()
  · exact errors_error h

theorem Errors.mono {Q : ε → Prop} {x : Except ε α} (h : Errors P x) (hPQ : ∀ e, P e → Q e) :
    Errors Q x :=
  fun e he => hPQ e (h e he)

theorem Errors.map {x : Except ε α} (h : Errors P x) (f : α → β) : Errors P (x.map f) := by
  intro e he
  cases x with
  | error e' =>
    cases he
    exact h e rfl
  | ok a => cases he

theorem Errors.bind {x : Except ε α} {f : α → Except ε β} (h : Errors P x)
    (hf : ∀ a, Errors P (f a)) : Errors P (x >>= f) := by
  intro e he
  cases x with
  | error e' =>
    cases he
    exact h e rfl
  | ok a => exact hf a e he

theorem Errors.mapM {f : α → Except ε β} {xs : List α} (h : ∀ a, Errors P (f a)) :
    Errors P (xs.mapM f) := by
  induction xs with
  | nil => exact errors_ok []
  | cons a xs ih =>
    rw [List.mapM_cons]
    exact Errors.bind (h a) fun _ => Errors.bind ih fun _ => errors_ok _

/-- Some error of `x` satisfies `P`. -/
def Fails (P : ε → Prop) (x : Except ε α) : Prop := ∃ e, x = .error e ∧ P e

theorem fails_error {e : ε} : Fails P (.error e : Except ε α) ↔ P e := by
  constructor
  · rintro ⟨e', heq, h⟩
    cases heq
    exact h
  · intro h
    exact ⟨e, rfl, h⟩

theorem Errors.not_fails {x : Except ε α} (h : Errors (fun e => ¬ P e) x) : ¬ Fails P x := by
  rintro ⟨e, he, hP⟩
  exact h e he hP

theorem fails_bind {x : Except ε α} {f : α → Except ε β} :
    Fails P (x >>= f) ↔ Fails P x ∨ ∃ a, x = .ok a ∧ Fails P (f a) := by
  constructor
  · rintro ⟨e, he, hP⟩
    rcases bind_eq_error.mp he with hx | ⟨a, ha, hf⟩
    · exact Or.inl ⟨e, hx, hP⟩
    · exact Or.inr ⟨a, ha, e, hf, hP⟩
  · rintro (⟨e, hx, hP⟩ | ⟨a, ha, e, hf, hP⟩)
    · exact ⟨e, bind_eq_error.mpr (Or.inl hx), hP⟩
    · exact ⟨e, bind_eq_error.mpr (Or.inr ⟨a, ha, hf⟩), hP⟩

end Errors

/-! ## What a computation returns -/

/-- Every result of `x` satisfies `P`. -/
def Returns (P : α → Prop) (x : Except ε α) : Prop := ∀ a, x = .ok a → P a

section Returns

variable {P : α → Prop}

theorem returns_ok {a : α} (h : P a) : Returns P (.ok a : Except ε α) := by
  intro a' ha
  cases ha
  exact h

theorem returns_error (e : ε) : Returns P (.error e) := by
  intro a h
  cases h

theorem returns_map {x : Except ε β} {f : β → α} (h : ∀ b, P (f b)) : Returns P (x.map f) := by
  intro a ha
  cases x with
  | error e => cases ha
  | ok b =>
    cases ha
    exact h b

theorem returns_bind {x : Except ε β} {f : β → Except ε α} (h : ∀ b, x = .ok b → Returns P (f b)) :
    Returns P (x >>= f) := by
  intro a ha
  obtain ⟨b, hb, hf⟩ := bind_eq_ok.mp ha
  exact h b hb a hf

end Returns

end Trelyan
