import Mathlib.Data.List.Basic

/-!
# Computations that leave a trace

A computation with a list of the events that happened, and a result.  It has no
result when it panicked, and the trace then holds what happened before.

Two judgements speak about such computations.  `Ends Q x` says that `x` does not
panic and that its trace and result satisfy `Q`; it has a rule for each way to build
a computation, `ends_times` for a loop.  `Emits P Q x` is the special case in which
every event satisfies `P`, so that a computation is proved without looking at its
trace.
-/

namespace Trelyan

/-- A computation with events `E`; the result `none` is a panic. -/
structure Traced (E α : Type) where
  trace : List E
  result : Option α

namespace Traced

variable {E α β S : Type}

/-- A computation after `t` happened. -/
def after (t : List E) (x : Traced E α) : Traced E α := ⟨t ++ x.trace, x.result⟩

instance : Monad (Traced E) where
  pure a := ⟨[], some a⟩
  bind x f :=
    match x.result with
    | none => ⟨x.trace, none⟩
    | some a => (f a).after x.trace

def emit (e : E) : Traced E Unit := ⟨[e], some ()⟩

/-- A step without an event, which panics on `none`. -/
def ofOption (o : Option α) : Traced E α := ⟨[], o⟩

/-- `body`, `n` times. -/
def times : ℕ → (S → Traced E S) → S → Traced E S
  | 0, _, s => pure s
  | n + 1, body, s => body s >>= times n body

/-! ## How a computation ends -/

/-- `x` does not panic, and its trace and result satisfy `Q`. -/
def Ends (Q : List E → α → Prop) (x : Traced E α) : Prop :=
  ∃ a, x.result = some a ∧ Q x.trace a

theorem Ends.mono {Q R : List E → α → Prop} {x : Traced E α} (h : Ends Q x)
    (hQR : ∀ t a, Q t a → R t a) : Ends R x := by
  rcases h with ⟨a, ha, hQ⟩
  exact ⟨a, ha, hQR _ a hQ⟩

theorem ends_pure {Q : List E → α → Prop} {a : α} (h : Q [] a) : Ends Q (pure a : Traced E α) :=
  ⟨a, rfl, h⟩

theorem ends_bind {Q : List E → β → Prop} {x : Traced E α} {f : α → Traced E β}
    (h : Ends (fun t a => Ends (fun t' b => Q (t ++ t') b) (f a)) x) : Ends Q (x >>= f) := by
  rcases x with ⟨t, o⟩
  rcases h with ⟨a, ha, b, hb, hQ⟩
  dsimp only at ha
  subst ha
  exact ⟨b, hb, hQ⟩

theorem ends_emit {Q : List E → Unit → Prop} {e : E} (h : Q [e] ()) : Ends Q (emit e) :=
  ⟨(), rfl, h⟩

theorem ends_ofOption {Q : List E → α → Prop} {o : Option α} {a : α} (ho : o = some a)
    (h : Q [] a) : Ends Q (ofOption o : Traced E α) :=
  ⟨a, ho, h⟩

/-- The rule for a loop: the invariant speaks about the number of rounds, the trace so far and
the state. -/
theorem ends_times {body : S → Traced E S} {n : ℕ} (Inv : ℕ → List E → S → Prop)
    (hstep : ∀ k t s, k < n → Inv k t s → Ends (fun t' s' => Inv (k + 1) (t ++ t') s') (body s))
    {s : S} (h0 : Inv 0 [] s) : Ends (Inv n) (times n body s) := by
  suffices key : ∀ m k t s, k + m = n → Inv k t s →
      Ends (fun t' s' => Inv n (t ++ t') s') (times m body s) from key n 0 [] s (by omega) h0
  intro m
  induction m with
  | zero =>
    intro k t s hk h
    refine ends_pure ?_
    rw [List.append_nil]
    rwa [show n = k by omega]
  | succ m ih =>
    intro k t s hk h
    refine ends_bind ((hstep k t s (by omega) h).mono fun t' s' h' => ?_)
    exact (ih (k + 1) (t ++ t') s' (by omega) h').mono fun _ _ hn => by
      rwa [List.append_assoc] at hn

/-! ## What a computation emits -/

/-- `x` does not panic, every event of it satisfies `P` and its result satisfies `Q`. -/
def Emits (P : E → Prop) (Q : α → Prop) (x : Traced E α) : Prop :=
  Ends (fun t a => (∀ e ∈ t, P e) ∧ Q a) x

section Emits

variable {P : E → Prop} {Q : α → Prop}

theorem emits_pure {a : α} (h : Q a) : Emits P Q (pure a : Traced E α) :=
  ends_pure ⟨fun _ he => absurd he List.not_mem_nil, h⟩

theorem emits_emit {e : E} {Q : Unit → Prop} (he : P e) (h : Q ()) : Emits P Q (emit e) :=
  ends_emit ⟨by simpa using he, h⟩

theorem emits_ofOption {o : Option α} {a : α} (ho : o = some a) (h : Q a) :
    Emits P Q (ofOption o : Traced E α) :=
  ends_ofOption ho ⟨fun _ he => absurd he List.not_mem_nil, h⟩

/-- What is returned may be forgotten. -/
theorem Emits.forget {x : Traced E α} (h : Emits P Q x) : Emits P (fun _ => True) x :=
  h.mono fun _ _ h' => ⟨h'.1, trivial⟩

theorem emits_bind {R : β → Prop} {x : Traced E α} {f : α → Traced E β} (hx : Emits P Q x)
    (hf : ∀ a, Q a → Emits P R (f a)) : Emits P R (x >>= f) := by
  refine ends_bind (hx.mono fun t a h => (hf a h.2).mono fun t' b h' => ⟨?_, h'.2⟩)
  intro e he
  rcases List.mem_append.mp he with ht | ht'
  · exact h.1 e ht
  · exact h'.1 e ht'

/-- A computation that goes one of two ways. -/
theorem emits_ite {c : Prop} [Decidable c] {x y : Traced E α} (hx : Emits P Q x)
    (hy : Emits P Q y) : Emits P Q (if c then x else y) := by
  split
  · exact hx
  · exact hy

end Emits

end Traced

end Trelyan
