/-!
# Programs that may be cut short

A program that works on a state step by step, may raise, and may be cut short
at any step.  The environment decides what happens to each step.  It passes,
an exception comes out of it, or the process is killed in it.  A step that is
cut short has done nothing, a part, or all of what it does.

An exception can be caught, a kill cannot.  `Triple P p Q` says that from a
state in `P`, whatever the environment does, `p` ends in `Q`.  The rules below
are one for each way to build a program.
-/

namespace Trelyan.Faults

/-- How a run ends. -/
inductive Ending (ε α : Type) where
  | returned (a : α)
  | raised (e : ε)
  | killed

/-- How much of a step was done when it was cut short. -/
inductive Progress where
  | nothing
  | part (n : Nat)
  | everything

/-- What the environment does to one step. -/
inductive Fault (ε : Type) where
  | pass
  | raise (e : ε) (progress : Progress)
  | kill (progress : Progress)

/-- The state and the faults to come.  After the last one every step passes. -/
structure World (ε σ : Type) where
  faults : List (Fault ε)
  state : σ

/-- A program with states `σ`, exceptions `ε` and results `α`. -/
def Proc (ε σ α : Type) := World ε σ → Ending ε α × World ε σ

/-- One step. -/
structure Step (ε σ α : Type) where
  /-- What it does when it passes.  If it raises by itself it changes nothing. -/
  run : σ → Except ε (α × σ)
  /-- What it has done when `n` units of it are done. -/
  part : Nat → σ → σ := fun _ s => s
  /-- The exceptions that can come out of it from outside. -/
  admits : ε → Bool := fun _ => true

namespace Step

variable {ε σ α : Type}

/-- The state after a step that passes. -/
def after (step : Step ε σ α) (s : σ) : σ :=
  match step.run s with
  | .ok (_, s') => s'
  | .error _ => s

/-- The state in which a step is cut short. -/
def cut (step : Step ε σ α) (progress : Progress) (s : σ) : σ :=
  match progress with
  | .nothing => s
  | .part n => step.part n s
  | .everything => step.after s

/-- A step that passes. -/
def pass (step : Step ε σ α) (faults : List (Fault ε)) (s : σ) : Ending ε α × World ε σ :=
  match step.run s with
  | .ok (a, s') => (.returned a, ⟨faults, s'⟩)
  | .error e => (.raised e, ⟨faults, s⟩)

/-- A step without parts has been done when it is cut short, or it has not. -/
theorem cut_of_atomic (step : Step ε σ α) (hpart : ∀ n s, step.part n s = s)
    (progress : Progress) (s : σ) :
    step.cut progress s = s ∨ ∃ a, step.run s = .ok (a, step.cut progress s) := by
  cases progress with
  | nothing => exact Or.inl rfl
  | part n => exact Or.inl (hpart n s)
  | everything =>
    show step.after s = s ∨ ∃ a, step.run s = .ok (a, step.after s)
    unfold after
    cases hrun : step.run s with
    | error e => exact Or.inl rfl
    | ok r => exact Or.inr ⟨r.1, rfl⟩

/-- A step that only reads leaves the state as it was, also when it is cut
short. -/
theorem cut_of_reads {step : Step ε σ α} (hrun : ∀ s a s', step.run s = .ok (a, s') → s' = s)
    (hpart : ∀ n s, step.part n s = s) (progress : Progress) (s : σ) :
    step.cut progress s = s := by
  rcases cut_of_atomic step hpart progress s with h | ⟨a, h⟩
  · exact h
  · exact hrun s a _ h

end Step

namespace Proc

variable {ε σ α β : Type}

instance : Monad (Proc ε σ) where
  pure a := fun w => (.returned a, w)
  bind p f := fun w =>
    match p w with
    | (.returned a, w') => f a w'
    | (.raised e, w') => (.raised e, w')
    | (.killed, w') => (.killed, w')

/-- Perform a step. -/
def perform (step : Step ε σ α) : Proc ε σ α := fun w =>
  match w.faults with
  | [] => step.pass [] w.state
  | .pass :: faults => step.pass faults w.state
  | .raise e progress :: faults =>
    if step.admits e then (.raised e, ⟨faults, step.cut progress w.state⟩)
    else step.pass faults w.state
  | .kill progress :: faults => (.killed, ⟨faults, step.cut progress w.state⟩)

/-- A computation that does not touch the state, as a step. -/
def call (x : Except ε α) : Proc ε σ α := perform { run := fun s => x.map fun a => (a, s) }

/-- A step that reads the state. -/
def get : Proc ε σ σ := perform { run := fun s => .ok (s, s) }

/-- A step that changes the state and does not raise by itself. -/
def modify (f : σ → σ) : Proc ε σ Unit := perform { run := fun s => .ok ((), f s) }

def raise (e : ε) : Proc ε σ α := fun w => (.raised e, w)

/-- `try: p` with a handler for every exception. -/
def tryExcept (p : Proc ε σ α) (handler : ε → Proc ε σ α) : Proc ε σ α := fun w =>
  match p w with
  | (.raised e, w') => handler e w'
  | r => r

/-- `try: p finally: cleanup`.  An exception of the clean-up replaces the one that
`p` raised. -/
def tryFinally (p : Proc ε σ α) (cleanup : Proc ε σ Unit) : Proc ε σ α := do
  let a ← tryExcept p fun e => do
    cleanup
    raise e
  cleanup
  pure a

/-- A program on one half of the state. -/
def onFst {τ : Type} (p : Proc ε σ α) : Proc ε (σ × τ) α := fun w =>
  let r := p ⟨w.faults, w.state.1⟩
  (r.1, ⟨r.2.faults, (r.2.state, w.state.2)⟩)

def onSnd {τ : Type} (p : Proc ε σ α) : Proc ε (τ × σ) α := fun w =>
  let r := p ⟨w.faults, w.state.2⟩
  (r.1, ⟨r.2.faults, (w.state.1, r.2.state)⟩)

/-- A program with a state of its own besides. -/
def withLocal {τ : Type} (t : τ) (p : Proc ε (σ × τ) α) : Proc ε σ α := fun w =>
  let r := p ⟨w.faults, (w.state, t)⟩
  (r.1, ⟨r.2.faults, r.2.state.1⟩)

section Runs

variable {p : Proc ε σ α} {w w' : World ε σ} {a : α} {e : ε}

theorem bind_returned (h : p w = (.returned a, w')) (f : α → Proc ε σ β) :
    (p >>= f) w = f a w' := by
  show (match p w with
    | (.returned a, w') => f a w'
    | (.raised e, w') => (.raised e, w')
    | (.killed, w') => (.killed, w')) = _
  rw [h]

theorem bind_raised (h : p w = (.raised e, w')) (f : α → Proc ε σ β) :
    (p >>= f) w = (.raised e, w') := by
  show (match p w with
    | (.returned a, w') => f a w'
    | (.raised e, w') => (.raised e, w')
    | (.killed, w') => (.killed, w')) = _
  rw [h]

theorem bind_killed (h : p w = (.killed, w')) (f : α → Proc ε σ β) :
    (p >>= f) w = (.killed, w') := by
  show (match p w with
    | (.returned a, w') => f a w'
    | (.raised e, w') => (.raised e, w')
    | (.killed, w') => (.killed, w')) = _
  rw [h]

theorem tryExcept_raised (h : p w = (.raised e, w')) (handler : ε → Proc ε σ α) :
    tryExcept p handler w = handler e w' := by
  unfold tryExcept
  rw [h]

theorem tryExcept_returned (h : p w = (.returned a, w')) (handler : ε → Proc ε σ α) :
    tryExcept p handler w = (.returned a, w') := by
  unfold tryExcept
  rw [h]

theorem tryExcept_killed (h : p w = (.killed, w')) (handler : ε → Proc ε σ α) :
    tryExcept p handler w = (.killed, w') := by
  unfold tryExcept
  rw [h]

/-- What does not use the state of its own comes out of it. -/
theorem withLocal_bind_onFst {τ : Type} (t : τ) (p : Proc ε (σ × τ) α) (f : α → Proc ε σ β) :
    withLocal t (p >>= fun a => onFst (f a)) = withLocal t p >>= f := by
  funext w
  show (let r := (p >>= fun a => onFst (f a)) ⟨w.faults, (w.state, t)⟩
    (r.1, (⟨r.2.faults, r.2.state.1⟩ : World ε σ))) = _
  cases hrun : p ⟨w.faults, (w.state, t)⟩ with
  | mk r w' =>
    have hlocal : withLocal t p w = (r, ⟨w'.faults, w'.state.1⟩) := by
      unfold withLocal
      rw [hrun]
    cases r with
    | returned a =>
      rw [bind_returned hrun, bind_returned hlocal]
      rfl
    | raised e => rw [bind_raised hrun, bind_raised hlocal]
    | killed => rw [bind_killed hrun, bind_killed hlocal]

/-- What follows on the first half leaves the second as it is. -/
theorem bind_onFst_snd {τ : Type} (p : Proc ε (σ × τ) α) (f : α → Proc ε σ β)
    (w : World ε (σ × τ)) :
    ((p >>= fun a => onFst (f a)) w).2.state.2 = (p w).2.state.2 := by
  cases hrun : p w with
  | mk r w' =>
    cases r with
    | returned a =>
      rw [bind_returned hrun]
      rfl
    | raised e => rw [bind_raised hrun]
    | killed => rw [bind_killed hrun]

theorem tryFinally_returned {cleanup : Proc ε σ Unit} {w'' : World ε σ}
    (h : p w = (.returned a, w')) (hc : cleanup w' = (.returned (), w'')) :
    tryFinally p cleanup w = (.returned a, w'') := by
  unfold tryFinally
  have htry : tryExcept p (fun e => do cleanup; raise e) w = (.returned a, w') := by
    exact tryExcept_returned h _
  rw [bind_returned htry, bind_returned hc]
  rfl

theorem tryFinally_raised {cleanup : Proc ε σ Unit} {w'' : World ε σ}
    (h : p w = (.raised e, w')) (hc : cleanup w' = (.returned (), w'')) :
    tryFinally p cleanup w = (.raised e, w'') := by
  unfold tryFinally
  have htry : tryExcept p (fun e => do cleanup; raise e) w = (.raised e, w'') := by
    rw [tryExcept_raised h, bind_returned hc]
    rfl
  rw [bind_raised htry]

theorem onFst_run {τ : Type} {s s' : σ} {t : τ} {faults faults' : List (Fault ε)} {r : Ending ε α}
    (h : p ⟨faults, s⟩ = (r, ⟨faults', s'⟩)) :
    onFst p ⟨faults, (s, t)⟩ = (r, ⟨faults', (s', t)⟩) := by
  unfold onFst
  rw [h]

theorem onSnd_run {τ : Type} {s s' : σ} {t : τ} {faults faults' : List (Fault ε)} {r : Ending ε α}
    (h : p ⟨faults, s⟩ = (r, ⟨faults', s'⟩)) :
    onSnd p ⟨faults, (t, s)⟩ = (r, ⟨faults', (t, s')⟩) := by
  unfold onSnd
  rw [h]

theorem withLocal_run {τ : Type} {q : Proc ε (σ × τ) α} {s s' : σ} {t t' : τ}
    {faults faults' : List (Fault ε)} {r : Ending ε α}
    (h : q ⟨faults, (s, t)⟩ = (r, ⟨faults', (s', t')⟩)) :
    withLocal t q ⟨faults, s⟩ = (r, ⟨faults', s'⟩) := by
  unfold withLocal
  rw [h]

/-- Without faults a step passes. -/
theorem perform_ok {step : Step ε σ α} {s s' : σ} (h : step.run s = .ok (a, s')) :
    perform step ⟨[], s⟩ = (.returned a, ⟨[], s'⟩) := by
  show step.pass [] s = _
  unfold Step.pass
  rw [h]

theorem perform_error {step : Step ε σ α} {s : σ} (h : step.run s = .error e) :
    perform step ⟨[], s⟩ = (.raised e, ⟨[], s⟩) := by
  show step.pass [] s = _
  unfold Step.pass
  rw [h]

theorem call_ok {x : Except ε α} (h : x = .ok a) (s : σ) :
    call x ⟨[], s⟩ = (.returned a, ⟨[], s⟩) := by
  refine perform_ok ?_
  rw [h]
  rfl

theorem call_error {x : Except ε α} (h : x = .error e) (s : σ) :
    call x ⟨[], s⟩ = (.raised e, ⟨[], s⟩) := by
  refine perform_error ?_
  rw [h]
  rfl

theorem get_run (s : σ) : (get : Proc ε σ σ) ⟨[], s⟩ = (.returned s, ⟨[], s⟩) := rfl

end Runs

end Proc

/-! ## Programs that only read -/

section Reads

variable {ε σ α β : Type}

/-- Without faults the program ends, and leaves the state as it was. -/
def Proc.Reads (p : Proc ε σ α) : Prop :=
  ∀ s, ∃ r, p ⟨[], s⟩ = (r, ⟨[], s⟩) ∧ r ≠ .killed

theorem reads_pure (a : α) : (pure a : Proc ε σ α).Reads := fun _ => ⟨.returned a, rfl, nofun⟩

theorem reads_raise (e : ε) : (Proc.raise e : Proc ε σ α).Reads := fun _ => ⟨.raised e, rfl, nofun⟩

theorem reads_get : (Proc.get : Proc ε σ σ).Reads := fun s => ⟨.returned s, rfl, nofun⟩

theorem reads_call (x : Except ε α) : (Proc.call x : Proc ε σ α).Reads := by
  intro s
  cases x with
  | ok a => exact ⟨.returned a, rfl, nofun⟩
  | error e => exact ⟨.raised e, rfl, nofun⟩

theorem Proc.Reads.bind {p : Proc ε σ α} {f : α → Proc ε σ β} (hp : p.Reads)
    (hf : ∀ a, (f a).Reads) : (p >>= f).Reads := by
  intro s
  obtain ⟨r, hrun, hr⟩ := hp s
  cases r with
  | returned a =>
    rw [Proc.bind_returned hrun]
    exact hf a s
  | raised e => exact ⟨.raised e, Proc.bind_raised hrun f, nofun⟩
  | killed => exact absurd rfl hr

theorem Proc.Reads.tryExcept {p : Proc ε σ α} {handler : ε → Proc ε σ α} (hp : p.Reads)
    (hh : ∀ e, (handler e).Reads) : (Proc.tryExcept p handler).Reads := by
  intro s
  obtain ⟨r, hrun, hr⟩ := hp s
  cases r with
  | returned a => exact ⟨.returned a, Proc.tryExcept_returned hrun handler, nofun⟩
  | raised e =>
    rw [Proc.tryExcept_raised hrun]
    exact hh e s
  | killed => exact absurd rfl hr

end Reads

/-! ## Triples -/

section Triples

variable {ε σ α β : Type}

/-- A condition on how a run ends and on the state that it leaves. -/
abbrev Post (ε σ α : Type) := Ending ε α → σ → Prop

/-- `Q`, except that a run that returns must satisfy `R`. -/
def Post.returning (Q : Post ε σ β) (R : α → σ → Prop) : Post ε σ α
  | .returned a, s => R a s
  | .raised e, s => Q (.raised e) s
  | .killed, s => Q .killed s

/-- `Q`, except that a run that raises must satisfy `R`. -/
def Post.raising (Q : Post ε σ α) (R : ε → σ → Prop) : Post ε σ α
  | .returned a, s => Q (.returned a) s
  | .raised e, s => R e s
  | .killed, s => Q .killed s

/-- From a state in `P` the program ends in `Q`, whatever faults occur. -/
def Triple (P : σ → Prop) (p : Proc ε σ α) (Q : Post ε σ α) : Prop :=
  ∀ w, P w.state → Q (p w).1 (p w).2.state

variable {P P' : σ → Prop} {Q Q' : Post ε σ α}

theorem Triple.conseq {p : Proc ε σ α} (h : Triple P p Q) (hP : ∀ s, P' s → P s)
    (hQ : ∀ r s, Q r s → Q' r s) : Triple P' p Q' :=
  fun w hw => hQ _ _ (h w (hP _ hw))

theorem Triple.and {p : Proc ε σ α} (h : Triple P p Q) (h' : Triple P p Q') :
    Triple P p fun r s => Q r s ∧ Q' r s :=
  fun w hw => ⟨h w hw, h' w hw⟩

/-- A precondition that follows from the states it is asked of. -/
theorem Triple.of_states {p : Proc ε σ α} (h : ∀ s, P s → Triple (· = s) p Q) : Triple P p Q :=
  fun w hw => h w.state hw w rfl

theorem triple_pure {a : α} (h : ∀ s, P s → Q (.returned a) s) :
    Triple P (pure a : Proc ε σ α) Q :=
  fun w hw => h w.state hw

theorem triple_raise {e : ε} (h : ∀ s, P s → Q (.raised e) s) :
    Triple P (Proc.raise e : Proc ε σ α) Q :=
  fun w hw => h w.state hw

theorem triple_bind {p : Proc ε σ α} {f : α → Proc ε σ β} {Q : Post ε σ β}
    (R : α → σ → Prop) (hp : Triple P p (Q.returning R)) (hf : ∀ a, Triple (R a) (f a) Q) :
    Triple P (p >>= f) Q := by
  intro w hw
  have h := hp w hw
  cases hrun : p w with
  | mk r w' =>
    rw [hrun] at h
    cases r with
    | returned a =>
      rw [Proc.bind_returned hrun]
      exact hf a w' h
    | raised e =>
      rw [Proc.bind_raised hrun]
      exact h
    | killed =>
      rw [Proc.bind_killed hrun]
      exact h

theorem triple_tryExcept {p : Proc ε σ α} {handler : ε → Proc ε σ α} (R : ε → σ → Prop)
    (hp : Triple P p (Q.raising R)) (hh : ∀ e, Triple (R e) (handler e) Q) :
    Triple P (Proc.tryExcept p handler) Q := by
  intro w hw
  have h := hp w hw
  cases hrun : p w with
  | mk r w' =>
    rw [hrun] at h
    cases r with
    | returned a =>
      rw [Proc.tryExcept_returned hrun]
      exact h
    | raised e =>
      rw [Proc.tryExcept_raised hrun]
      exact hh e w' h
    | killed =>
      rw [Proc.tryExcept_killed hrun]
      exact h

/-- A step: what holds when it passes, when it raises by itself, and in every
state in which it is cut short. -/
theorem triple_perform {step : Step ε σ α}
    (hrun : ∀ s a s', P s → step.run s = .ok (a, s') → Q (.returned a) s')
    (herror : ∀ s e, P s → step.run s = .error e → Q (.raised e) s)
    (hcut : ∀ s progress, P s →
      (∀ e, step.admits e = true → Q (.raised e) (step.cut progress s)) ∧
        Q .killed (step.cut progress s)) :
    Triple P (Proc.perform step) Q := by
  intro w hw
  have hpass : ∀ faults, Q (step.pass faults w.state).1 (step.pass faults w.state).2.state := by
    intro faults
    unfold Step.pass
    cases hstep : step.run w.state with
    | error e => exact herror _ e hw hstep
    | ok r => exact hrun _ r.1 r.2 hw hstep
  unfold Proc.perform
  split
  · exact hpass []
  · exact hpass _
  · split
    · rename_i hadmits
      exact (hcut _ _ hw).1 _ hadmits
    · exact hpass _
  · exact (hcut _ _ hw).2

/-- A step without parts: what holds when it has done nothing, and what holds when
it has been done, whether it then returns or not. -/
theorem triple_atomic {step : Step ε σ α} (hpart : ∀ n s, step.part n s = s)
    (hbefore : ∀ s, P s → (∀ e, Q (.raised e) s) ∧ Q .killed s)
    (hafter : ∀ s a s', P s → step.run s = .ok (a, s') →
      Q (.returned a) s' ∧ (∀ e, Q (.raised e) s') ∧ Q .killed s') :
    Triple P (Proc.perform step) Q := by
  refine triple_perform ?_ ?_ ?_
  · intro s a s' hs hrun
    exact (hafter s a s' hs hrun).1
  · intro s e hs _
    exact (hbefore s hs).1 e
  · intro s progress hs
    rcases Step.cut_of_atomic step hpart progress s with heq | ⟨a, hrun⟩
    · rw [heq]
      exact ⟨fun e _ => (hbefore s hs).1 e, (hbefore s hs).2⟩
    · have h := (hafter s a _ hs hrun).2
      exact ⟨fun e _ => h.1 e, h.2⟩

/-- A computation that does not touch the state leaves it as it was. -/
theorem triple_call {x : Except ε α}
    (hreturned : ∀ s a, P s → x = .ok a → Q (.returned a) s)
    (hraised : ∀ s e, P s → Q (.raised e) s) (hkilled : ∀ s, P s → Q .killed s) :
    Triple P (Proc.call x) Q := by
  refine triple_atomic (fun _ _ => rfl) (fun s hs => ⟨fun e => hraised s e hs, hkilled s hs⟩) ?_
  intro s a s' hs hrun
  cases x with
  | error e => cases hrun
  | ok b =>
    cases hrun
    exact ⟨hreturned s _ hs rfl, fun e => hraised s e hs, hkilled s hs⟩

/-- A program on one half of the state leaves the other half as it was. -/
theorem triple_onFst {τ : Type} {p : Proc ε σ α} {P : σ × τ → Prop} {Q : Post ε (σ × τ) α}
    (h : ∀ t, Triple (fun s => P (s, t)) p fun r s => Q r (s, t)) :
    Triple P (Proc.onFst p) Q :=
  fun w hw => h w.state.2 ⟨w.faults, w.state.1⟩ hw

theorem triple_withLocal {τ : Type} {t : τ} {p : Proc ε (σ × τ) α} {P : σ → Prop}
    {Q : Post ε σ α} (h : Triple (fun s => P s.1) p fun r s => Q r s.1) :
    Triple P (Proc.withLocal t p) Q :=
  fun w hw => h ⟨w.faults, (w.state, t)⟩ hw

end Triples

/-! ## Invariants -/

section Keeps

variable {ε σ τ α β : Type} {I : σ → Prop} {R : α → Prop} {S : β → Prop}

/-- `I` holds however the run ends, and what it returns satisfies `R`. -/
def Post.keeps (I : σ → Prop) (R : α → Prop) : Post ε σ α :=
  fun r s => I s ∧ ∀ a, r = .returned a → R a

theorem keeps_weaken {p : Proc ε σ α} {R' : α → Prop} (h : Triple I p (Post.keeps I R))
    (hR : ∀ a, R a → R' a) : Triple I p (Post.keeps I R') :=
  h.conseq (fun _ h => h) fun _ _ h => ⟨h.1, fun a heq => hR a (h.2 a heq)⟩

theorem keeps_pure {a : α} (ha : R a) : Triple I (pure a : Proc ε σ α) (Post.keeps I R) := by
  refine triple_pure ?_
  intro s hs
  refine ⟨hs, ?_⟩
  intro b heq
  cases heq
  exact ha

theorem keeps_raise {e : ε} : Triple I (Proc.raise e : Proc ε σ α) (Post.keeps I R) :=
  triple_raise fun _ hs => ⟨hs, nofun⟩

theorem keeps_call (x : Except ε α) :
    Triple I (Proc.call x : Proc ε σ α) (Post.keeps I fun a => x = .ok a) := by
  refine triple_call ?_ (fun _ _ hs => ⟨hs, nofun⟩) (fun _ hs => ⟨hs, nofun⟩)
  intro s a hs ha
  refine ⟨hs, ?_⟩
  intro b heq
  cases heq
  exact ha

theorem keeps_bind {p : Proc ε σ α} {f : α → Proc ε σ β} (hp : Triple I p (Post.keeps I R))
    (hf : ∀ a, R a → Triple I (f a) (Post.keeps I S)) : Triple I (p >>= f) (Post.keeps I S) := by
  refine triple_bind (fun a s => I s ∧ R a) ?_ ?_
  · refine hp.conseq (fun _ h => h) ?_
    intro r s h
    cases r with
    | returned a => exact ⟨h.1, h.2 a rfl⟩
    | raised e => exact ⟨h.1, nofun⟩
    | killed => exact ⟨h.1, nofun⟩
  · intro a w hw
    exact hf a hw.2 w hw.1

/-- A handler that keeps the invariant, and returns what the program may. -/
theorem keeps_tryExcept {p : Proc ε σ α} {handler : ε → Proc ε σ α}
    (hp : Triple I p (Post.keeps I R)) (hh : ∀ e, Triple I (handler e) (Post.keeps I R)) :
    Triple I (Proc.tryExcept p handler) (Post.keeps I R) := by
  refine triple_tryExcept (fun _ s => I s) ?_ hh
  refine hp.conseq (fun _ h => h) ?_
  intro r s h
  cases r with
  | returned a => exact h
  | raised e => exact h.1
  | killed => exact h

theorem keeps_tryFinally {p : Proc ε σ α} {cleanup : Proc ε σ Unit}
    (hp : Triple I p (Post.keeps I R)) (hc : Triple I cleanup (Post.keeps I fun _ => True)) :
    Triple I (Proc.tryFinally p cleanup) (Post.keeps I R) :=
  keeps_bind (keeps_tryExcept hp fun _ => keeps_bind hc fun _ _ => keeps_raise) fun _ ha =>
    keeps_bind hc fun _ _ => keeps_pure ha

/-- Anything keeps nothing. -/
theorem keeps_true (p : Proc ε σ α) :
    Triple (fun _ => True) p (Post.keeps (fun _ => True) fun _ => True) :=
  fun _ _ => ⟨trivial, fun _ _ => trivial⟩

/-- A program on the second half of the state keeps what holds of the first. -/
theorem keeps_onSnd {p : Proc ε τ α} (h : Triple (fun _ => True) p (Post.keeps (fun _ => True) R)) :
    Triple (fun t => I t.1) (Proc.onSnd p) (Post.keeps (fun t : σ × τ => I t.1) R) :=
  fun w hw => ⟨hw, (h ⟨w.faults, w.state.2⟩ trivial).2⟩

end Keeps

/-! ## Runs without kills -/

section Enduring

variable {ε σ α β : Type}

def Fault.isKill : Fault ε → Bool
  | .kill _ => true
  | _ => false

/-- Without a kill among the faults the program is not killed. -/
def Proc.Enduring (p : Proc ε σ α) : Prop :=
  ∀ w, (∀ fault ∈ w.faults, fault.isKill = false) →
    (p w).1 ≠ .killed ∧ ∀ fault ∈ (p w).2.faults, fault.isKill = false

theorem enduring_pure (a : α) : (pure a : Proc ε σ α).Enduring :=
  fun _ hw => ⟨nofun, hw⟩

theorem enduring_raise (e : ε) : (Proc.raise e : Proc ε σ α).Enduring :=
  fun _ hw => ⟨nofun, hw⟩

theorem enduring_perform (step : Step ε σ α) : (Proc.perform step).Enduring := by
  intro w hw
  have hpass : ∀ faults : List (Fault ε), (∀ fault ∈ faults, fault.isKill = false) →
      (step.pass faults w.state).1 ≠ .killed ∧
        ∀ fault ∈ (step.pass faults w.state).2.faults, fault.isKill = false := by
    intro faults hfaults
    unfold Step.pass
    split
    · exact ⟨nofun, hfaults⟩
    · exact ⟨nofun, hfaults⟩
  unfold Proc.perform
  split
  · exact hpass [] nofun
  · rename_i faults hfaults
    rw [hfaults] at hw
    exact hpass _ fun fault h => hw fault (List.mem_cons_of_mem _ h)
  · rename_i e progress faults hfaults
    rw [hfaults] at hw
    split
    · exact ⟨nofun, fun fault h => hw fault (List.mem_cons_of_mem _ h)⟩
    · exact hpass _ fun fault h => hw fault (List.mem_cons_of_mem _ h)
  · rename_i progress faults hfaults
    rw [hfaults] at hw
    cases hw _ List.mem_cons_self

theorem Proc.Enduring.bind {p : Proc ε σ α} {f : α → Proc ε σ β} (hp : p.Enduring)
    (hf : ∀ a, (f a).Enduring) : (p >>= f).Enduring := by
  intro w hw
  have h := hp w hw
  cases hrun : p w with
  | mk r w' =>
    rw [hrun] at h
    cases r with
    | returned a =>
      rw [Proc.bind_returned hrun]
      exact hf a w' h.2
    | raised e =>
      rw [Proc.bind_raised hrun]
      exact ⟨nofun, h.2⟩
    | killed => exact absurd rfl h.1

theorem Proc.Enduring.tryExcept {p : Proc ε σ α} {handler : ε → Proc ε σ α} (hp : p.Enduring)
    (hh : ∀ e, (handler e).Enduring) : (Proc.tryExcept p handler).Enduring := by
  intro w hw
  have h := hp w hw
  cases hrun : p w with
  | mk r w' =>
    rw [hrun] at h
    cases r with
    | raised e =>
      rw [Proc.tryExcept_raised hrun]
      exact hh e w' h.2
    | returned a =>
      rw [Proc.tryExcept_returned hrun]
      exact h
    | killed => exact absurd rfl h.1

end Enduring

end Trelyan.Faults
