import Mathlib.Tactic.ByContra

/-!
# Runs of atomic transaction groups

A ledger does not execute single transactions.  It executes *groups*: the
transactions of a group run in order, each on the state the previous one
left, and if one of them fails the whole group leaves no trace.  Between
groups the environment moves on, for instance to the next block.

`Machine` is any such system: a partial function that executes one
transaction, and a total function for the environment.  `run` is the state
after a list of events, and `CommittedAt` says that a transaction of the run
was committed, and between which two states.  A transaction of a group that
fails later is executed but not committed.

`run_induction` is the rule that every proof about runs uses: a property that
holds at the start, and that every committed transaction and every event of
the environment keeps, holds at the end.  The step premise may use that the
transaction is committed in this very run, so the same rule serves invariants,
frames and the search for the transaction that caused a change
(`exists_committedAt`).
-/

namespace Trelyan.Atomic

/-- A system that executes transactions `τ` on states `σ`, in an environment
with events `ε`. -/
structure Machine (σ τ ε : Type) where
  /-- Execute one transaction, or fail. -/
  exec : τ → σ → Option σ
  /-- What the environment does to the state. -/
  advance : ε → σ → σ

/-- One event of a run: a group of transactions, or the environment. -/
inductive Event (τ ε : Type) where
  | group (txns : List τ)
  | env (e : ε)

namespace Machine

variable {σ τ ε : Type} (M : Machine σ τ ε)

/-- The transactions of a group in order.  The first failure fails the
group. -/
def execGroup : List τ → σ → Option σ
  | [], s => some s
  | t :: ts, s => (M.exec t s).bind (execGroup ts)

/-- One event.  A failed group is reverted. -/
def step (s : σ) : Event τ ε → σ
  | .group txns => (M.execGroup txns s).getD s
  | .env e => M.advance e s

/-- The state after a list of events. -/
def run (s : σ) (events : List (Event τ ε)) : σ := events.foldl M.step s

/-- `t` is a transaction of a successful group of the run `events` from `s`,
and it took the state `s₁` to the state `s₂`. -/
def CommittedAt (s : σ) (events : List (Event τ ε)) (t : τ) (s₁ s₂ : σ) : Prop :=
  ∃ before pre post after,
    events = before ++ .group (pre ++ t :: post) :: after ∧
    M.execGroup pre (M.run s before) = some s₁ ∧
    M.exec t s₁ = some s₂ ∧
    (M.execGroup post s₂).isSome

/-- `s'` can be reached from `s`. -/
def Reaches (s s' : σ) : Prop := ∃ events, M.run s events = s'

variable {M}

@[simp] theorem run_nil (s : σ) : M.run s [] = s := rfl

@[simp] theorem run_cons (s : σ) (e : Event τ ε) (events : List (Event τ ε)) :
    M.run s (e :: events) = M.run (M.step s e) events := rfl

theorem run_append (s : σ) (es₁ es₂ : List (Event τ ε)) :
    M.run s (es₁ ++ es₂) = M.run (M.run s es₁) es₂ := by
  rw [run, List.foldl_append]
  rfl

theorem Reaches.refl (s : σ) : M.Reaches s s := ⟨[], rfl⟩

theorem Reaches.trans {s s' s'' : σ} (h : M.Reaches s s') (h' : M.Reaches s' s'') :
    M.Reaches s s'' := by
  obtain ⟨es, rfl⟩ := h
  obtain ⟨es', rfl⟩ := h'
  exact ⟨es ++ es', run_append s es es'⟩

theorem execGroup_append (g₁ g₂ : List τ) (s : σ) :
    M.execGroup (g₁ ++ g₂) s = (M.execGroup g₁ s).bind (M.execGroup g₂) := by
  induction g₁ generalizing s with
  | nil => rfl
  | cons t ts ih =>
    rw [List.cons_append, execGroup, execGroup]
    cases M.exec t s with
    | none => rfl
    | some s' => exact ih s'

/-- A group that succeeds, cut at one of its transactions. -/
theorem execGroup_cut {pre post : List τ} {t : τ} {s s' : σ}
    (h : M.execGroup (pre ++ t :: post) s = some s') :
    ∃ s₁ s₂, M.execGroup pre s = some s₁ ∧ M.exec t s₁ = some s₂ ∧
      M.execGroup post s₂ = some s' := by
  rw [execGroup_append] at h
  obtain ⟨s₁, h₁, h⟩ := Option.bind_eq_some_iff.mp h
  obtain ⟨s₂, h₂, h⟩ := Option.bind_eq_some_iff.mp h
  exact ⟨s₁, s₂, h₁, h₂, h⟩

theorem step_group_of_some {txns : List τ} {s s' : σ} (h : M.execGroup txns s = some s') :
    M.step s (.group txns) = s' := by
  rw [step, h]
  rfl

/-- A failed group leaves the state exactly as it was. -/
theorem step_group_of_none {txns : List τ} {s : σ} (h : M.execGroup txns s = none) :
    M.step s (.group txns) = s := by
  rw [step, h]
  rfl

/-- What every transaction keeps, a successful group keeps.  The premise may
use that the transaction stands in the group. -/
theorem execGroup_induction {P : σ → Prop} {txns : List τ} {s s' : σ}
    (h : M.execGroup txns s = some s') (h0 : P s)
    (hexec : ∀ pre t post s₁ s₂, txns = pre ++ t :: post → M.execGroup pre s = some s₁ →
      M.exec t s₁ = some s₂ → M.execGroup post s₂ = some s' → P s₁ → P s₂) : P s' := by
  -- The induction moves one transaction at a time from `post` to `pre`.
  suffices hall : ∀ post pre s₁, txns = pre ++ post → M.execGroup pre s = some s₁ →
      M.execGroup post s₁ = some s' → P s₁ → P s' from hall txns [] s rfl rfl h h0
  intro post
  induction post with
  | nil =>
    intro pre s₁ _ _ hpost hP
    cases hpost
    exact hP
  | cons t post ih =>
    intro pre s₁ htxns hpre hpost hP
    obtain ⟨s₂, ht, hpost⟩ := Option.bind_eq_some_iff.mp hpost
    have hpre' : M.execGroup (pre ++ [t]) s = some s₂ := by
      rw [execGroup_append, hpre]
      simp [execGroup, ht]
    exact ih (pre ++ [t]) s₂ (by simp [htxns]) hpre' hpost
      (hexec pre t post s₁ s₂ htxns hpre ht hpost hP)

/-- The induction rule for runs. -/
theorem run_induction {P : σ → Prop} {s : σ} {events : List (Event τ ε)} (h0 : P s)
    (hexec : ∀ t s₁ s₂, M.CommittedAt s events t s₁ s₂ → P s₁ → P s₂)
    (henv : ∀ e s₁, P s₁ → P (M.advance e s₁)) : P (M.run s events) := by
  suffices hall : ∀ after before, events = before ++ after → P (M.run s before) →
      P (M.run (M.run s before) after) from hall events [] rfl h0
  intro after
  induction after with
  | nil => exact fun _ _ hP => hP
  | cons e after ih =>
    intro before hevents hP
    have hstep : P (M.step (M.run s before) e) := by
      cases e with
      | env e => exact henv e _ hP
      | group txns =>
        cases hg : M.execGroup txns (M.run s before) with
        | none => rwa [step_group_of_none hg]
        | some s' =>
          rw [step_group_of_some hg]
          refine execGroup_induction hg hP fun pre t post s₁ s₂ htxns hpre ht hpost => ?_
          exact hexec t s₁ s₂
            ⟨before, pre, post, after, htxns ▸ hevents, hpre, ht, by simp [hpost]⟩
    have hrun : M.run s (before ++ [e]) = M.step (M.run s before) e := by
      rw [run_append]
      rfl
    have := ih (before ++ [e]) (by simp [hevents]) (by rwa [hrun])
    rwa [hrun] at this

theorem CommittedAt.exec {s s₁ s₂ : σ} {events : List (Event τ ε)} {t : τ}
    (h : M.CommittedAt s events t s₁ s₂) : M.exec t s₁ = some s₂ := by
  obtain ⟨_, _, _, _, _, _, ht, _⟩ := h
  exact ht

/-- After a committed transaction the run goes on to its end. -/
theorem CommittedAt.reaches {s s₁ s₂ : σ} {events : List (Event τ ε)} {t : τ}
    (h : M.CommittedAt s events t s₁ s₂) : M.Reaches s₂ (M.run s events) := by
  obtain ⟨before, pre, post, after, rfl, hpre, ht, hpost⟩ := h
  obtain ⟨s₃, hpost⟩ := Option.isSome_iff_exists.mp hpost
  have hgroup : M.execGroup (pre ++ t :: post) (M.run s before) = some s₃ := by
    rw [execGroup_append, hpre, Option.bind_some, execGroup, ht, Option.bind_some, hpost]
  refine ⟨.group post :: after, ?_⟩
  rw [run_cons, step_group_of_some hpost, run_append, run_cons, step_group_of_some hgroup]

/-- A committed transaction stands in a group of the run. -/
theorem CommittedAt.mem {s s₁ s₂ : σ} {events : List (Event τ ε)} {t : τ}
    (h : M.CommittedAt s events t s₁ s₂) : ∃ txns, .group txns ∈ events ∧ t ∈ txns := by
  obtain ⟨before, pre, post, after, rfl, _⟩ := h
  exact ⟨pre ++ t :: post, by simp, by simp⟩

/-- A property of states that every transaction and the environment keep is
an invariant of every run. -/
theorem run_invariant {P : σ → Prop} (hexec : ∀ t s s', P s → M.exec t s = some s' → P s')
    (henv : ∀ e s, P s → P (M.advance e s)) {s : σ} (h0 : P s) (events : List (Event τ ε)) :
    P (M.run s events) :=
  run_induction h0 (fun t s₁ s₂ hc hP => hexec t s₁ s₂ hP hc.exec) henv

/-- The state before a committed transaction has every invariant of the
machine. -/
theorem CommittedAt.invariant {P : σ → Prop}
    (hexec : ∀ t s s', P s → M.exec t s = some s' → P s')
    (henv : ∀ e s, P s → P (M.advance e s)) {s s₁ s₂ : σ} {events : List (Event τ ε)} {t : τ}
    (h : M.CommittedAt s events t s₁ s₂) (h0 : P s) : P s₁ := by
  obtain ⟨before, pre, _, _, _, hpre, _, _⟩ := h
  exact execGroup_induction hpre (run_invariant hexec henv h0 before)
    fun _ t _ s₁ s₂ _ _ ht _ hP => hexec t s₁ s₂ hP ht

/-- If `Q` fails at the start and holds at the end, and the environment
cannot bring it about, then some committed transaction did. -/
theorem exists_committedAt {I Q : σ → Prop}
    (hexec : ∀ t s s', I s → M.exec t s = some s' → I s')
    (henv : ∀ e s, I s → I (M.advance e s)) {s : σ} {events : List (Event τ ε)} (hI : I s)
    (hQenv : ∀ e s₁, ¬ Q s₁ → ¬ Q (M.advance e s₁)) (h0 : ¬ Q s) (h1 : Q (M.run s events)) :
    ∃ t s₁ s₂, M.CommittedAt s events t s₁ s₂ ∧ I s₁ ∧ ¬ Q s₁ ∧ Q s₂ := by
  by_contra hno
  refine run_induction (P := fun s₁ => I s₁ ∧ ¬ Q s₁) ⟨hI, h0⟩ ?_ ?_ |>.2 h1
  · rintro t s₁ s₂ hc ⟨hI₁, hQ₁⟩
    exact ⟨hexec t s₁ s₂ hI₁ hc.exec, fun hQ₂ => hno ⟨t, s₁, s₂, hc, hI₁, hQ₁, hQ₂⟩⟩
  · exact fun e s₁ h => ⟨henv e s₁ h.1, hQenv e s₁ h.2⟩

end Machine

end Trelyan.Atomic
