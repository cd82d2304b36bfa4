import Mathlib.Logic.Relation

/-!
# Write-once cells

A *cell* is a slot that is filled in two stages.  Someone registers it with a
key and an owner; the owner may hand it over; and the owner may inscribe a
record, once.  The key and the record stay for ever, and nobody but the owner
moves a registered cell on.

`Step actor` is one step of one cell on behalf of `actor`, and
`Steps allowed` any number of steps on behalf of actors that `allowed`
accepts.  The laws at the end are what such a cell is for: permanence of the
key and of the record, and the authority of the owner.
-/

namespace Trelyan.Lifecycle

open Relation

/-- A cell, with keys `κ`, owners `α` and records `ρ`. -/
inductive Cell (κ α ρ : Type) where
  | vacant
  | registered (key : κ) (owner : α)
  | inscribed (key : κ) (owner : α) (record : ρ)

variable {κ α ρ : Type}

namespace Cell

def key? : Cell κ α ρ → Option κ
  | .vacant => none
  | .registered k _ => some k
  | .inscribed k _ _ => some k

def owner? : Cell κ α ρ → Option α
  | .vacant => none
  | .registered _ a => some a
  | .inscribed _ a _ => some a

def record? : Cell κ α ρ → Option ρ
  | .vacant => none
  | .registered _ _ => none
  | .inscribed _ _ r => some r

/-- One step of a cell on behalf of `actor`. -/
inductive Step (actor : α) : Cell κ α ρ → Cell κ α ρ → Prop where
  | stay (x : Cell κ α ρ) : Step actor x x
  | register (key : κ) (owner : α) : Step actor .vacant (.registered key owner)
  | handOver (key : κ) (owner : α) : Step actor (.registered key actor) (.registered key owner)
  | inscribe (key : κ) (record : ρ) :
      Step actor (.registered key actor) (.inscribed key actor record)

/-- Any number of steps on behalf of allowed actors. -/
def Steps (allowed : α → Prop) : Cell κ α ρ → Cell κ α ρ → Prop :=
  ReflTransGen fun x y => ∃ actor, allowed actor ∧ Step actor x y

variable {actor : α} {allowed : α → Prop} {x y : Cell κ α ρ}

theorem Step.steps (h : Step actor x y) (ha : allowed actor) : Steps allowed x y :=
  .single ⟨actor, ha, h⟩

/-! ## One step -/

theorem Step.key_eq {k : κ} (h : Step actor x y) (hk : x.key? = some k) : y.key? = some k := by
  cases h with
  | stay => exact hk
  | register => cases hk
  | handOver => exact hk
  | inscribe => exact hk

/-- An inscribed cell is final. -/
theorem Step.eq_of_record {r : ρ} (h : Step actor x y) (hr : x.record? = some r) : y = x := by
  cases h with
  | stay => rfl
  | register => cases hr
  | handOver => cases hr
  | inscribe => cases hr

/-- Only the owner moves a cell that has one. -/
theorem Step.eq_of_ne_owner {a : α} (h : Step actor x y) (ha : x.owner? = some a)
    (hne : actor ≠ a) : y = x := by
  cases h with
  | stay => rfl
  | register => cases ha
  | handOver => cases ha; exact absurd rfl hne
  | inscribe => cases ha; exact absurd rfl hne

/-! ## Any number of steps -/

theorem Steps.key_eq {k : κ} (h : Steps allowed x y) (hk : x.key? = some k) :
    y.key? = some k := by
  induction h with
  | refl => exact hk
  | tail _ hstep ih =>
    obtain ⟨_, -, hstep⟩ := hstep
    exact hstep.key_eq ih

theorem Steps.eq_of_record {r : ρ} (h : Steps allowed x y) (hr : x.record? = some r) :
    y = x := by
  induction h with
  | refl => rfl
  | tail _ hstep ih =>
    obtain ⟨_, -, hstep⟩ := hstep
    subst ih
    exact hstep.eq_of_record hr

/-- As long as the owner does nothing, a cell stays as it is. -/
theorem Steps.eq_of_owner_idle {a : α} (h : Steps allowed x y) (ha : x.owner? = some a)
    (hidle : ¬ allowed a) : y = x := by
  induction h with
  | refl => rfl
  | tail _ hstep ih =>
    obtain ⟨actor, hactor, hstep⟩ := hstep
    subst ih
    refine hstep.eq_of_ne_owner ha ?_
    rintro rfl
    exact hidle hactor

end Cell

end Trelyan.Lifecycle
