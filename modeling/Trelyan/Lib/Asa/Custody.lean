import Mathlib.Data.Finsupp.Weight
import Trelyan.Lib.Asa.Basic

/-!
# Custody of an asset

What the rules of the ledger promise to the holders of an asset.

There are four groups.

* What one transaction does to one asset.  A transfer is a sequence of
  `HoldingStep`s, each of which opens, closes or changes the amount of one
  holding, and a sequence of `Shift`s, each of which moves units out of the
  sender.  `exec_of_ne` is the frame lemma for every other asset.
* The ledger invariant.  `WellFormed` says that the amounts of an asset add
  up to its total, that its creator has a holding, and that an id that was
  never handed out names nothing.  `exec_wellFormed` is its step lemma.
* Sealed assets.  An asset whose manager, freeze and clawback addresses are
  all zero changes by transfers only (`exec_sealed`).
* Safe custody.  `SafeCustody` collects what the holder of a single unit
  wants: nobody else holds it, it leaves only by the holder's own
  transaction, the parameters stay, no holding is frozen, and the unit can
  be moved to anybody who opted in.  `safeCustody_iff` says when a sealed
  asset has it in every later state.
-/

namespace Trelyan.Asa

open Relation Finsupp

variable {α ι : Type} [DecidableEq α] {l l' : Ledger α ι}

/-! ## What one transaction does to one asset -/

/-- The asset a transaction names. -/
def Txn.asset {α ι : Type} : Txn α ι → ι
  | .create _ c .. => c
  | .config _ c .. => c
  | .destroy _ c => c
  | .transfer _ c .. => c
  | .clawback _ c .. => c
  | .freeze _ c .. => c

/-- The units of `c` after `n` of them left `src` for some other account. -/
def Shift (c : ι) (src : α) (l l' : Ledger α ι) : Prop :=
  ∃ n dst, n ≤ l.amount src c ∧
    ∀ a, l'.amount a c + (if a = src then n else 0) = l.amount a c + (if a = dst then n else 0)

theorem Shift.of_eq {c : ι} {src : α} (h : ∀ a, l'.amount a c = l.amount a c) :
    Shift c src l l' :=
  ⟨0, src, Nat.zero_le _, fun a => by simp [h a]⟩

/-- A shift out of `src` lowers no other account. -/
theorem Shift.le_of_ne {c : ι} {src a : α} (h : Shift c src l l') (ha : a ≠ src) :
    l.amount a c ≤ l'.amount a c := by
  obtain ⟨n, dst, -, hn⟩ := h
  have := hn a
  rw [if_neg ha] at this
  omega

variable [DecidableEq ι]

theorem takeOut_cases {a : α} {c : ι} {n : Nat} {b : Bool} (h : takeOut l a c n b = some l') :
    (n = 0 ∧ l' = l) ∨ ∃ h, l.holding a c = some h ∧ n ≤ h.amount ∧
      l' = l.setHolding a c (some { h with amount := h.amount - n }) := by
  unfold takeOut at h
  split at h
  · rename_i hn
    cases h
    exact Or.inl ⟨hn, rfl⟩
  · split at h
    · cases h
    · rename_i hold hhold
      obtain ⟨⟨-, hn⟩, rfl⟩ : _ ∧ _ = l' := by simpa using h
      exact Or.inr ⟨hold, hhold, hn, rfl⟩

theorem putIn_cases {a : α} {c : ι} {n : Nat} {b : Bool} (h : putIn l a c n b = some l') :
    (n = 0 ∧ l' = l) ∨ ∃ h, l.holding a c = some h ∧
      l' = l.setHolding a c (some { h with amount := h.amount + n }) := by
  unfold putIn at h
  split at h
  · rename_i hn
    cases h
    exact Or.inl ⟨hn, rfl⟩
  · split at h
    · cases h
    · rename_i hold hhold
      obtain ⟨-, rfl⟩ : _ ∧ _ = l' := by simpa using h
      exact Or.inr ⟨hold, hhold, rfl⟩

/-- A move is a shift of the units. -/
theorem move_shift {c : ι} {n : Nat} {src dst : α} {b : Bool}
    (h : move l c n src dst b = some l') : Shift c src l l' := by
  obtain ⟨l₁, h₁, h₂⟩ := Option.bind_eq_some_iff.mp h
  rcases takeOut_cases h₁ with ⟨rfl, rfl⟩ | ⟨hs, hhs, hn, rfl⟩
  · rcases putIn_cases h₂ with ⟨-, rfl⟩ | ⟨hd, hhd, rfl⟩
    · exact Shift.of_eq fun _ => rfl
    · refine Shift.of_eq fun a => ?_
      rw [Ledger.amount_setHolding_some]
      split
      · rename_i ha
        rw [ha, Ledger.amount_of_holding hhd]
        rfl
      · rfl
  · have hsrc : l.amount src c = hs.amount := Ledger.amount_of_holding hhs
    refine ⟨n, dst, by omega, fun a => ?_⟩
    rcases putIn_cases h₂ with ⟨rfl, rfl⟩ | ⟨hd, hhd, rfl⟩
    · rw [Ledger.amount_setHolding_some]
      by_cases ha : a = src
      · subst ha
        simp [hsrc]
      · simp [ha]
    · have hdst := Ledger.amount_of_holding hhd
      rw [Ledger.amount_setHolding_some] at hdst
      rw [Ledger.amount_setHolding_some, Ledger.amount_setHolding_some]
      by_cases hb : a = dst
      · subst hb
        by_cases ha : a = src
        · subst ha
          simp only [if_true] at hdst ⊢
          omega
        · rw [if_neg ha] at hdst
          simp only [if_true, if_neg ha]
          omega
      · by_cases ha : a = src
        · subst ha
          simp only [if_true, if_neg hb]
          omega
        · simp only [if_neg ha, if_neg hb]

theorem optIn_cases {a : α} {c : ι} (h : optIn l a c = some l') :
    l' = l ∨ (l.holding a c = none ∧ ∃ p, l.params c = some p ∧
      l' = l.setHolding a c (some ⟨0, p.defaultFrozen⟩)) := by
  unfold optIn at h
  split at h
  · cases h
    exact Or.inl rfl
  · rename_i hnone
    obtain ⟨p, hp, rfl⟩ := Option.map_eq_some_iff.mp h
    exact Or.inr ⟨hnone, p, hp, rfl⟩

theorem optIn_shift {a src : α} {c : ι} (h : optIn l a c = some l') : Shift c src l l' := by
  rcases optIn_cases h with rfl | ⟨hnone, p, -, rfl⟩
  · exact Shift.of_eq fun _ => rfl
  · refine Shift.of_eq fun a' => ?_
    rw [Ledger.amount_setHolding_some]
    split
    · rename_i ha
      rw [ha, Ledger.amount_of_none hnone]
    · rfl

theorem closeOut_cases {src dst : α} {c : ι} (h : closeOut l src c dst = some l') :
    l.isCreator src c = false ∧ ∃ n b l₁, move l c n src dst b = some l₁ ∧
      l₁.amount src c = 0 ∧ l' = l₁.setHolding src c none := by
  unfold closeOut at h
  split at h
  · cases h
  · rename_i hold _
    split at h
    · cases h
    · rename_i hcreator
      obtain ⟨l₁, h₁, h₂⟩ := Option.bind_eq_some_iff.mp h
      obtain ⟨hz, rfl⟩ : l₁.amount src c = 0 ∧ _ = l' := by simpa using h₂
      exact ⟨by simpa using hcreator, _, _, l₁, h₁, hz, rfl⟩

theorem closeOut_shift {src dst : α} {c : ι} (h : closeOut l src c dst = some l') :
    Shift c src l l' := by
  obtain ⟨-, n, b, l₁, h₁, hz, rfl⟩ := closeOut_cases h
  obtain ⟨n, dst, hn, hshift⟩ := move_shift h₁
  refine ⟨n, dst, hn, fun a => ?_⟩
  have hsame : (l₁.setHolding src c none).amount a c = l₁.amount a c := by
    by_cases ha : a = src
    · rw [ha, hz, Ledger.amount_of_none (by simp)]
    · exact Ledger.amount_congr (by simp [Ledger.holding_setHolding, ha])
  rw [hsame, hshift a]

section Steps

variable [Zero α]

/-- One change of one holding of `c`, as a transfer makes them. -/
inductive HoldingStep [Zero α] (c : ι) (l : Ledger α ι) : Ledger α ι → Prop where
  | opened {a : α} {p : AssetParams α} (ha : a ≠ 0) (hp : l.params c = some p) :
      HoldingStep c l (l.setHolding a c (some ⟨0, p.defaultFrozen⟩))
  | changed {a : α} {h : Holding} (n : Nat) (hh : l.holding a c = some h) :
      HoldingStep c l (l.setHolding a c (some { h with amount := n }))
  | closed {a : α} (hc : l.isCreator a c = false) : HoldingStep c l (l.setHolding a c none)

theorem takeOut_steps {a : α} {c : ι} {n : Nat} {b : Bool} (h : takeOut l a c n b = some l') :
    ReflTransGen (HoldingStep c) l l' := by
  rcases takeOut_cases h with ⟨-, rfl⟩ | ⟨hold, hhold, -, rfl⟩
  · exact .refl
  · exact .single (.changed _ hhold)

theorem putIn_steps {a : α} {c : ι} {n : Nat} {b : Bool} (h : putIn l a c n b = some l') :
    ReflTransGen (HoldingStep c) l l' := by
  rcases putIn_cases h with ⟨-, rfl⟩ | ⟨hold, hhold, rfl⟩
  · exact .refl
  · exact .single (.changed _ hhold)

theorem move_steps {c : ι} {n : Nat} {src dst : α} {b : Bool}
    (h : move l c n src dst b = some l') : ReflTransGen (HoldingStep c) l l' := by
  obtain ⟨l₁, h₁, h₂⟩ := Option.bind_eq_some_iff.mp h
  exact (takeOut_steps h₁).trans (putIn_steps h₂)

/-- What every step keeps, a sequence of steps keeps. -/
theorem steps_eq {β : Type} {c : ι} (f : Ledger α ι → β)
    (hf : ∀ l l', HoldingStep c l l' → f l' = f l) (h : ReflTransGen (HoldingStep c) l l') :
    f l' = f l := by
  induction h with
  | refl => rfl
  | tail _ hstep ih => rw [hf _ _ hstep, ih]

theorem steps_params_eq {c : ι} (h : ReflTransGen (HoldingStep c) l l') :
    l'.params = l.params := by
  refine steps_eq (fun l => l.params) (fun l l' hstep => ?_) h
  cases hstep <;> rfl

theorem steps_issued_eq {c : ι} (h : ReflTransGen (HoldingStep c) l l') :
    l'.issued = l.issued := by
  refine steps_eq (fun l => l.issued) (fun l l' hstep => ?_) h
  cases hstep <;> rfl

theorem steps_holding_of_ne {c c' : ι} (h : ReflTransGen (HoldingStep c) l l') (hc : c' ≠ c)
    (a : α) : l'.holding a c' = l.holding a c' := by
  refine steps_eq (fun l => l.holding a c') (fun l l' hstep => ?_) h
  cases hstep <;> simp [Ledger.holding_setHolding, hc]

theorem closeOut_steps {src dst : α} {c : ι} (h : closeOut l src c dst = some l') :
    ReflTransGen (HoldingStep c) l l' := by
  obtain ⟨hcreator, n, b, l₁, h₁, -, rfl⟩ := closeOut_cases h
  have hsteps := move_steps h₁
  have hcreator' : l₁.isCreator src c = false := by
    rw [Ledger.isCreator, steps_params_eq hsteps]
    exact hcreator
  exact hsteps.tail (.closed hcreator')

/-- The parts of a transfer: the opt-in, the move, the close. -/
theorem exec_transfer_cases {s r k : α} {c : ι} {n : Nat}
    (h : exec (.transfer s c n r k) l = some l') :
    ∃ l₁ l₂, (l₁ = l ∨ optIn l s c = some l₁) ∧ move l₁ c n s r false = some l₂ ∧
      (l' = l₂ ∨ closeOut l₂ s c k = some l') := by
  obtain ⟨-, h⟩ := exec_eq_some.mp h
  obtain ⟨l₁, h₁, h⟩ := Option.bind_eq_some_iff.mp h
  obtain ⟨l₂, h₂, h⟩ := Option.bind_eq_some_iff.mp h
  refine ⟨l₁, l₂, ?_, h₂, ?_⟩
  · split at h₁
    · exact Or.inr h₁
    · cases h₁
      exact Or.inl rfl
  · split at h
    · cases h
      exact Or.inl rfl
    · exact Or.inr h

/-- A transfer only changes holdings of its asset. -/
theorem exec_transfer_steps {s r k : α} {c : ι} {n : Nat}
    (h : exec (.transfer s c n r k) l = some l') : ReflTransGen (HoldingStep c) l l' := by
  have hs : s ≠ 0 := (exec_eq_some.mp h).1
  obtain ⟨l₁, l₂, h₁, h₂, h₃⟩ := exec_transfer_cases h
  have hopt : ReflTransGen (HoldingStep c) l l₁ := by
    rcases h₁ with rfl | h₁
    · exact .refl
    · rcases optIn_cases h₁ with rfl | ⟨-, p, hp, rfl⟩
      · exact .refl
      · exact .single (.opened hs hp)
  refine (hopt.trans (move_steps h₂)).trans ?_
  rcases h₃ with rfl | h₃
  · exact .refl
  · exact closeOut_steps h₃

/-- A transfer only shifts units out of its sender. -/
theorem exec_transfer_shift {s r k : α} {c : ι} {n : Nat}
    (h : exec (.transfer s c n r k) l = some l') : ReflTransGen (Shift c s) l l' := by
  obtain ⟨l₁, l₂, h₁, h₂, h₃⟩ := exec_transfer_cases h
  have hopt : ReflTransGen (Shift c s) l l₁ := by
    rcases h₁ with rfl | h₁
    · exact .refl
    · exact .single (optIn_shift h₁)
  refine (hopt.tail (move_shift h₂)).trans ?_
  rcases h₃ with rfl | h₃
  · exact .refl
  · exact .single (closeOut_shift h₃)

/-- What a transaction needs and does, by its kind. -/
theorem exec_cases {t : Txn α ι} (h : exec t l = some l') :
    match t with
    | .create s c total decimals defaultFrozen manager freeze clawback =>
      s ≠ 0 ∧ l.issued c = false ∧
        l' = { (l.setParams c (some
            ⟨total, decimals, defaultFrozen, s, manager, freeze, clawback⟩)
            ).setHolding s c (some ⟨total, false⟩) with
          issued := fun c' => decide (c' = c) || l.issued c' }
    | .config s c manager freeze clawback =>
      ∃ p, l.params c = some p ∧ p.manager ≠ 0 ∧ s = p.manager ∧
        l' = l.setParams c (some { p with
          manager
          freeze := reconfigure p.freeze freeze
          clawback := reconfigure p.clawback clawback })
    | .destroy s c =>
      ∃ p, l.params c = some p ∧ p.manager ≠ 0 ∧ s = p.manager ∧
        l' = (l.setParams c none).setHolding p.creator c none
    | .transfer s c .. => ReflTransGen (HoldingStep c) l l' ∧ ReflTransGen (Shift c s) l l'
    | .clawback s c _ source _ =>
      ∃ p, l.params c = some p ∧ p.clawback ≠ 0 ∧ s = p.clawback ∧
        ReflTransGen (HoldingStep c) l l' ∧ Shift c source l l'
    | .freeze s c target frozen =>
      ∃ p h, l.params c = some p ∧ p.freeze ≠ 0 ∧ s = p.freeze ∧ l.holding target c = some h ∧
        l' = l.setHolding target c (some { h with frozen }) := by
  obtain ⟨hs, happly⟩ := exec_eq_some.mp h
  cases t with
  | create s c =>
    obtain ⟨hissued, rfl⟩ : l.issued c = false ∧ _ = l' := by simpa [apply] using happly
    exact ⟨hs, hissued, rfl⟩
  | config s c =>
    cases hp : l.params c with
    | none => simp [apply, hp] at happly
    | some p =>
      obtain ⟨⟨hm, hsm⟩, rfl⟩ : (¬ p.manager = 0 ∧ s = p.manager) ∧ _ = l' := by
        simpa [apply, hp] using happly
      exact ⟨p, hp, hm, hsm, rfl⟩
  | destroy s c =>
    cases hp : l.params c with
    | none => simp [apply, hp] at happly
    | some p =>
      obtain ⟨⟨hm, hsm, -⟩, rfl⟩ : (¬ p.manager = 0 ∧ s = p.manager ∧ _) ∧ _ = l' := by
        simpa [apply, hp] using happly
      exact ⟨p, hp, hm, hsm, rfl⟩
  | transfer s c => exact ⟨exec_transfer_steps h, exec_transfer_shift h⟩
  | clawback s c =>
    cases hp : l.params c with
    | none => simp [apply, hp] at happly
    | some p =>
      obtain ⟨⟨hm, hsm⟩, hmove⟩ : (¬ p.clawback = 0 ∧ s = p.clawback) ∧ _ = some l' := by
        simpa [apply, hp] using happly
      exact ⟨p, hp, hm, hsm, move_steps hmove, move_shift hmove⟩
  | freeze s c target frozen =>
    cases hp : l.params c with
    | none => simp [apply, hp] at happly
    | some p =>
      obtain ⟨⟨hm, hsm⟩, hold, hhold, rfl⟩ :
          (¬ p.freeze = 0 ∧ s = p.freeze) ∧ ∃ hold, l.holding target c = some hold ∧ _ = l' := by
        simpa [apply, hp] using happly
      exact ⟨p, hold, hp, hm, hsm, hhold, rfl⟩

/-- Everything the ledger says about `c` is the same. -/
structure SameAsset (c : ι) (l l' : Ledger α ι) : Prop where
  params : l'.params c = l.params c
  holding : ∀ a, l'.holding a c = l.holding a c
  issued : l'.issued c = l.issued c

theorem steps_sameAsset {c c' : ι} (h : ReflTransGen (HoldingStep c) l l') (hc : c' ≠ c) :
    SameAsset c' l l' :=
  ⟨by rw [steps_params_eq h], steps_holding_of_ne h hc, by rw [steps_issued_eq h]⟩

/-- A transaction changes nothing about any asset but the one it names. -/
theorem exec_of_ne {t : Txn α ι} {c : ι} (h : exec t l = some l') (hc : c ≠ t.asset) :
    SameAsset c l l' := by
  have hcases := exec_cases h
  cases t with
  | create s c' =>
    obtain ⟨-, -, rfl⟩ := hcases
    have hne : c ≠ c' := hc
    constructor <;> simp [Ledger.holding_setHolding, Ledger.params_setParams, hne]
  | config s c' =>
    obtain ⟨p, -, -, -, rfl⟩ := hcases
    have hne : c ≠ c' := hc
    constructor <;> simp [Ledger.params_setParams, hne]
  | destroy s c' =>
    obtain ⟨p, -, -, -, rfl⟩ := hcases
    have hne : c ≠ c' := hc
    constructor <;> simp [Ledger.holding_setHolding, Ledger.params_setParams, hne]
  | transfer s c' => exact steps_sameAsset hcases.1 hc
  | clawback s c' =>
    obtain ⟨p, -, -, -, hsteps, -⟩ := hcases
    exact steps_sameAsset hsteps hc
  | freeze s c' =>
    obtain ⟨p, hold, -, -, -, -, rfl⟩ := hcases
    have hne : c ≠ c' := hc
    constructor <;> simp [Ledger.holding_setHolding, hne]

/-! ## The ledger invariant -/

/-- The amounts of `c` add up to `total`. -/
def Conserved (l : Ledger α ι) (c : ι) (total : Nat) : Prop :=
  ∃ f : α →₀ ℕ, (∀ a, f a = l.amount a c) ∧ f.degree = total

/-- What the ledger promises about one asset id. -/
structure WellFormedAt (l : Ledger α ι) (c : ι) : Prop where
  unissued : l.issued c = false → l.params c = none ∧ ∀ a, l.holding a c = none
  zero : l.holding 0 c = none
  conserved : ∀ p, l.params c = some p → Conserved l c p.total
  creator : ∀ p, l.params c = some p → (l.holding p.creator c).isSome

/-- The invariant of the ledger. -/
def WellFormed (l : Ledger α ι) : Prop := ∀ c, WellFormedAt l c

omit [DecidableEq α] [DecidableEq ι] [Zero α] in
theorem Conserved.congr {c : ι} {total : Nat} (h : Conserved l c total)
    (heq : ∀ a, l'.amount a c = l.amount a c) : Conserved l' c total := by
  obtain ⟨f, hf, hdeg⟩ := h
  exact ⟨f, fun a => by rw [hf, heq], hdeg⟩

omit [DecidableEq ι] [Zero α] in
/-- A shift keeps the sum: what leaves one account reaches another. -/
theorem Conserved.shift {c : ι} {src : α} {total : Nat} (h : Conserved l c total)
    (hshift : Shift c src l l') : Conserved l' c total := by
  obtain ⟨f, hf, hdeg⟩ := h
  obtain ⟨n, dst, hn, hsum⟩ := hshift
  have hle : single src n ≤ f + single dst n := by
    rw [single_le_iff, Finsupp.add_apply, hf]
    omega
  refine ⟨f + single dst n - single src n, fun a => ?_, ?_⟩
  · have := hsum a
    rw [Finsupp.tsub_apply, Finsupp.add_apply, hf, single_apply, single_apply]
    simp only [eq_comm (a := dst), eq_comm (a := src)]
    omega
  · have hadd : (f + single dst n - single src n) + single src n = f + single dst n :=
      tsub_add_cancel_of_le hle
    have := congrArg degree hadd
    rw [map_add, map_add, degree_single, degree_single] at this
    omega

omit [DecidableEq ι] [Zero α] in
theorem Conserved.shifts {c : ι} {src : α} {total : Nat} (h : Conserved l c total)
    (hshifts : ReflTransGen (Shift c src) l l') : Conserved l' c total := by
  induction hshifts with
  | refl => exact h
  | tail _ hstep ih => exact ih.shift hstep

omit [DecidableEq α] [DecidableEq ι] [Zero α] in
/-- Two accounts together hold at most the total. -/
theorem Conserved.add_le {c : ι} {total : Nat} (h : Conserved l c total) {a b : α} (hab : a ≠ b) :
    l.amount a c + l.amount b c ≤ total := by
  obtain ⟨f, hf, rfl⟩ := h
  have hle : single a (f a) + single b (f b) ≤ f := by
    intro x
    rw [Finsupp.add_apply]
    by_cases hxa : x = a
    · subst hxa
      simp [hab.symm]
    · by_cases hxb : x = b
      · subst hxb
        simp [Ne.symm hxa]
      · simp [Ne.symm hxa, Ne.symm hxb]
  have := degree_mono hle
  rw [map_add, degree_single, degree_single, hf, hf] at this
  exact this

omit [DecidableEq α] [DecidableEq ι] in
theorem SameAsset.wellFormedAt {c : ι} (h : SameAsset c l l') (hw : WellFormedAt l c) :
    WellFormedAt l' c where
  unissued hi := by
    obtain ⟨hp, hh⟩ := hw.unissued (h.issued ▸ hi)
    exact ⟨h.params.trans hp, fun a => (h.holding a).trans (hh a)⟩
  zero := (h.holding 0).trans hw.zero
  conserved p hp :=
    (hw.conserved p (h.params ▸ hp)).congr fun a => Ledger.amount_congr (h.holding a)
  creator p hp := by
    rw [h.holding]
    exact hw.creator p (h.params ▸ hp)

/-- The holding of the zero address stays shut. -/
theorem steps_zero {c : ι} (h : ReflTransGen (HoldingStep c) l l') (h0 : l.holding 0 c = none) :
    l'.holding 0 c = none := by
  induction h with
  | refl => exact h0
  | tail _ hstep ih =>
    cases hstep with
    | opened ha => simp [Ledger.holding_setHolding, ha.symm, ih]
    | @changed a _ n hh =>
      have ha : (0 : α) ≠ a := by
        rintro rfl
        rw [ih] at hh
        cases hh
      simp [Ledger.holding_setHolding, ha, ih]
    | closed => simp [Ledger.holding_setHolding, ih]

/-- The creator of an asset that exists keeps a holding. -/
theorem steps_creator {c : ι} {p : AssetParams α} (h : ReflTransGen (HoldingStep c) l l')
    (hp : l.params c = some p) (hc : (l.holding p.creator c).isSome) :
    (l'.holding p.creator c).isSome := by
  induction h with
  | refl => exact hc
  | @tail l₁ _ hsteps hstep ih =>
    cases hstep with
    | opened => rw [Ledger.holding_setHolding]; split <;> simp [ih]
    | changed => rw [Ledger.holding_setHolding]; split <;> simp [ih]
    | @closed a hclosed =>
      have ha : p.creator ≠ a := by
        rintro rfl
        simp [Ledger.isCreator, steps_params_eq hsteps, hp] at hclosed
      simp [Ledger.holding_setHolding, ha, ih]

/-- An id without parameters and holdings gets neither from a transfer. -/
theorem steps_unissued {c : ι} (h : ReflTransGen (HoldingStep c) l l')
    (hp : l.params c = none) (hh : ∀ a, l.holding a c = none) (a : α) :
    l'.holding a c = none := by
  induction h with
  | refl => exact hh a
  | @tail l₁ _ hsteps hstep ih =>
    cases hstep with
    | opened _ hp' => rw [steps_params_eq hsteps, hp] at hp'; cases hp'
    | @changed a' _ n hh' =>
      -- The step changes a holding, but the induction hypothesis is about `a` only.
      by_cases ha : a = a'
      · subst ha
        rw [ih] at hh'
        cases hh'
      · simp [Ledger.holding_setHolding, ha, ih]
    | closed => simp [Ledger.holding_setHolding, ih]

theorem WellFormedAt.steps {c : ι} (hw : WellFormedAt l c)
    (hsteps : ReflTransGen (HoldingStep c) l l')
    (hcons : ∀ total, Conserved l c total → Conserved l' c total) : WellFormedAt l' c where
  unissued hi := by
    rw [steps_issued_eq hsteps] at hi
    obtain ⟨hp, hh⟩ := hw.unissued hi
    exact ⟨by rw [steps_params_eq hsteps, hp], steps_unissued hsteps hp hh⟩
  zero := steps_zero hsteps hw.zero
  conserved p hp := hcons _ (hw.conserved p (steps_params_eq hsteps ▸ hp))
  creator p hp :=
    have hp' := steps_params_eq hsteps ▸ hp
    steps_creator hsteps hp' (hw.creator p hp')

omit [DecidableEq α] [DecidableEq ι] in
theorem empty_wellFormed : WellFormed (Ledger.empty : Ledger α ι) := fun _ =>
  { unissued := fun _ => ⟨rfl, fun _ => rfl⟩
    zero := rfl
    conserved := fun _ hp => by cases hp
    creator := fun _ hp => by cases hp }

omit [DecidableEq α] [DecidableEq ι] in
/-- An asset that exists has a used id. -/
theorem WellFormedAt.issued {c : ι} {p : AssetParams α} (hw : WellFormedAt l c)
    (hp : l.params c = some p) : l.issued c = true := by
  by_contra hi
  rw [(hw.unissued (by simpa using hi)).1] at hp
  cases hp

/-- An asset that was just created belongs to its creator. -/
theorem create_wellFormedAt {s : α} {c : ι} {p : AssetParams α} {issued : ι → Bool} (hs : s ≠ 0)
    (hcreator : p.creator = s) (hissued : issued c = true)
    (hholding : ∀ a, l.holding a c = none) :
    WellFormedAt { (l.setParams c (some p)).setHolding s c (some ⟨p.total, false⟩) with
      issued := issued } c where
  unissued hi := by
    rw [show issued c = false from hi] at hissued
    cases hissued
  zero := by simp [Ledger.holding_setHolding, Ne.symm hs, hholding]
  conserved p' hp' := by
    obtain rfl : p = p' := by simpa [Ledger.params_setParams] using hp'
    refine ⟨single s p.total, fun a => ?_, degree_single s p.total⟩
    by_cases ha : a = s
    · subst ha
      simp [Ledger.amount]
    · simp [Ledger.amount, Ledger.holding_setHolding, ha, hholding]
  creator p' hp' := by
    obtain rfl : p = p' := by simpa [Ledger.params_setParams] using hp'
    simp [hcreator]

omit [DecidableEq α] in
/-- New parameters with the old total and creator keep the invariant. -/
theorem WellFormedAt.config {c : ι} {p p' : AssetParams α} (hw : WellFormedAt l c)
    (hp : l.params c = some p) (htotal : p'.total = p.total) (hcreator : p'.creator = p.creator) :
    WellFormedAt (l.setParams c (some p')) c where
  unissued hi := by
    rw [Ledger.issued_setParams, hw.issued hp] at hi
    cases hi
  zero := hw.zero
  conserved q hq := by
    obtain rfl : p' = q := by simpa [Ledger.params_setParams] using hq
    rw [htotal]
    exact hw.conserved p hp
  creator q hq := by
    obtain rfl : p' = q := by simpa [Ledger.params_setParams] using hq
    rw [hcreator]
    exact hw.creator p hp

/-- An asset that was destroyed leaves nothing to check. -/
theorem WellFormedAt.destroy {c : ι} {p : AssetParams α} {a : α} (hw : WellFormedAt l c)
    (hp : l.params c = some p) :
    WellFormedAt ((l.setParams c none).setHolding a c none) c where
  unissued hi := by
    rw [Ledger.issued_setHolding, Ledger.issued_setParams, hw.issued hp] at hi
    cases hi
  zero := by simp [Ledger.holding_setHolding, hw.zero]
  conserved q hq := by simp [Ledger.params_setParams] at hq
  creator q hq := by simp [Ledger.params_setParams] at hq

/-- A holding with another flag keeps the invariant. -/
theorem WellFormedAt.freeze {c : ι} {p : AssetParams α} {a : α} {h : Holding}
    (hw : WellFormedAt l c) (hp : l.params c = some p) (hh : l.holding a c = some h)
    (frozen : Bool) : WellFormedAt (l.setHolding a c (some { h with frozen })) c where
  unissued hi := by
    rw [Ledger.issued_setHolding, hw.issued hp] at hi
    cases hi
  zero := by
    have ha : (0 : α) ≠ a := by
      rintro rfl
      rw [hw.zero] at hh
      cases hh
    simp [Ledger.holding_setHolding, ha, hw.zero]
  conserved q hq := by
    refine (hw.conserved q hq).congr fun b => ?_
    rw [Ledger.amount_setHolding_some]
    split
    · rename_i hb
      rw [hb, Ledger.amount_of_holding hh]
    · rfl
  creator q hq := by
    rw [Ledger.holding_setHolding]
    split
    · rfl
    · exact hw.creator q hq

/-- The step lemma of the ledger invariant. -/
theorem exec_wellFormed {t : Txn α ι} (h : exec t l = some l') (hw : WellFormed l) :
    WellFormed l' := by
  intro c
  by_cases hc : c = t.asset
  swap
  · exact (exec_of_ne h hc).wellFormedAt (hw c)
  have hcases := exec_cases h
  cases t with
  | create s c' =>
    obtain ⟨hs, hissued, rfl⟩ := hcases
    obtain rfl : c = c' := hc
    exact create_wellFormedAt hs rfl (by simp) ((hw c).unissued hissued).2
  | config s c' =>
    obtain ⟨p, hp, -, -, rfl⟩ := hcases
    obtain rfl : c = c' := hc
    exact (hw c).config hp rfl rfl
  | destroy s c' =>
    obtain ⟨p, hp, -, -, rfl⟩ := hcases
    obtain rfl : c = c' := hc
    exact (hw c).destroy hp
  | transfer s c' =>
    obtain rfl : c = c' := hc
    exact (hw c).steps hcases.1 fun _ hcons => hcons.shifts hcases.2
  | clawback s c' =>
    obtain ⟨p, -, -, -, hsteps, hshift⟩ := hcases
    obtain rfl : c = c' := hc
    exact (hw c).steps hsteps fun _ hcons => hcons.shift hshift
  | freeze s c' target frozen =>
    obtain ⟨p, hold, hp, -, -, hhold, rfl⟩ := hcases
    obtain rfl : c = c' := hc
    exact (hw c).freeze hp hhold frozen

/-! ## Sealed assets -/

/-- Nobody may reconfigure or destroy the asset, freeze its holdings or claw
them back. -/
def AssetParams.Sealed (p : AssetParams α) : Prop :=
  p.manager = 0 ∧ p.freeze = 0 ∧ p.clawback = 0

instance (p : AssetParams α) : Decidable p.Sealed := inferInstanceAs (Decidable (_ ∧ _))

/-- A sealed asset keeps its parameters, and its holdings change by
transfers only, which take units out of the sender only. -/
theorem exec_sealed {t : Txn α ι} {c : ι} {p : AssetParams α} (h : exec t l = some l')
    (hw : WellFormed l) (hp : l.params c = some p) (hsealed : p.Sealed) :
    l'.params c = some p ∧
      ((∀ a, l'.holding a c = l.holding a c) ∨
        ReflTransGen (HoldingStep c) l l' ∧ ReflTransGen (Shift c t.sender) l l') := by
  obtain ⟨hmanager, hfreeze, hclawback⟩ := hsealed
  by_cases hc : c = t.asset
  swap
  · have hsame := exec_of_ne h hc
    exact ⟨hsame.params.trans hp, Or.inl hsame.holding⟩
  have hcases := exec_cases h
  cases t with
  | create s c' =>
    obtain ⟨-, hissued, -⟩ := hcases
    obtain rfl : c = c' := hc
    rw [((hw c).unissued hissued).1] at hp
    cases hp
  | config s c' =>
    obtain ⟨p', hp', hm, -⟩ := hcases
    obtain rfl : c = c' := hc
    obtain rfl : p = p' := by simpa [hp] using hp'
    exact absurd hmanager hm
  | destroy s c' =>
    obtain ⟨p', hp', hm, -⟩ := hcases
    obtain rfl : c = c' := hc
    obtain rfl : p = p' := by simpa [hp] using hp'
    exact absurd hmanager hm
  | transfer s c' =>
    obtain rfl : c = c' := hc
    exact ⟨by rw [steps_params_eq hcases.1, hp], Or.inr hcases⟩
  | clawback s c' =>
    obtain ⟨p', hp', hm, -⟩ := hcases
    obtain rfl : c = c' := hc
    obtain rfl : p = p' := by simpa [hp] using hp'
    exact absurd hclawback hm
  | freeze s c' =>
    obtain ⟨p', -, hp', hm, -⟩ := hcases
    obtain rfl : c = c' := hc
    obtain rfl : p = p' := by simpa [hp] using hp'
    exact absurd hfreeze hm

/-- Only the transactions of an account take units of a sealed asset from
it. -/
theorem exec_sealed_authorised {t : Txn α ι} {c : ι} {p : AssetParams α} {a : α}
    (h : exec t l = some l') (hw : WellFormed l) (hp : l.params c = some p)
    (hsealed : p.Sealed) (ha : l'.amount a c < l.amount a c) : t.sender = a := by
  by_contra hne
  obtain ⟨-, hsame | ⟨-, hshift⟩⟩ := exec_sealed h hw hp hsealed
  · rw [Ledger.amount_congr (hsame a)] at ha
    exact Nat.lt_irrefl _ ha
  · have hle : l.amount a c ≤ l'.amount a c := by
      clear ha h
      induction hshift with
      | refl => exact Nat.le_refl _
      | tail _ hstep ih => exact ih.trans (hstep.le_of_ne (Ne.symm hne))
    omega

/-- The invariant and the parameters of a sealed asset in every later
state. -/
theorem Later.sealed {c : ι} {p : AssetParams α} (h : Later l l') (hw : WellFormed l)
    (hp : l.params c = some p) (hsealed : p.Sealed) :
    WellFormed l' ∧ l'.params c = some p := by
  induction h with
  | refl => exact ⟨hw, hp⟩
  | tail _ hstep ih =>
    obtain ⟨t, ht⟩ := hstep
    exact ⟨exec_wellFormed ht ih.1, (exec_sealed ht ih.1 ih.2 hsealed).1⟩

/-! ## Safe custody -/

/-- No holding of `c` is frozen. -/
def NoneFrozen (l : Ledger α ι) (c : ι) : Prop :=
  ∀ a h, l.holding a c = some h → h.frozen = false

/-- What the holder of the single unit of `c` relies on. -/
structure SafeCustody (l : Ledger α ι) (c : ι) : Prop where
  /-- At most one account holds exactly one unit. -/
  unique : ∀ a b, l.amount a c = 1 → l.amount b c = 1 → a = b
  /-- The unit leaves an account only by a transaction of that account. -/
  authorised : ∀ t l' a, exec t l = some l' → l.amount a c = 1 → l'.amount a c ≠ 1 →
    t.sender = a
  /-- No transaction changes the parameters. -/
  immutable : ∀ t l', exec t l = some l' → l'.params c = l.params c
  /-- No holding is frozen. -/
  unfrozen : NoneFrozen l c
  /-- The holder can move the unit to anybody who opted in. -/
  movable : ∀ a b, l.amount a c = 1 → (l.holding b c).isSome →
    ∃ l', exec (.transfer a c 1 b 0) l = some l' ∧ l'.amount b c = 1

theorem HoldingStep.noneFrozen {c : ι} {p : AssetParams α} (h : HoldingStep c l l')
    (hp : l.params c = some p) (hd : p.defaultFrozen = false) (hnone : NoneFrozen l c) :
    NoneFrozen l' c := by
  intro a' h' hh'
  cases h with
  | @opened a p' _ hp' =>
    obtain rfl : p = p' := by simpa [hp] using hp'
    rw [Ledger.holding_setHolding] at hh'
    split at hh'
    · cases hh'
      exact hd
    · exact hnone a' h' hh'
  | @changed a hold n hh =>
    rw [Ledger.holding_setHolding] at hh'
    split at hh'
    · cases hh'
      exact hnone a hold hh
    · exact hnone a' h' hh'
  | closed =>
    rw [Ledger.holding_setHolding] at hh'
    split at hh'
    · cases hh'
    · exact hnone a' h' hh'

/-- Nothing freezes a holding of a sealed asset that opens them unfrozen. -/
theorem Later.noneFrozen {c : ι} {p : AssetParams α} (h : Later l l') (hw : WellFormed l)
    (hp : l.params c = some p) (hsealed : p.Sealed) (hd : p.defaultFrozen = false)
    (hnone : NoneFrozen l c) : NoneFrozen l' c := by
  induction h with
  | refl => exact hnone
  | @tail l₁ l₂ hlater hstep ih =>
    obtain ⟨t, ht⟩ := hstep
    obtain ⟨hw₁, hp₁⟩ := Later.sealed hlater hw hp hsealed
    obtain ⟨-, hsame | ⟨hsteps, -⟩⟩ := exec_sealed ht hw₁ hp₁ hsealed
    · intro a hold hhold
      exact ih a hold (hsame a ▸ hhold)
    · clear ht
      induction hsteps with
      | refl => exact ih
      | tail hsteps hstep ih' =>
        exact hstep.noneFrozen (by rw [steps_params_eq hsteps, hp₁]) hd ih'

/-- An unfrozen holder can move the unit to anybody with an unfrozen
holding. -/
theorem transfer_succeeds {c : ι} {a b : α} (ha0 : a ≠ 0) (ha : l.amount a c = 1)
    (hb : (l.holding b c).isSome) (hle : a ≠ b → l.amount b c = 0) (hnone : NoneFrozen l c) :
    ∃ l', exec (.transfer a c 1 b 0) l = some l' ∧ l'.amount b c = 1 := by
  obtain ⟨ha', hha⟩ : ∃ h, l.holding a c = some h := by
    cases hh : l.holding a c with
    | none => rw [Ledger.amount_of_none hh] at ha; cases ha
    | some h => exact ⟨h, rfl⟩
  obtain ⟨hb', hhb⟩ := Option.isSome_iff_exists.mp hb
  have haa : ha'.amount = 1 := by rw [← Ledger.amount_of_holding hha, ha]
  have hfa := hnone a ha' hha
  have hfb := hnone b hb' hhb
  by_cases hab : a = b
  · subst hab
    simp [exec, apply, Txn.sender, move, takeOut, putIn, ha0, hha, haa, hfa,
      Ledger.amount_setHolding_some]
  · have hbb : hb'.amount = 0 := by rw [← Ledger.amount_of_holding hhb, hle hab]
    simp [exec, apply, Txn.sender, move, takeOut, putIn, ha0, hha, haa, hfa, hfb, hbb, hhb,
      Ledger.holding_setHolding, Ledger.amount_setHolding_some, Ne.symm hab]

theorem safeCustody_of_noneFrozen {c : ι} {p : AssetParams α} (hw : WellFormed l)
    (hp : l.params c = some p) (hsealed : p.Sealed) (htotal : p.total = 1)
    (hnone : NoneFrozen l c) : SafeCustody l c := by
  have hcons : Conserved l c 1 := htotal ▸ (hw c).conserved p hp
  have hunique : ∀ a b, l.amount a c = 1 → a ≠ b → l.amount b c = 0 := by
    intro a b ha hab
    have := hcons.add_le hab
    omega
  refine ⟨fun a b ha hb => ?_, fun t l' a ht ha ha' => ?_, fun t l' ht => ?_, hnone,
    fun a b ha hb => ?_⟩
  · by_contra hab
    rw [hunique a b ha hab] at hb
    cases hb
  · refine exec_sealed_authorised ht hw hp hsealed ?_
    -- The total stays one, so an amount other than one is below it.
    have hcons' : Conserved l' c 1 := by
      have := (exec_wellFormed ht hw c).conserved p (exec_sealed ht hw hp hsealed).1
      rwa [htotal] at this
    obtain ⟨f, hf, hdeg⟩ := hcons'
    have hle : l'.amount a c ≤ 1 := by
      rw [← hf, ← hdeg]
      exact Finsupp.le_degree a f
    omega
  · rw [(exec_sealed ht hw hp hsealed).1, hp]
  · have ha0 : a ≠ 0 := by
      rintro rfl
      rw [Ledger.amount_of_none (hw c).zero] at ha
      cases ha
    exact transfer_succeeds ha0 ha hb (hunique a b ha) hnone

/-! ## When the custody is safe forever -/

/-- Anyone but the creator can close to the creator, past any freeze. -/
theorem exec_closeOut_succeeds {c : ι} {p : AssetParams α} {b : α} {h : Holding} (hb : b ≠ 0)
    (hp : l.params c = some p) (hcreator : p.creator ≠ 0) (hbc : b ≠ p.creator)
    (hh : l.holding b c = some h) (hf : h.frozen = false)
    (hc : (l.holding p.creator c).isSome) :
    ∃ l', exec (.transfer b c 0 b p.creator) l = some l' ∧ l'.holding b c = none ∧
      l'.params = l.params := by
  obtain ⟨hcr, hhc⟩ := Option.isSome_iff_exists.mp hc
  have hisb : l.isCreator b c = false := by simp [Ledger.isCreator, hp, Ne.symm hbc]
  have hisc : l.isCreator p.creator c = true := by simp [Ledger.isCreator, hp]
  by_cases hz : h.amount = 0
  · have hamount : l.amount b c = 0 := by rw [Ledger.amount_of_holding hh, hz]
    simp [exec, apply, Txn.sender, optIn, closeOut, move, takeOut, putIn, hb, hcreator, hh,
      hisb, hz, hamount]
  · have hamount : (((l.setHolding b c (some ⟨h.amount - h.amount, h.frozen⟩)).setHolding
        p.creator c (some ⟨hcr.amount + h.amount, hcr.frozen⟩)).amount b c) = 0 := by
      rw [Ledger.amount_setHolding_some, if_neg hbc, Ledger.amount_setHolding_some, if_pos rfl]
      exact Nat.sub_self _
    simp [exec, apply, Txn.sender, optIn, closeOut, move, takeOut, putIn, hb, hcreator, hh,
      hhc, hisb, hisc, hz, hf, Ne.symm hbc, Ledger.holding_setHolding] at hamount ⊢
    simp [hamount]

/-- An account without a holding can opt in, and then has the holding that
the asset opens. -/
theorem exec_optIn_succeeds {c : ι} {p : AssetParams α} {b : α} (hb : b ≠ 0)
    (hp : l.params c = some p) (hnone : l.holding b c = none) :
    ∃ l', exec (.transfer b c 0 b 0) l = some l' ∧
      l'.holding b c = some ⟨0, p.defaultFrozen⟩ := by
  simp [exec, apply, Txn.sender, optIn, move, takeOut, putIn, hb, hp, hnone]

/-- A sealed asset of one unit is in safe custody in every later state
exactly when it opens holdings unfrozen and none is frozen now. -/
theorem safeCustody_iff {c : ι} {p : AssetParams α} (hw : WellFormed l)
    (hp : l.params c = some p) (hsealed : p.Sealed) (htotal : p.total = 1)
    (hother : ∃ b, b ≠ 0 ∧ b ≠ p.creator) :
    (∀ l', Later l l' → SafeCustody l' c) ↔ p.defaultFrozen = false ∧ NoneFrozen l c := by
  constructor
  · intro h
    have hnow := (h l .refl).unfrozen
    refine ⟨?_, hnow⟩
    obtain ⟨b, hb, hbc⟩ := hother
    have hcreator : p.creator ≠ 0 := by
      intro h0
      have := (hw c).creator p hp
      rw [h0, (hw c).zero] at this
      cases this
    -- `b` opts in, after it closed the holding it may have.
    obtain ⟨l₁, h₁, hp₁, hnone⟩ : ∃ l₁, Later l l₁ ∧ l₁.params c = some p ∧
        l₁.holding b c = none := by
      cases hhb : l.holding b c with
      | none => exact ⟨l, .refl, hp, hhb⟩
      | some hold =>
        obtain ⟨l₁, hexec, hnone, hparams⟩ := exec_closeOut_succeeds hb hp hcreator hbc hhb
          (hnow b hold hhb) ((hw c).creator p hp)
        exact ⟨l₁, .single ⟨_, hexec⟩, by rw [hparams, hp], hnone⟩
    obtain ⟨l₂, hexec, hopened⟩ := exec_optIn_succeeds hb hp₁ hnone
    exact (h l₂ (h₁.tail ⟨_, hexec⟩)).unfrozen b _ hopened
  · rintro ⟨hd, hnone⟩ l' hlater
    obtain ⟨hw', hp'⟩ := hlater.sealed hw hp hsealed
    exact safeCustody_of_noneFrozen hw' hp' hsealed htotal
      (hlater.noneFrozen hw hp hsealed hd hnone)

end Steps

end Trelyan.Asa
