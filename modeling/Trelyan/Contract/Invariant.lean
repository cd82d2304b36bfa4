import Trelyan.Lib.Lifecycle
import Trelyan.Contract.Chain

/-!
# The invariant of the contract

`Inv` is what holds of every reachable chain: the application is as it was
created, the ledger of assets is well formed, and the boxes of the
application are well formed on that ledger.  The fields of
`AppData.WellFormed` are the accounting of `register_cell` (the counter, the
two maps it fills together, the 1024 cap) and the shape of what is stored
(keys of 1793 bytes under the Falcon-1024 header, owners that are addresses
other than the zero address).  `CellAsset` is what registration checked about
the asset of a cell.  Nobody can take it back, because the parameters of a
sealed asset never change.

`exec_inv` is the step lemma, one case of `Effect` after the other, and
`Reachable.inv` the run lemma.

With the invariant the boxes of a cell can be read as one cell of the
life cycle that `Trelyan.Lifecycle` describes.  `Effect.cell_step` says that
a transaction moves each cell by at most one step on behalf of its sender.
-/

namespace Trelyan.Contract

open Asa Atomic Lifecycle

/-! ## Well-formed boxes -/

/-- The asset of a registered cell: a single indivisible unit that the admin
created, with no manager, no freeze address and no clawback address. -/
def CellAsset (ledger : Ledger Address UInt64) (admin : Address) (cell : UInt64) : Prop :=
  ∃ p, ledger.params cell = some p ∧ p.total = 1 ∧ p.decimals = 0 ∧ p.creator = admin ∧ p.Sealed

/-- The boxes and the counter are consistent. -/
structure AppData.WellFormed (ledger : Ledger Address UInt64) (app : AppData) : Prop where
  /-- A cell has an owner exactly when it has a key. -/
  same_cells : ∀ c, (app.controllingOwner c).isSome = (app.committedPubkey c).isSome
  /-- Only a registered cell is inscribed. -/
  registered : ∀ c, app.inscribed c = true → (app.committedPubkey c).isSome = true
  /-- A record that is stored can be read. -/
  readable : ∀ c, app.inscribed c = true → ∃ r, app.inscription c = some r
  pubkey : ∀ c pk, app.committedPubkey c = some pk → pk.length = pubkeyLen ∧ pk.head? = some 0x0A
  owner : ∀ c a, app.controllingOwner c = some a → a.length = 32 ∧ a ≠ zeroAddress.bytes
  pubkey_count : app.pubkeyCount = app.cellsRegistered.toNat
  owner_count : app.ownerCount = app.cellsRegistered.toNat
  cap : app.cellsRegistered ≤ totalCells
  asset : ∀ c, (app.committedPubkey c).isSome = true → CellAsset ledger app.admin c

/-- The invariant of the chain. -/
structure Inv (net : Network) (s : Chain) : Prop where
  pristine : Pristine net s
  ledger : Asa.WellFormed s.ledger
  data : ∀ app, s.app = some app → app.data.WellFormed s.ledger

theorem CellAsset.exec {l l' : Ledger Address UInt64} {t : Asa.Txn Address UInt64}
    {admin : Address} {c : UInt64} (h : CellAsset l admin c) (hw : Asa.WellFormed l)
    (ht : Asa.exec t l = some l') : CellAsset l' admin c := by
  obtain ⟨p, hp, htotal, hdecimals, hcreator, hsealed⟩ := h
  exact ⟨p, (exec_sealed ht hw hp hsealed).1, htotal, hdecimals, hcreator, hsealed⟩

/-! ## One step of the invariant -/

namespace AppData

variable {ledger : Ledger Address UInt64} {app : AppData}

theorem init_wellFormed (admin : Address) :
    ({ AppData.init with admin } : AppData).WellFormed ledger := by
  constructor <;> intros <;>
    simp_all [AppData.init, committedPubkey, controllingOwner, inscribed, pubkeyCount, ownerCount,
      totalCells]

/-- The counter after a registration below the cap. -/
theorem toNat_succ_of_lt {n : UInt64} (h : n < totalCells) : (n + 1).toNat = n.toNat + 1 := by
  have hn : n.toNat < 1024 := UInt64.lt_iff_toNat_lt.mp h
  rw [UInt64.toNat_add, show (1 : UInt64).toNat = 1 from rfl]
  omega

theorem WellFormed.register {ctx : Context} {cell : UInt64} {owner : Address} {pubkey : Bytes}
    (h : app.WellFormed ctx.ledger) (hguard : RegisterGuard ctx cell owner pubkey app) :
    (app.register cell owner pubkey).WellFormed ctx.ledger where
  same_cells c := by
    rw [register_controllingOwner, register_committedPubkey]
    split
    · rfl
    · exact h.same_cells c
  registered c hc := by
    rw [register_inscribed] at hc
    rw [register_committedPubkey]
    split
    · rfl
    · exact h.registered c hc
  readable c hc := by
    rw [register_inscribed] at hc
    rw [register_inscription]
    exact h.readable c hc
  pubkey c pk hpk := by
    rw [register_committedPubkey] at hpk
    split at hpk
    · cases hpk
      exact ⟨hguard.pubkey_length, hguard.pubkey_header⟩
    · exact h.pubkey c pk hpk
  owner c a ha := by
    rw [register_controllingOwner] at ha
    split at ha
    · cases ha
      exact ⟨owner.length_eq, hguard.owner_ne_zero⟩
    · exact h.owner c a ha
  pubkey_count := by
    rw [register_pubkeyCount _ _ _ _ hguard.pubkey_fresh, register_cellsRegistered,
      toNat_succ_of_lt hguard.cap, h.pubkey_count]
  owner_count := by
    rw [register_ownerCount _ _ _ _ hguard.owner_fresh, register_cellsRegistered,
      toNat_succ_of_lt hguard.cap, h.owner_count]
  cap := by
    have hlt := UInt64.lt_iff_toNat_lt.mp hguard.cap
    rw [register_cellsRegistered, UInt64.le_iff_toNat_le, toNat_succ_of_lt hguard.cap]
    omega
  asset c hc := by
    rw [register_committedPubkey] at hc
    split at hc
    · rename_i heq
      exact heq ▸ hguard.asset
    · exact h.asset c hc

theorem WellFormed.setInscription {cell : UInt64} {record : InscriptionRecord}
    (h : app.WellFormed ledger) (hcell : (app.committedPubkey cell).isSome = true) :
    (app.setInscription cell record).WellFormed ledger where
  same_cells c := by
    rw [setInscription_controllingOwner, setInscription_committedPubkey]
    exact h.same_cells c
  registered c hc := by
    rw [setInscription_inscribed] at hc
    rw [setInscription_committedPubkey]
    split at hc
    · rename_i heq
      exact heq ▸ hcell
    · exact h.registered c hc
  readable c hc := by
    rw [setInscription_inscribed] at hc
    rw [setInscription_inscription]
    split
    · exact ⟨record, rfl⟩
    · rename_i hne
      rw [if_neg hne] at hc
      exact h.readable c hc
  pubkey c pk hpk := by
    rw [setInscription_committedPubkey] at hpk
    exact h.pubkey c pk hpk
  owner c a ha := by
    rw [setInscription_controllingOwner] at ha
    exact h.owner c a ha
  pubkey_count := (setInscription_pubkeyCount _ _ _).trans h.pubkey_count
  owner_count := (setInscription_ownerCount _ _ _).trans h.owner_count
  cap := h.cap
  asset c hc := by
    rw [setInscription_committedPubkey] at hc
    exact h.asset c hc

theorem WellFormed.setOwner {cell : UInt64} {newOwner : Address} (h : app.WellFormed ledger)
    (hcell : (app.controllingOwner cell).isSome = true)
    (hne : newOwner.bytes ≠ zeroAddress.bytes) :
    (app.setOwner cell newOwner).WellFormed ledger where
  same_cells c := by
    rw [setOwner_controllingOwner, setOwner_committedPubkey, ← h.same_cells c]
    split
    · rename_i heq
      rw [heq, hcell]
      rfl
    · rfl
  registered c hc := by
    rw [setOwner_inscribed] at hc
    rw [setOwner_committedPubkey]
    exact h.registered c hc
  readable c hc := by
    rw [setOwner_inscribed] at hc
    rw [setOwner_inscription]
    exact h.readable c hc
  pubkey c pk hpk := by
    rw [setOwner_committedPubkey] at hpk
    exact h.pubkey c pk hpk
  owner c a ha := by
    rw [setOwner_controllingOwner] at ha
    split at ha
    · cases ha
      exact ⟨newOwner.length_eq, hne⟩
    · exact h.owner c a ha
  pubkey_count := (setOwner_pubkeyCount _ _ _).trans h.pubkey_count
  owner_count := (setOwner_ownerCount _ _ _ hcell).trans h.owner_count
  cap := h.cap
  asset c hc := by
    rw [setOwner_committedPubkey] at hc
    exact h.asset c hc

end AppData

theorem genesis_inv (net : Network) : Inv net genesis where
  pristine _ h := by cases h
  ledger := empty_wellFormed
  data _ h := by cases h

theorem Effect.inv {net : Network} {s s' : Chain} {t : Transaction} (h : Effect net s t s')
    (hs : Inv net s) : Inv net s' := by
  refine ⟨h.pristine hs.pristine, ?_, ?_⟩
  · cases h with
    | asset ht => exact exec_wellFormed ht hs.ledger
    | _ => exact hs.ledger
  · intro app' happ'
    cases h with
    | asset ht =>
      have hdata := hs.data app' happ'
      exact { hdata with asset := fun c hc => (hdata.asset c hc).exec hs.ledger ht }
    | created => cases happ'; exact AppData.init_wellFormed _
    | recreated => exact hs.data app' happ'
    | registered happ _ hguard => cases happ'; exact (hs.data _ happ).register hguard
    | inscribed happ _ hguard =>
      cases happ'
      obtain ⟨pk, hpk, -⟩ := hguard.verified
      exact (hs.data _ happ).setInscription (by rw [hpk]; rfl)
    | ownerUpdated happ _ hguard =>
      cases happ'
      exact (hs.data _ happ).setOwner (by rw [hguard.owner]; rfl) hguard.owner_ne_zero
    | read => exact hs.data app' happ'

/-- The step lemma. -/
theorem exec_inv {net : Network} (t : Transaction) (s s' : Chain) (hs : Inv net s)
    (h : (machine net).exec t s = some s') : Inv net s' :=
  (exec_effect hs.pristine h).inv hs

theorem advance_inv {net : Network} (r : UInt64) (s : Chain) (hs : Inv net s) :
    Inv net ((machine net).advance r s) where
  pristine app happ := hs.pristine app (by rwa [advance_app] at happ)
  ledger := by rw [advance_ledger]; exact hs.ledger
  data app happ := by
    rw [advance_app] at happ
    rw [advance_ledger]
    exact hs.data app happ

/-- The run lemma. -/
theorem run_inv {net : Network} {s : Chain} (hs : Inv net s)
    (events : List (Event Transaction UInt64)) : Inv net ((machine net).run s events) :=
  Machine.run_invariant exec_inv advance_inv hs events

theorem Reachable.inv {net : Network} {s : Chain} (h : Reachable net s) : Inv net s := by
  obtain ⟨events, rfl⟩ := h
  exact run_inv (genesis_inv net) events

/-! ## The account of the registrations -/

/-- The same application: what a call never changes. -/
structure App.Same (app app' : App) : Prop where
  id : app'.id = app.id
  program : app'.program = app.program
  admin : app'.data.admin = app.data.admin

theorem App.Same.trans {app₁ app₂ app₃ : App} (h : app₁.Same app₂) (h' : app₂.Same app₃) :
    app₁.Same app₃ :=
  ⟨h'.id.trans h.id, h'.program.trans h.program, h'.admin.trans h.admin⟩

theorem App.Same.symm {app₁ app₂ : App} (h : app₁.Same app₂) : app₂.Same app₁ :=
  ⟨h.id.symm, h.program.symm, h.admin.symm⟩

/-- Once there is an application, a transaction keeps it. -/
theorem Effect.sameApp {net : Network} {s s' : Chain} {t : Transaction} {app : App}
    (h : Effect net s t s') (happ : s.app = some app) :
    ∃ app', s'.app = some app' ∧ app.Same app' := by
  cases h with
  | asset => exact ⟨app, happ, rfl, rfl, rfl⟩
  | created _ hnone => rw [hnone] at happ; cases happ
  | recreated => exact ⟨app, happ, rfl, rfl, rfl⟩
  | registered happ' => rw [happ] at happ'; cases happ'; exact ⟨_, rfl, rfl, rfl, rfl⟩
  | inscribed happ' => rw [happ] at happ'; cases happ'; exact ⟨_, rfl, rfl, rfl, rfl⟩
  | ownerUpdated happ' => rw [happ] at happ'; cases happ'; exact ⟨_, rfl, rfl, rfl, rfl⟩
  | read => exact ⟨app, happ, rfl, rfl, rfl⟩

/-- Before the creation, only the creation brings an application about. -/
theorem Effect.created_of_none {net : Network} {s s' : Chain} {t : Transaction} {app : App}
    (h : Effect net s t s') (hnone : s.app = none) (happ : s'.app = some app) :
    ∃ call id, t = .appCreate call id ∧ app = App.created net id call.sender := by
  cases h with
  | asset => rw [show s.app = some app from happ] at hnone; cases hnone
  | created => cases happ; exact ⟨_, _, rfl, rfl⟩
  | recreated happ' => rw [happ'] at hnone; cases hnone
  | registered happ' => rw [happ'] at hnone; cases hnone
  | inscribed happ' => rw [happ'] at hnone; cases hnone
  | ownerUpdated happ' => rw [happ'] at hnone; cases hnone
  | read happ' => rw [happ'] at hnone; cases hnone

/-- The application stays the same for the rest of the run. -/
theorem run_sameApp {net : Network} {s : Chain} {app : App} (hs : Inv net s)
    (happ : s.app = some app) (events : List (Event Transaction UInt64)) :
    ∃ app', ((machine net).run s events).app = some app' ∧ app.Same app' := by
  refine (Machine.run_invariant (M := machine net)
    (P := fun s => Inv net s ∧ ∃ app', s.app = some app' ∧ app.Same app') ?_ ?_
    ⟨hs, app, happ, rfl, rfl, rfl⟩ events).2
  · intro t s s' ⟨hinv, app₁, happ₁, hsame⟩ ht
    obtain ⟨app₂, happ₂, hsame₂⟩ := (exec_effect hinv.pristine ht).sameApp happ₁
    exact ⟨exec_inv t s s' hinv ht, app₂, happ₂, hsame.trans hsame₂⟩
  · intro r s ⟨hinv, h⟩
    exact ⟨advance_inv r s hinv, by rwa [advance_app]⟩

/-- The application of a run was created by a committed creation, whose
sender is the admin. -/
theorem exists_creation {net : Network} {events : List (Event Transaction UInt64)} {app : App}
    (happ : ((machine net).run genesis events).app = some app) :
    ∃ call s₁ s₂, (machine net).CommittedAt genesis events (.appCreate call app.id) s₁ s₂ ∧
      s₁.app = none ∧ s₂.app = some (App.created net app.id call.sender) ∧
      app.data.admin = call.sender := by
  obtain ⟨t, s₁, s₂, hc, hinv, hbefore, app₂, happ₂, hsame⟩ :=
    Machine.exists_committedAt exec_inv advance_inv
      (Q := fun s => ∃ app', s.app = some app' ∧ app.Same app')
      (genesis_inv net) (by simp) (by simp [genesis]) ⟨app, happ, rfl, rfl, rfl⟩
  have heffect := exec_effect hinv.pristine hc.exec
  cases h₁ : s₁.app with
  | some app₁ =>
    -- The application would have been there before the step.
    obtain ⟨app₂', happ₂', hsame'⟩ := heffect.sameApp h₁
    rw [happ₂] at happ₂'
    cases happ₂'
    exact absurd ⟨app₁, h₁, hsame.trans hsame'.symm⟩ hbefore
  | none =>
    obtain ⟨call, id, rfl, rfl⟩ := heffect.created_of_none h₁ happ₂
    obtain rfl : id = app.id := hsame.id
    exact ⟨call, s₁, s₂, hc, h₁, happ₂, hsame.admin.symm⟩

/-- The account of the registrations after any run: the boxes and the counter
are well formed, and the admin is the account that created the application,
then and for ever. -/
theorem registration_accounting (net : Network) (events : List (Event Transaction UInt64))
    (app : App) (happ : ((machine net).run genesis events).app = some app) :
    app.data.WellFormed ((machine net).run genesis events).ledger ∧
    (∃ call s₁ s₂, (machine net).CommittedAt genesis events (.appCreate call app.id) s₁ s₂ ∧
      s₁.app = none ∧ s₂.app = some (App.created net app.id call.sender) ∧
      app.data.admin = call.sender) ∧
    ∀ later, ∃ app', ((machine net).run genesis (events ++ later)).app = some app' ∧
      app'.id = app.id ∧ app'.data.admin = app.data.admin := by
  have hinv := run_inv (genesis_inv net) events
  refine ⟨hinv.data app happ, exists_creation happ, fun later => ?_⟩
  rw [Machine.run_append]
  obtain ⟨app', happ', hsame⟩ := run_sameApp hinv happ later
  exact ⟨app', happ', hsame.id, hsame.admin⟩

/-- The application of the sample run, once its cell is registered. -/
def sampleRegistered : App :=
  (sampleChain (sampleSetup false ++ sampleRegistration)).app.get (by decide +kernel)

theorem sampleRegistered_app :
    (sampleChain (sampleSetup false ++ sampleRegistration)).app = some sampleRegistered :=
  (Option.some_get _).symm

theorem sample_accounting :
    sampleRegistered.data.cellsRegistered.toNat = 1 ∧
    sampleRegistered.data.WellFormed
      (sampleChain (sampleSetup false ++ sampleRegistration)).ledger :=
  ⟨by decide +kernel, (registration_accounting _ _ _ sampleRegistered_app).1⟩

end Trelyan.Contract
