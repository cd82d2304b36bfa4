import Trelyan.Lib.Lifecycle
import Trelyan.Contract.Invariant

/-!
# The life of a cell

The three boxes of a cell, read as one cell of `Trelyan.Lifecycle`: vacant
while it has no key, registered under a key and an owner, and inscribed once
it has a record.  `Effect.cell_step` is the refinement: a transaction leaves a
cell alone, or it is an application call and moves the cell one step on
behalf of its sender.  `run_cell_steps` extends this to runs.

From the laws of the life cycle follow the two promises of the contract.

* *Permanence.*  The key of a registered cell and the record of an inscribed
  one are never changed or removed, and neither is the program that guards
  them.  Two inscriptions of one cell cannot stand in one group.
* *Authority.*  A registered cell changes only by a call of its recorded
  owner who holds the unit at that moment.  Custody of the asset alone, calls
  of the admin, and calls about other cells change nothing.
-/

namespace Trelyan.Contract

open Atomic Lifecycle

/-! ## The boxes of a cell as one cell -/

/-- The boxes of a cell. -/
def AppData.cell (app : AppData) (c : UInt64) : Cell Bytes Bytes Bytes :=
  match app.committedPubkey c, app.controllingOwner c, app.inscriptionBox c with
  | some key, some owner, none => .registered key owner
  | some key, some owner, some record => .inscribed key owner record
  | _, _, _ => .vacant

/-- The boxes of a cell, on a chain that may have no application yet. -/
def Chain.cell (s : Chain) (c : UInt64) : Cell Bytes Bytes Bytes :=
  match s.app with
  | some app => app.data.cell c
  | none => .vacant

theorem Chain.cell_of_app {s : Chain} {app : App} (happ : s.app = some app) (c : UInt64) :
    s.cell c = app.data.cell c := by
  rw [Chain.cell, happ]

theorem Chain.cell_of_none {s : Chain} (hnone : s.app = none) (c : UInt64) :
    s.cell c = .vacant := by
  rw [Chain.cell, hnone]

namespace AppData

variable {ledger : Asa.Ledger Address UInt64} {app app' : AppData} {c : UInt64}

theorem inscribed_eq_isSome (app : AppData) (c : UInt64) :
    app.inscribed c = (app.inscriptionBox c).isSome := rfl

/-- The record as the inscription map reads it. -/
theorem inscription_eq_bind (app : AppData) (c : UInt64) :
    app.inscription c = (app.inscriptionBox c).bind InscriptionRecord.decode := rfl

theorem inscriptionBox_of_not_inscribed (h : app.inscribed c = false) :
    app.inscriptionBox c = none := by
  rwa [inscribed_eq_isSome, Option.isSome_eq_false_iff, Option.isNone_iff_eq_none] at h

theorem cell_congr (hk : app'.committedPubkey c = app.committedPubkey c)
    (ho : app'.controllingOwner c = app.controllingOwner c)
    (hi : app'.inscriptionBox c = app.inscriptionBox c) : app'.cell c = app.cell c := by
  rw [cell, cell, hk, ho, hi]

/-- The views of well-formed boxes and the cell they form say the same. -/
theorem WellFormed.cell_views (h : app.WellFormed ledger) (c : UInt64) :
    (app.cell c).key? = app.committedPubkey c ∧ (app.cell c).owner? = app.controllingOwner c ∧
      (app.cell c).record? = app.inscriptionBox c := by
  have hsame := h.same_cells c
  have hreg := h.registered c
  rw [inscribed_eq_isSome] at hreg
  cases hk : app.committedPubkey c with
  | none =>
    have ho : app.controllingOwner c = none := by simpa [hk] using hsame
    have hi : app.inscriptionBox c = none := by simpa [hk] using hreg
    simp [cell, hk, ho, hi, Cell.key?, Cell.owner?, Cell.record?]
  | some key =>
    obtain ⟨owner, ho⟩ := Option.isSome_iff_exists.mp (hsame.trans (by rw [hk]; rfl))
    cases hi : app.inscriptionBox c with
    | none => simp [cell, hk, ho, hi, Cell.key?, Cell.owner?, Cell.record?]
    | some record => simp [cell, hk, ho, hi, Cell.key?, Cell.owner?, Cell.record?]

theorem init_cell (admin : Address) (c : UInt64) :
    ({ AppData.init with admin } : AppData).cell c = .vacant := by
  simp [cell, AppData.init, committedPubkey]

theorem register_step {actor owner : Address} {key : Bytes} {cell : UInt64}
    (hfresh : app.committedPubkey cell = none) (h : app.WellFormed ledger) (c : UInt64) :
    Cell.Step actor.bytes (app.cell c) ((app.register cell owner key).cell c) := by
  by_cases hc : c = cell
  · subst hc
    have hi : app.inscriptionBox c = none := by
      have hreg := h.registered c
      rw [inscribed_eq_isSome, hfresh] at hreg
      simpa using hreg
    have hbefore : app.cell c = .vacant := by simp [AppData.cell, hfresh]
    have hafter : (app.register c owner key).cell c = .registered key owner.bytes := by
      simp [AppData.cell, hi]
    rw [hbefore, hafter]
    exact .register key owner.bytes
  · have hsame : (app.register cell owner key).cell c = app.cell c :=
      cell_congr (by simp [hc]) (by simp [hc]) (by simp)
    rw [hsame]
    exact .stay _

theorem setOwner_step {actor newOwner : Address} {key : Bytes} {cell : UInt64}
    (hkey : app.committedPubkey cell = some key)
    (howner : app.controllingOwner cell = some actor.bytes)
    (hfresh : app.inscriptionBox cell = none) (c : UInt64) :
    Cell.Step actor.bytes (app.cell c) ((app.setOwner cell newOwner).cell c) := by
  by_cases hc : c = cell
  · subst hc
    have hbefore : app.cell c = .registered key actor.bytes := by
      simp [AppData.cell, hkey, howner, hfresh]
    have hafter : (app.setOwner c newOwner).cell c = .registered key newOwner.bytes := by
      simp [AppData.cell, hkey, hfresh]
    rw [hbefore, hafter]
    exact .handOver key newOwner.bytes
  · have hsame : (app.setOwner cell newOwner).cell c = app.cell c :=
      cell_congr (by simp) (by simp [hc]) (by simp)
    rw [hsame]
    exact .stay _

theorem setInscription_step {actor : Address} {key : Bytes} {cell : UInt64}
    {record : InscriptionRecord} (hkey : app.committedPubkey cell = some key)
    (howner : app.controllingOwner cell = some actor.bytes)
    (hfresh : app.inscriptionBox cell = none) (c : UInt64) :
    Cell.Step actor.bytes (app.cell c) ((app.setInscription cell record).cell c) := by
  by_cases hc : c = cell
  · subst hc
    have hbefore : app.cell c = .registered key actor.bytes := by
      simp [AppData.cell, hkey, howner, hfresh]
    have hafter : (app.setInscription c record).cell c =
        .inscribed key actor.bytes record.encode := by
      simp [AppData.cell, hkey, howner]
    rw [hbefore, hafter]
    exact .inscribe key record.encode
  · have hsame : (app.setInscription cell record).cell c = app.cell c :=
      cell_congr (by simp) (by simp) (by simp [hc])
    rw [hsame]
    exact .stay _

end AppData

/-- The boxes of a cell and the cell they form say the same. -/
theorem Inv.cell_views {net : Network} {s : Chain} (hs : Inv net s) (c : UInt64) :
    (s.cell c).key? = s.committedPubkey c ∧ (s.cell c).owner? = s.controllingOwner c ∧
      (s.cell c).record? = s.inscriptionBox c := by
  rw [Chain.committedPubkey, Chain.controllingOwner, Chain.inscriptionBox]
  cases happ : s.app with
  | none =>
    rw [Chain.cell_of_none happ]
    exact ⟨rfl, rfl, rfl⟩
  | some app =>
    rw [Chain.cell_of_app happ]
    exact (hs.data app happ).cell_views c

theorem Chain.inscriptionBox_of_inscription {s : Chain} {c : UInt64} {r : InscriptionRecord}
    (h : s.inscription c = some r) : s.inscriptionBox c ≠ none := by
  intro hnone
  rw [Chain.inscription] at h
  obtain ⟨app, happ, hr⟩ := Option.bind_eq_some_iff.mp h
  rw [Chain.inscriptionBox, happ, Option.bind_some] at hnone
  rw [AppData.inscription_eq_bind, hnone] at hr
  cases hr

/-- Chains whose cells agree have the same boxes. -/
theorem Inv.views_eq {net : Network} {s s' : Chain} (hs : Inv net s) (hs' : Inv net s')
    {c : UInt64} (h : s'.cell c = s.cell c) :
    s'.committedPubkey c = s.committedPubkey c ∧
      s'.controllingOwner c = s.controllingOwner c ∧
      s'.inscriptionBox c = s.inscriptionBox c := by
  obtain ⟨hkey, howner, hrecord⟩ := hs.cell_views c
  obtain ⟨hkey', howner', hrecord'⟩ := hs'.cell_views c
  rw [← hkey, ← howner, ← hrecord, ← hkey', ← howner', ← hrecord', h]
  exact ⟨rfl, rfl, rfl⟩

/-! ## One transaction -/

/-- The refinement: a transaction leaves a cell alone, or it is a call and
moves the cell one step on behalf of its sender. -/
theorem Effect.cell_step {net : Network} {s s' : Chain} {t : Transaction}
    (h : Effect net s t s') (hs : Inv net s) (c : UInt64) :
    s'.cell c = s.cell c ∨
      ∃ call, t = .appCall call ∧ Cell.Step call.sender.bytes (s.cell c) (s'.cell c) := by
  cases h with
  | asset => exact Or.inl rfl
  | created _ hnone =>
    left
    rw [Chain.cell, Chain.cell, hnone]
    exact AppData.init_cell _ c
  | recreated => exact Or.inl rfl
  | registered happ _ hguard =>
    refine Or.inr ⟨_, rfl, ?_⟩
    rw [Chain.cell_of_app happ]
    exact AppData.register_step hguard.pubkey_fresh (hs.data _ happ) c
  | inscribed happ _ hguard =>
    refine Or.inr ⟨_, rfl, ?_⟩
    obtain ⟨key, hkey, -⟩ := hguard.verified
    rw [Chain.cell_of_app happ]
    exact AppData.setInscription_step hkey hguard.owner
      (AppData.inscriptionBox_of_not_inscribed hguard.fresh) c
  | @ownerUpdated _ app cell _ happ _ hguard =>
    refine Or.inr ⟨_, rfl, ?_⟩
    have hsome : (app.data.committedPubkey cell).isSome = true := by
      rw [← (hs.data _ happ).same_cells, hguard.owner]
      rfl
    obtain ⟨key, hkey⟩ := Option.isSome_iff_exists.mp hsome
    rw [Chain.cell_of_app happ]
    exact AppData.setOwner_step hkey hguard.owner
      (AppData.inscriptionBox_of_not_inscribed hguard.fresh) c
  | read => exact Or.inl rfl

/-! ## Runs -/

/-- The addresses whose calls the run committed. -/
def Callers (net : Network) (s : Chain) (events : List (Event Transaction UInt64))
    (a : Bytes) : Prop :=
  ∃ call s₁ s₂, (machine net).CommittedAt s events (.appCall call) s₁ s₂ ∧ call.sender.bytes = a

/-- A run moves each cell by steps on behalf of the callers of the run. -/
theorem run_cell_steps {net : Network} {s : Chain} (hs : Inv net s)
    (events : List (Event Transaction UInt64)) (c : UInt64) :
    Cell.Steps (Callers net s events) (s.cell c) (((machine net).run s events).cell c) := by
  -- The invariant goes along, because a step of a cell needs it.
  refine (Machine.run_induction (M := machine net)
    (P := fun s₁ => Inv net s₁ ∧ Cell.Steps (Callers net s events) (s.cell c) (s₁.cell c))
    ⟨hs, .refl⟩ ?_ ?_).2
  · intro t s₁ s₂ hc ⟨hinv, hsteps⟩
    refine ⟨exec_inv t s₁ s₂ hinv hc.exec, ?_⟩
    rcases (exec_effect hinv.pristine hc.exec).cell_step hinv c with heq | ⟨call, rfl, hstep⟩
    · rwa [heq]
    · exact hsteps.trans (hstep.steps ⟨call, s₁, s₂, hc, rfl⟩)
  · intro r s₁ ⟨hinv, hsteps⟩
    refine ⟨advance_inv r s₁ hinv, ?_⟩
    have hsame : ((machine net).advance r s₁).cell c = s₁.cell c := by
      rw [Chain.cell, advance_app, Chain.cell]
    rwa [hsame]

/-! ## Permanence -/

/-- The arguments of the call select `inscribe` and the cell `c`. -/
def AppCall.Inscribes (call : AppCall) (c : UInt64) : Prop :=
  call.appArgs[0]? = some inscribeSelector ∧ call.appArgs[1]? = some (itob c)

/-- Such arguments decode to an inscription of the cell, or not at all. -/
theorem AppCall.Inscribes.decode {call : AppCall} {c : UInt64} {m : Method}
    (h : call.Inscribes c) (hm : Method.decode call.appArgs = .ok m) :
    ∃ artifactHash sig uri, m = .inscribe c artifactHash sig uri := by
  obtain ⟨hselector, arg, harg, hcell⟩ := Method.decode_cases hm
  have hsel : inscribeSelector = m.selector := Option.some.inj (h.1.symm.trans hselector)
  obtain rfl : itob c = arg := Option.some.inj (h.2.symm.trans harg)
  obtain rfl : c = m.cell := Except.ok.inj ((decodeUint64_itob c).symm.trans hcell)
  cases m with
  | inscribe c artifactHash sig uri => exact ⟨artifactHash, sig, uri, rfl⟩
  | registerCell => exact absurd hsel (show inscribeSelector ≠ registerCellSelector by decide)
  | updateOwner => exact absurd hsel (show inscribeSelector ≠ updateOwnerSelector by decide)
  | getInscription => exact absurd hsel (show inscribeSelector ≠ getInscriptionSelector by decide)

/-- A successful inscription finds the box missing and creates it. -/
theorem exec_inscribes {net : Network} {s s' : Chain} {call : AppCall} {c : UInt64}
    (hs : Inv net s) (hcall : call.Inscribes c) (h : exec net (.appCall call) s = some s') :
    s.inscriptionBox c = none ∧ (s'.inscriptionBox c).isSome = true := by
  cases exec_effect hs.pristine h with
  | inscribed happ hm hguard =>
    obtain ⟨_, _, _, heq⟩ := hcall.decode hm
    cases heq
    rw [Chain.inscriptionBox, happ, Chain.inscriptionBox]
    exact ⟨AppData.inscriptionBox_of_not_inscribed hguard.fresh, by simp⟩
  | registered _ hm => obtain ⟨_, _, _, heq⟩ := hcall.decode hm; cases heq
  | ownerUpdated _ hm => obtain ⟨_, _, _, heq⟩ := hcall.decode hm; cases heq
  | read _ hm => obtain ⟨_, _, _, heq⟩ := hcall.decode hm; cases heq

/-- Keys and records stay along any run. -/
theorem run_permanent {net : Network} {s : Chain} (hs : Inv net s)
    (events : List (Event Transaction UInt64)) (c : UInt64) :
    (∀ v, s.committedPubkey c = some v →
      ((machine net).run s events).committedPubkey c = some v) ∧
    ∀ r, s.inscriptionBox c = some r →
      ((machine net).run s events).inscriptionBox c = some r ∧
      ((machine net).run s events).controllingOwner c = s.controllingOwner c := by
  have hsteps := run_cell_steps hs events c
  have hs' := run_inv hs events
  constructor
  · intro v hv
    rw [← (hs'.cell_views c).1]
    exact hsteps.key_eq ((hs.cell_views c).1.trans hv)
  · intro r hr
    have hsame := hsteps.eq_of_record ((hs.cell_views c).2.2.trans hr)
    obtain ⟨-, howner, hrecord⟩ := hs.views_eq hs' hsame
    exact ⟨hrecord.trans hr, howner⟩

/-- Two inscriptions of one cell cannot stand in one group. -/
theorem execGroup_double_inscription {net : Network} {s : Chain} (hs : Inv net s) {c : UInt64}
    {call call' : AppCall} (hcall : call.Inscribes c) (hcall' : call'.Inscribes c)
    (pre mid post : List Transaction) :
    (machine net).execGroup
      (pre ++ .appCall call :: (mid ++ .appCall call' :: post)) s = none := by
  rw [Option.eq_none_iff_forall_ne_some]
  intro s' h
  obtain ⟨s₁, s₂, hpre, hfirst, h⟩ := Machine.execGroup_cut h
  obtain ⟨s₃, s₄, hmid, hsecond, -⟩ := Machine.execGroup_cut h
  have hs₁ : Inv net s₁ := by
    rw [← Machine.step_group_of_some hpre]
    exact run_inv hs [.group pre]
  have hs₂ : Inv net s₂ := exec_inv _ _ _ hs₁ hfirst
  -- The record of the first inscription is still there at the second.
  obtain ⟨r, hr⟩ := Option.isSome_iff_exists.mp (exec_inscribes hs₁ hcall hfirst).2
  have hr₃ := ((run_permanent hs₂ [.group mid] c).2 r hr).1
  rw [Machine.run_cons, Machine.step_group_of_some hmid, Machine.run_nil] at hr₃
  have hs₃ : Inv net s₃ := by
    rw [← Machine.step_group_of_some hmid]
    exact run_inv hs₂ [.group mid]
  rw [(exec_inscribes hs₃ hcall' hsecond).1] at hr₃
  cases hr₃

/-- Write-once permanence.  From any reachable chain on, keys and records
stay as they are and the application stays the same application under the
same program.  A group with two inscriptions of one cell fails and leaves no
trace. -/
theorem write_once_permanence (net : Network) (s : Chain) (hs : Reachable net s) :
    (∀ s', (machine net).Reaches s s' →
      (∀ c v, s.committedPubkey c = some v → s'.committedPubkey c = some v) ∧
      (∀ c r, s.inscriptionBox c = some r → s'.inscriptionBox c = some r) ∧
      ∀ app, s.app = some app → ∃ app', s'.app = some app' ∧ app'.id = app.id ∧
        app'.program = app.program) ∧
    ∀ c call call', AppCall.Inscribes call c → AppCall.Inscribes call' c →
      ∀ pre mid post,
        (machine net).execGroup
          (pre ++ .appCall call :: (mid ++ .appCall call' :: post)) s = none ∧
        (machine net).step s
          (.group (pre ++ .appCall call :: (mid ++ .appCall call' :: post))) = s := by
  constructor
  · rintro s' ⟨events, rfl⟩
    refine ⟨fun c => (run_permanent hs.inv events c).1, fun c r hr => ?_, fun app happ => ?_⟩
    · exact ((run_permanent hs.inv events c).2 r hr).1
    · obtain ⟨app', happ', hsame⟩ := run_sameApp hs.inv happ events
      exact ⟨app', happ', hsame.id, hsame.program⟩
  · intro c call call' hcall hcall' pre mid post
    have hnone := execGroup_double_inscription hs.inv hcall hcall' pre mid post
    exact ⟨hnone, Machine.step_group_of_none hnone⟩

/-- The key of the sample cell stays, and two inscriptions of it in one group
fail. -/
theorem sample_permanence :
    (∀ s', (machine sampleNetwork).Reaches
        (sampleChain (sampleSetup false ++ sampleRegistration)) s' →
      s'.committedPubkey 5 = some samplePubkey.native) ∧
    (machine sampleNetwork).execGroup [sampleInscribe, sampleInscribe]
      (sampleChain (sampleSetup false ++ sampleRegistration)) = none := by
  have h := write_once_permanence sampleNetwork
    (sampleChain (sampleSetup false ++ sampleRegistration)) ⟨_, rfl⟩
  constructor
  · intro s' hs'
    exact (h.1 s' hs').1 5 samplePubkey.native (by decide +kernel)
  · exact (h.2 5 _ _ ⟨rfl, rfl⟩ ⟨rfl, rfl⟩ [] [] []).1

/-! ## Authority -/

/-- `sender` holds exactly one unit of the cell. -/
def Chain.Holds (s : Chain) (sender : Address) (c : UInt64) : Prop :=
  (s.ledger.holding sender c).map (·.amount) = some 1

/-- A step that changes the owner of a registered cell is an `update_owner` of
that cell by the owner, who holds the unit, and the cell has no record. -/
theorem Effect.owner_change {net : Network} {s s' : Chain} {t : Transaction} {c : UInt64}
    (h : Effect net s t s') (hreg : (s.committedPubkey c).isSome = true)
    (hchange : s'.controllingOwner c ≠ s.controllingOwner c) :
    ∃ call newOwner, t = .appCall call ∧
      Method.decode call.appArgs = .ok (.updateOwner c newOwner) ∧
      s.controllingOwner c = some call.sender.bytes ∧ s.Holds call.sender c ∧
      s.inscriptionBox c = none := by
  cases h with
  | asset => exact absurd rfl hchange
  | created _ hnone => rw [Chain.committedPubkey, hnone] at hreg; cases hreg
  | recreated => exact absurd rfl hchange
  | @registered call app cell owner pubkey happ _ hguard =>
    rw [Chain.committedPubkey, happ, Option.bind_some] at hreg
    have hc : c ≠ cell := by
      intro heq
      rw [heq, hguard.pubkey_fresh] at hreg
      cases hreg
    refine absurd ?_ hchange
    simp [Chain.controllingOwner, happ, hc]
  | inscribed happ =>
    refine absurd ?_ hchange
    simp [Chain.controllingOwner, happ]
  | @ownerUpdated call app cell newOwner happ hm hguard =>
    have hc : c = cell := by
      by_contra hc
      refine absurd ?_ hchange
      simp [Chain.controllingOwner, happ, hc]
    subst hc
    refine ⟨call, newOwner, rfl, hm, ?_, hguard.holds, ?_⟩
    · rw [Chain.controllingOwner, happ, Option.bind_some, hguard.owner]
      rfl
    · rw [Chain.inscriptionBox, happ, Option.bind_some]
      exact AppData.inscriptionBox_of_not_inscribed hguard.fresh
  | read => exact absurd rfl hchange

/-- A step that creates a record is a successful `inscribe` of that cell. -/
theorem Effect.record_creation {net : Network} {s s' : Chain} {t : Transaction} {c : UInt64}
    (h : Effect net s t s') (hnone : s.inscriptionBox c = none)
    (hcreated : s'.inscriptionBox c ≠ none) :
    ∃ call app artifactHash sig uri, t = .appCall call ∧ s.app = some app ∧
      Method.decode call.appArgs = .ok (.inscribe c artifactHash sig uri) ∧
      InscribeGuard net (s.context app.id call.sender) c artifactHash sig.native uri.native
        app.data ∧
      s' = s.setData app (app.data.setInscription c
        ⟨insVersion, c, artifactHash, s.round, call.sender, uri⟩) := by
  cases h with
  | asset => exact absurd hnone hcreated
  | created =>
    refine absurd ?_ hcreated
    simp [Chain.inscriptionBox, App.created, AppData.init, AppData.inscriptionBox]
  | recreated => exact absurd hnone hcreated
  | registered happ =>
    rw [Chain.inscriptionBox, happ, Option.bind_some] at hnone
    refine absurd ?_ hcreated
    simp [Chain.inscriptionBox, hnone]
  | @inscribed call app cell artifactHash sig uri happ hm hguard =>
    rw [Chain.inscriptionBox, happ, Option.bind_some] at hnone
    have hc : c = cell := by
      by_contra hc
      refine absurd ?_ hcreated
      simp [Chain.inscriptionBox, hnone, hc]
    subst hc
    exact ⟨call, app, artifactHash, sig, uri, rfl, happ, hm, hguard, rfl⟩
  | ownerUpdated happ =>
    rw [Chain.inscriptionBox, happ, Option.bind_some] at hnone
    refine absurd ?_ hcreated
    simp [Chain.inscriptionBox, hnone]
  | read => exact absurd hnone hcreated

/-- Per-cell authority.  As long as the recorded owner makes no successful
call, nothing in the boxes of the cell changes.  Every step of a run that
changes the owner of a registered cell, or creates a record, is a call of that
very cell by the owner recorded before the step, who holds the unit then. -/
theorem owner_authority (net : Network) (s : Chain) (hs : Reachable net s)
    (events : List (Event Transaction UInt64)) :
    (∀ c a, s.controllingOwner c = some a →
      (∀ call s₁ s₂, (machine net).CommittedAt s events (.appCall call) s₁ s₂ →
        call.sender.bytes ≠ a) →
      ((machine net).run s events).committedPubkey c = s.committedPubkey c ∧
      ((machine net).run s events).controllingOwner c = s.controllingOwner c ∧
      ((machine net).run s events).inscriptionBox c = s.inscriptionBox c) ∧
    ∀ t s₁ s₂, (machine net).CommittedAt s events t s₁ s₂ → ∀ c,
      ((s₁.committedPubkey c).isSome = true → s₂.controllingOwner c ≠ s₁.controllingOwner c →
        ∃ call newOwner, t = .appCall call ∧
          Method.decode call.appArgs = .ok (.updateOwner c newOwner) ∧
          s₁.controllingOwner c = some call.sender.bytes ∧ s₁.Holds call.sender c ∧
          s₁.inscriptionBox c = none) ∧
      (s₁.inscriptionBox c ≠ s₂.inscriptionBox c →
        s₁.inscriptionBox c = none ∧
        ∃ call artifactHash sig uri, t = .appCall call ∧
          Method.decode call.appArgs = .ok (.inscribe c artifactHash sig uri) ∧
          s₁.controllingOwner c = some call.sender.bytes ∧ s₁.Holds call.sender c) := by
  constructor
  · intro c a ha hidle
    have hsteps := run_cell_steps hs.inv events c
    have hsame := hsteps.eq_of_owner_idle ((hs.inv.cell_views c).2.1.trans ha) (by
      intro h
      rcases h with ⟨call, s₁, s₂, hc, rfl⟩
      exact hidle call s₁ s₂ hc rfl)
    exact hs.inv.views_eq (run_inv hs.inv events) hsame
  · intro t s₁ s₂ hc c
    have hinv : Inv net s₁ := hc.invariant exec_inv advance_inv hs.inv
    have heffect := exec_effect hinv.pristine hc.exec
    refine ⟨heffect.owner_change, fun hne => ?_⟩
    cases hbefore : s₁.inscriptionBox c with
    | none =>
      rw [hbefore] at hne
      obtain ⟨call, app, artifactHash, sig, uri, ht, happ, hm, hguard, -⟩ :=
        heffect.record_creation hbefore hne.symm
      refine ⟨rfl, call, artifactHash, sig, uri, ht, hm, ?_, hguard.holds⟩
      rw [Chain.controllingOwner, happ, Option.bind_some, hguard.owner]
      rfl
    | some r =>
      -- A record that exists does not change.
      refine absurd ?_ hne
      have hrun := ((run_permanent hinv [.group [t]] c).2 r hbefore).1
      have hstep : (machine net).run s₁ [.group [t]] = s₂ :=
        Machine.step_group_of_some (by simp [Machine.execGroup, hc.exec])
      rw [hbefore, ← hstep, hrun]

/-- The admin calls `update_owner` on the sample cell, and takes nothing. -/
def sampleTakeover : List (Event Transaction UInt64) :=
  [.group [sampleCall sampleAdmin (.updateOwner 5 sampleAdmin)]]

theorem sampleTakeover_callers {s s₁ s₂ : Chain} {call : AppCall}
    (h : (machine sampleNetwork).CommittedAt s sampleTakeover (.appCall call) s₁ s₂) :
    call.sender ≠ sampleOwner := by
  obtain ⟨txns, htxns, hcall⟩ := h.mem
  simp only [sampleTakeover, List.mem_singleton, Event.group.injEq] at htxns
  subst htxns
  simp only [List.mem_singleton, sampleCall, Transaction.appCall.injEq] at hcall
  subst hcall
  decide

theorem sample_authority :
    ((machine sampleNetwork).run (sampleChain (sampleSetup false ++ sampleRegistration))
      sampleTakeover).controllingOwner 5 = some sampleOwner.bytes := by
  have howner : (sampleChain (sampleSetup false ++ sampleRegistration)).controllingOwner 5 =
      some sampleOwner.bytes := by decide +kernel
  have h := (owner_authority sampleNetwork
    (sampleChain (sampleSetup false ++ sampleRegistration)) ⟨_, rfl⟩ sampleTakeover).1
    5 sampleOwner.bytes howner
  rw [(h ?_).2.1, howner]
  intro call s₁ s₂ hc heq
  exact sampleTakeover_callers hc (FixedBytes.ext_iff'.mpr heq)

end Trelyan.Contract
