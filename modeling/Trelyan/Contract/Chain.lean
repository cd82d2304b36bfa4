import Trelyan.Lib.Atomic
import Trelyan.Contract.Approval

/-!
# The chain around the application

The part of the chain that the contract can see: the round, the ledger of
assets, and the application once somebody has created it.  Three kinds of
transaction change it.

* An asset transaction, by `Trelyan.Asa.exec`.
* An application creation.  The first one creates the application; a later one
  creates another application, which the boxes of the first know nothing of.
* An application call, with any completion action and any arguments.  The
  program decides, and a call that it approves is completed as the action
  says: an update replaces the program, and a deletion removes the
  application with its boxes.

A call that lacks opcode budget, fees, box references or minimum balance
fails, whatever the program says.  `AppCall.resourced` tells whether it has
them, so a run may let any call fail.

`exec_effect` is the inversion lemma on which all later proofs stand.  As long
as the application is the one that was created, a successful transaction is
one of the seven cases of `Effect`.
-/

namespace Trelyan.Contract

open Atomic

/-- An application call. -/
structure AppCall where
  sender : Address
  onCompletion : OnCompletion
  appArgs : List Bytes
  /-- The program that an update installs. -/
  newProgram : Program
  /-- The budget, fees, references and balances suffice. -/
  resourced : Bool

/-- The zero address signs nothing, and a call needs its resources. -/
def AppCall.Admissible (call : AppCall) : Prop := call.sender ≠ 0 ∧ call.resourced = true

instance (call : AppCall) : Decidable call.Admissible := inferInstanceAs (Decidable (_ ∧ _))

/-- A transaction of the chain. -/
inductive Transaction where
  | asset (t : Asa.Txn Address UInt64)
  | appCreate (call : AppCall) (id : UInt64)
  | appCall (call : AppCall)

/-- An application on the chain. -/
structure App where
  id : UInt64
  program : Program
  optedIn : List Address
  data : AppData

/-- The state of the chain. -/
structure Chain where
  round : UInt64
  ledger : Asa.Ledger Address UInt64
  app : Option App

/-- The chain before any asset and before the application. -/
def genesis : Chain := ⟨0, Asa.Ledger.empty, none⟩

/-- What a call by `sender` of the application `id` reads. -/
def Chain.context (s : Chain) (id : UInt64) (sender : Address) : Context where
  applicationId := id
  sender
  round := s.round
  ledger := s.ledger

/-- The state with new data for its application. -/
def Chain.setData (s : Chain) (app : App) (data : AppData) : Chain :=
  { s with app := some { app with data } }

/-- `k_[cell]`, on a chain that may have no application yet. -/
def Chain.committedPubkey (s : Chain) (cell : UInt64) : Option Bytes :=
  s.app.bind fun app => app.data.committedPubkey cell

/-- `o_[cell]`. -/
def Chain.controllingOwner (s : Chain) (cell : UInt64) : Option Bytes :=
  s.app.bind fun app => app.data.controllingOwner cell

/-- `i_[cell]`. -/
def Chain.inscription (s : Chain) (cell : UInt64) : Option InscriptionRecord :=
  s.app.bind fun app => app.data.inscription cell

/-- The contents of the box `i_[cell]`. -/
def Chain.inscriptionBox (s : Chain) (cell : UInt64) : Option Bytes :=
  s.app.bind fun app => app.data.inscriptionBox cell

/-- Complete an approved call as its action says. -/
def complete (call : AppCall) (app : App) : Option (Option App) :=
  match call.onCompletion with
  | .noOp => some (some app)
  | .optIn =>
    if call.sender ∈ app.optedIn then none
    else some (some { app with optedIn := call.sender :: app.optedIn })
  | .closeOut =>
    if call.sender ∈ app.optedIn then
      some (some { app with optedIn := app.optedIn.erase call.sender })
    else none
  | .updateApplication => some (some { app with program := call.newProgram })
  | .deleteApplication => some none
  | .clearState => none

/-- Run the program of an application on a call.  A clear-state call needs a
local state to clear, and clears it even if the clear-state program fails. -/
def execCall (call : AppCall) (app : App) (s : Chain) : Option Chain :=
  if call.onCompletion = .clearState then
    if call.sender ∈ app.optedIn then
      let cleared := { app with optedIn := app.optedIn.erase call.sender }
      match app.program.clearState (s.context app.id call.sender) call.appArgs app.data with
      | .ok data => some (s.setData cleared data)
      | .error _ => some { s with app := some cleared }
    else none
  else
    match app.program.approval (s.context app.id call.sender) false call.onCompletion
        call.appArgs app.data with
    | .ok data => (complete call { app with data }).map fun app => { s with app }
    | .error _ => none

/-- Execute one transaction. -/
def exec (net : Network) : Transaction → Chain → Option Chain
  | .asset t, s => (Asa.exec t s.ledger).map fun ledger => { s with ledger }
  | .appCreate call id, s =>
    if call.Admissible then
      match (trelyanInscription net).approval (s.context id call.sender) true call.onCompletion
          call.appArgs AppData.init with
      | .ok data =>
        match s.app with
        | none => some { s with app := some ⟨id, trelyanInscription net, [], data⟩ }
        | some _ => some s
      | .error _ => none
    else none
  | .appCall call, s =>
    if call.Admissible then s.app.bind fun app => execCall call app s else none

/-- The chain as a machine of atomic groups.  Its environment raises the
round. -/
def machine (net : Network) : Machine Chain Transaction UInt64 where
  exec := exec net
  advance r s := if s.round < r then { s with round := r } else s

/-- `s` can be reached from the start of the chain. -/
def Reachable (net : Network) (s : Chain) : Prop := (machine net).Reaches genesis s

/-! ## What a transaction does -/

/-- The application that `sender` creates. -/
def App.created (net : Network) (id : UInt64) (sender : Address) : App where
  id
  program := trelyanInscription net
  optedIn := []
  data := { AppData.init with admin := sender }

/-- The application is as it was created: nobody replaced its program, and
nobody opted in. -/
structure App.Pristine (net : Network) (app : App) : Prop where
  program : app.program = trelyanInscription net
  optedIn : app.optedIn = []

/-- The application of the chain, if there is one, is as it was created. -/
def Pristine (net : Network) (s : Chain) : Prop := ∀ app, s.app = some app → app.Pristine net

/-- What a successful transaction is, and does. -/
inductive Effect (net : Network) (s : Chain) : Transaction → Chain → Prop where
  | asset {t : Asa.Txn Address UInt64} {ledger : Asa.Ledger Address UInt64}
      (h : Asa.exec t s.ledger = some ledger) : Effect net s (.asset t) { s with ledger }
  | created {call : AppCall} {id : UInt64} (hsender : call.sender ≠ 0) (hnone : s.app = none) :
      Effect net s (.appCreate call id) { s with app := some (App.created net id call.sender) }
  | recreated {call : AppCall} {id : UInt64} {app : App} (happ : s.app = some app) :
      Effect net s (.appCreate call id) s
  | registered {call : AppCall} {app : App} {cell : UInt64} {owner : Address}
      {pubkey : DynamicBytes} (happ : s.app = some app)
      (hm : Method.decode call.appArgs = .ok (.registerCell cell owner pubkey))
      (hguard : RegisterGuard (s.context app.id call.sender) cell owner pubkey.native app.data) :
      Effect net s (.appCall call) (s.setData app (app.data.register cell owner pubkey.native))
  | inscribed {call : AppCall} {app : App} {cell : UInt64} {artifactHash : Hash}
      {sig uri : DynamicBytes} (happ : s.app = some app)
      (hm : Method.decode call.appArgs = .ok (.inscribe cell artifactHash sig uri))
      (hguard : InscribeGuard net (s.context app.id call.sender) cell artifactHash sig.native
        uri.native app.data) :
      Effect net s (.appCall call) (s.setData app (app.data.setInscription cell
        ⟨insVersion, cell, artifactHash, s.round, call.sender, uri⟩))
  | ownerUpdated {call : AppCall} {app : App} {cell : UInt64} {newOwner : Address}
      (happ : s.app = some app)
      (hm : Method.decode call.appArgs = .ok (.updateOwner cell newOwner))
      (hguard : UpdateOwnerGuard (s.context app.id call.sender) cell newOwner app.data) :
      Effect net s (.appCall call) (s.setData app (app.data.setOwner cell newOwner))
  | read {call : AppCall} {app : App} {cell : UInt64} (happ : s.app = some app)
      (hm : Method.decode call.appArgs = .ok (.getInscription cell)) :
      Effect net s (.appCall call) s

theorem Chain.setData_self {s : Chain} {app : App} (happ : s.app = some app) :
    s.setData app app.data = s := by
  rw [Chain.setData, ← happ]

@[simp] theorem Chain.setData_app (s : Chain) (app : App) (data : AppData) :
    (s.setData app data).app = some { app with data } := rfl

@[simp] theorem Chain.setData_ledger (s : Chain) (app : App) (data : AppData) :
    (s.setData app data).ledger = s.ledger := rfl

@[simp] theorem Chain.setData_round (s : Chain) (app : App) (data : AppData) :
    (s.setData app data).round = s.round := rfl

/-- A successful method is one of the four last cases of `Effect`. -/
theorem runMethod_effect {net : Network} {s : Chain} {call : AppCall} {app : App} {m : Method}
    {data : AppData} (happ : s.app = some app) (hm : Method.decode call.appArgs = .ok m)
    (h : runMethod net (s.context app.id call.sender) app.data m = .ok data) :
    Effect net s (.appCall call) (s.setData app data) := by
  cases m with
  | registerCell cell owner pubkey =>
    obtain ⟨hguard, rfl⟩ := registerCell_eq_ok.mp h
    exact .registered happ hm hguard
  | inscribe cell artifactHash sig uri =>
    obtain ⟨hguard, rfl⟩ := inscribe_eq_ok.mp h
    exact .inscribed happ hm hguard
  | updateOwner cell newOwner =>
    obtain ⟨hguard, rfl⟩ := updateOwner_eq_ok.mp h
    exact .ownerUpdated happ hm hguard
  | getInscription cell =>
    rw [runMethod] at h
    cases hr : getInscription cell app.data with
    | error e => rw [hr] at h; cases h
    | ok r =>
      rw [hr] at h
      cases h
      rw [Chain.setData_self happ]
      exact .read happ hm

/-- A successful call of the application as it was created. -/
theorem execCall_effect {net : Network} {s s' : Chain} {call : AppCall} {app : App}
    (happ : s.app = some app) (hp : app.Pristine net) (h : execCall call app s = some s') :
    Effect net s (.appCall call) s' := by
  unfold execCall at h
  split at h
  · -- Nobody opted in, so there is nothing to clear.
    rw [if_neg (by simp [hp.optedIn])] at h
    cases h
  · split at h
    · rename_i data hdata
      rw [hp.program] at hdata
      obtain ⟨hnoOp, ⟨hcreating, -⟩ | ⟨-, m, hm, hrun⟩⟩ := approval_cases hdata
      · cases hcreating
      · simp only [complete, hnoOp, Option.map_some, Option.some.injEq] at h
        subst h
        exact runMethod_effect happ hm hrun
    · cases h

/-- What a successful transaction does to a chain whose application is as it
was created. -/
theorem exec_effect {net : Network} {s s' : Chain} {t : Transaction} (hp : Pristine net s)
    (h : exec net t s = some s') : Effect net s t s' := by
  cases t with
  | asset t =>
    obtain ⟨ledger, hl, rfl⟩ := Option.map_eq_some_iff.mp h
    exact .asset hl
  | appCreate call id =>
    rw [exec] at h
    split at h
    · rename_i hadm
      split at h
      · rename_i data hdata
        obtain ⟨-, ⟨-, -, rfl⟩ | ⟨hcreating, -⟩⟩ := approval_cases hdata
        · split at h
          · rename_i hnone
            cases h
            exact .created hadm.1 hnone
          · rename_i happ
            cases h
            exact .recreated happ
        · cases hcreating
      · cases h
    · cases h
  | appCall call =>
    rw [exec] at h
    split at h
    · obtain ⟨app, happ, hcall⟩ := Option.bind_eq_some_iff.mp h
      exact execCall_effect happ (hp app happ) hcall
    · cases h

theorem Effect.pristine {net : Network} {s s' : Chain} {t : Transaction}
    (h : Effect net s t s') (hp : Pristine net s) : Pristine net s' := by
  intro app' happ'
  cases h with
  | asset => exact hp app' happ'
  | created => cases happ'; exact ⟨rfl, rfl⟩
  | recreated => exact hp app' happ'
  | registered happ => cases happ'; exact ⟨(hp _ happ).program, (hp _ happ).optedIn⟩
  | inscribed happ => cases happ'; exact ⟨(hp _ happ).program, (hp _ happ).optedIn⟩
  | ownerUpdated happ => cases happ'; exact ⟨(hp _ happ).program, (hp _ happ).optedIn⟩
  | read => exact hp app' happ'

/-- A call that succeeds is admissible, and there is an application. -/
theorem exec_appCall_admissible {net : Network} {s s' : Chain} {call : AppCall}
    (h : exec net (.appCall call) s = some s') :
    call.Admissible ∧ ∃ app, s.app = some app := by
  rw [exec] at h
  split at h
  · rename_i hadm
    obtain ⟨app, happ, -⟩ := Option.bind_eq_some_iff.mp h
    exact ⟨hadm, app, happ⟩
  · cases h

/-- A no-op call of the application as it was created runs the method that
its arguments name. -/
theorem exec_appCall_noOp {net : Network} {s s' : Chain} {call : AppCall} {app : App}
    {m : Method} (happ : s.app = some app) (hp : app.Pristine net) (hadm : call.Admissible)
    (hnoOp : call.onCompletion = .noOp) (hm : Method.decode call.appArgs = .ok m) :
    exec net (.appCall call) s = some s' ↔
      ∃ data, runMethod net (s.context app.id call.sender) app.data m = .ok data ∧
        s' = s.setData app data := by
  rw [exec, if_pos hadm, happ, Option.bind_some, execCall, if_neg (by simp [hnoOp]),
    hp.program, hnoOp]
  simp only [trelyanInscription, approval_noOp hm]
  cases runMethod net (s.context app.id call.sender) app.data m with
  | error e => simp
  | ok data => simp [complete, hnoOp, Chain.setData, hp.program, trelyanInscription, eq_comm]

/-- A no-op call whose arguments do not decode fails. -/
theorem exec_appCall_undecodable {net : Network} {s : Chain} {call : AppCall} {app : App}
    {e : String} (happ : s.app = some app) (hp : app.Pristine net)
    (hnoOp : call.onCompletion = .noOp) (hm : Method.decode call.appArgs = .error e) :
    exec net (.appCall call) s = none := by
  obtain ⟨e', he'⟩ := @approval_error net (s.context app.id call.sender) call.appArgs app.data e hm
  rw [exec]
  split
  · rw [happ, Option.bind_some, execCall, if_neg (by simp [hnoOp]), hp.program, hnoOp]
    simp only [trelyanInscription, he']
  · rfl

/-! ## Events of the environment -/

@[simp] theorem advance_app (net : Network) (r : UInt64) (s : Chain) :
    ((machine net).advance r s).app = s.app := by
  simp only [machine]
  split <;> rfl

@[simp] theorem advance_ledger (net : Network) (r : UInt64) (s : Chain) :
    ((machine net).advance r s).ledger = s.ledger := by
  simp only [machine]
  split <;> rfl

/-! ## A run -/

/-- A network whose verifier accepts the signature `0xBA` only. -/
def sampleNetwork : Network where
  genesisHash := ⟨List.replicate 32 0x47, by simp⟩
  falconVerify _ sig _ := sig = [0xBA]

def sampleAdmin : Address := ⟨List.replicate 32 0xAD, by simp⟩

def sampleOwner : Address := ⟨List.replicate 32 0x0E, by simp⟩

def samplePubkey : DynamicBytes where
  native := 0x0A :: List.replicate 1792 0
  length_lt := by rw [List.length_cons, List.length_replicate]; omega

def sampleArtifact : Hash := ⟨List.replicate 32 0xAA, by simp⟩

/-- A no-op call with enough resources. -/
def noOpCall (net : Network) (sender : Address) (appArgs : List Bytes) : AppCall where
  sender
  onCompletion := .noOp
  appArgs
  newProgram := trelyanInscription net
  resourced := true

def sampleCall (sender : Address) (m : Method) : Transaction :=
  .appCall (noOpCall sampleNetwork sender m.appArgs)

/-- The admin mints the asset 5 and creates the application 9. -/
def sampleSetup (defaultFrozen : Bool) : List (Event Transaction UInt64) :=
  [.group [.asset (.create sampleAdmin 5 1 0 defaultFrozen 0 0 0)],
    .env 40,
    .group [.appCreate (noOpCall sampleNetwork sampleAdmin [createSelector]) 9]]

/-- The admin registers the cell 5, and the owner receives the asset. -/
def sampleRegistration : List (Event Transaction UInt64) :=
  [.group [sampleCall sampleAdmin (.registerCell 5 sampleOwner samplePubkey)],
    .group [.asset (.transfer sampleOwner 5 0 sampleOwner 0),
      .asset (.transfer sampleAdmin 5 1 sampleOwner 0)]]

/-- The owner inscribes the cell 5. -/
def sampleInscribe : Transaction :=
  sampleCall sampleOwner (.inscribe 5 sampleArtifact ⟨[0xBA], by decide⟩ ⟨[], by decide⟩)

def sampleInscription : List (Event Transaction UInt64) := [.env 41, .group [sampleInscribe]]

/-- The chain after a list of events. -/
def sampleChain (events : List (Event Transaction UInt64)) : Chain :=
  (machine sampleNetwork).run genesis events

end Trelyan.Contract
