import Trelyan.Lib.Except
import Trelyan.Lib.Asa.Custody
import Trelyan.Contract.Types

/-!
# The methods of the inscription contract

`contracts/inscription.py`, method by method.  A method reads the context of
the call and the state of the application, and either returns the new state
or fails with the text of the assertion that stopped it.

The opcode `falcon_verify` is a parameter of the network: nothing here
depends on which signatures it accepts.  The opcode budget, the fees and the
box references are not part of a method; `Trelyan.Contract.Chain` lets any
call fail for want of them.

For each method there is one specification lemma, `create_eq_ok`,
`registerCell_eq_ok`, `inscribe_eq_ok` and `updateOwner_eq_ok`.  It says
which calls succeed, by a guard with one field for each check, and what the
new state is.  No later proof unfolds a method.
-/

namespace Trelyan.Contract

open Asa

/-- What the network fixes for every application. -/
structure Network where
  /-- `Global.genesis_hash`. -/
  genesisHash : Hash
  /-- `op.falcon_verify(data, signature, public_key)`. -/
  falconVerify : Bytes → Bytes → Bytes → Bool

/-- What a program reads about the call that runs it. -/
structure Context where
  /-- `Global.current_application_id`. -/
  applicationId : UInt64
  /-- `Txn.sender`. -/
  sender : Address
  /-- `Global.round`. -/
  round : UInt64
  /-- The assets and holdings of the chain. -/
  ledger : Ledger Address UInt64

/-- The state of the application: its global state and its boxes. -/
structure AppData where
  admin : Address
  cellsRegistered : UInt64
  boxes : BoxStore

/-- `__init__`: the state before the first method runs. -/
def AppData.init : AppData := ⟨zeroAddress, 0, ∅⟩

/-- A property of an asset.  The read fails if there is no such asset. -/
def assetParams (ctx : Context) (cell : UInt64) : Except String (AssetParams Address) :=
  match ctx.ledger.params cell with
  | some p => .ok p
  | none => .error "asset exists"

/-- `map[key]`.  A read of a missing box fails. -/
def readBox {V : Type} (m : BoxMap UInt64 V) (app : AppData) (cell : UInt64) (msg : String) :
    Except String V :=
  match m.get app.boxes cell with
  | some v => .ok v
  | none => .error msg

/-! ## The methods -/

/-- `create`. -/
def create (ctx : Context) (app : AppData) : Except String AppData :=
  .ok { app with admin := ctx.sender }

/-- `register_cell`. -/
def registerCell (ctx : Context) (cell : UInt64) (controllingOwner : Address)
    (committedPubkey : DynamicBytes) (app : AppData) : Except String AppData := do
  require (ctx.sender = app.admin) "only admin may register cells"
  let asset ← assetParams ctx cell
  require (asset.total = 1 ∧ asset.decimals = 0) "cell must be a pure NFT"
  require (asset.creator = app.admin) "cell ASA not created by admin"
  require (asset.clawback = zeroAddress) "cell must have no clawback"
  require (asset.freeze = zeroAddress) "cell must have no freeze"
  require (asset.manager = zeroAddress) "cell manager must be cleared (immutable config)"
  require (committedPubkey.native.length = pubkeyLen) "bad committed pubkey length"
  require (committedPubkey.native.head? = some 0x0A) "bad committed pubkey header (logn=10)"
  require (app.cellsRegistered < totalCells) "all 1024 cells registered"
  require (controllingOwner.bytes ≠ zeroAddress.bytes)
    "controlling owner cannot be the zero address"
  require (committedPubkeyMap.contains app.boxes cell = false) "cell already registered"
  require (controllingOwnerMap.contains app.boxes cell = false)
    "cell already registered (owner)"
  let boxes := committedPubkeyMap.put app.boxes cell committedPubkey.native
  let boxes := controllingOwnerMap.put boxes cell controllingOwner.bytes
  .ok { app with boxes, cellsRegistered := app.cellsRegistered + 1 }

/-- `_build_message`. -/
def buildMessage (net : Network) (applicationId cellId : UInt64) (artifactHash : Bytes) :
    Bytes :=
  domainTag ++ itob applicationId ++ itob cellId ++ artifactHash ++ net.genesisHash.bytes

/-- `inscribe`. -/
def inscribe (net : Network) (ctx : Context) (cell : UInt64) (artifactHash : Hash)
    (falconSig payloadUri : DynamicBytes) (app : AppData) : Except String AppData := do
  require (committedPubkeyMap.contains app.boxes cell) "cell not registered"
  require (falconSig.native.length ≤ sigCompressedMaxlen) "falcon sig too large"
  require (artifactHash.bytes.length = hashLen) "bad artifact hash length"
  require (payloadUri.native.length ≤ uriMaxlen) "payload_uri too long"
  require ((ctx.ledger.holding ctx.sender cell).map (·.amount) = some 1)
    "sender does not hold the cell"
  require (controllingOwnerMap.contains app.boxes cell) "no controlling owner set"
  let owner ← readBox controllingOwnerMap app cell "check self.controlling_owner entry exists"
  require (owner = ctx.sender.bytes) "sender not controlling owner"
  require (inscriptionsMap.contains app.boxes cell = false) "cell already inscribed"
  let pubkey ← readBox committedPubkeyMap app cell "check self.committed_pubkey entry exists"
  let m := buildMessage net ctx.applicationId cell artifactHash.bytes
  require (net.falconVerify m falconSig.native pubkey) "falcon signature invalid"
  let record : InscriptionRecord := {
    version := insVersion
    cellId := cell
    artifactHash
    inscribedRound := ctx.round
    inscriber := ctx.sender
    payloadUri }
  .ok { app with boxes := inscriptionsMap.put app.boxes cell record }

/-- `update_owner`. -/
def updateOwner (ctx : Context) (cell : UInt64) (newOwner : Address) (app : AppData) :
    Except String AppData := do
  require (controllingOwnerMap.contains app.boxes cell) "cell not registered"
  let owner ← readBox controllingOwnerMap app cell "check self.controlling_owner entry exists"
  require (owner = ctx.sender.bytes) "only controlling owner"
  require (inscriptionsMap.contains app.boxes cell = false) "already inscribed; owner frozen"
  require ((ctx.ledger.holding ctx.sender cell).map (·.amount) = some 1)
    "caller does not hold the cell"
  require (newOwner.bytes ≠ zeroAddress.bytes) "new owner cannot be the zero address"
  .ok { app with boxes := controllingOwnerMap.put app.boxes cell newOwner.bytes }

/-- `get_inscription`. -/
def getInscription (cell : UInt64) (app : AppData) : Except String InscriptionRecord :=
  readBox inscriptionsMap app cell "check self.inscriptions entry exists"

/-- `on_update`. -/
def onUpdate : Except String AppData := .error "contract is non-upgradable (I5)"

/-- `on_delete`. -/
def onDelete : Except String AppData := .error "contract is non-deletable (I1/I5)"

/-! ## Views of the boxes -/

namespace AppData

/-- `k_[cell]`. -/
def committedPubkey (app : AppData) (cell : UInt64) : Option Bytes :=
  committedPubkeyMap.get app.boxes cell

/-- `o_[cell]`. -/
def controllingOwner (app : AppData) (cell : UInt64) : Option Bytes :=
  controllingOwnerMap.get app.boxes cell

/-- `i_[cell]`. -/
def inscription (app : AppData) (cell : UInt64) : Option InscriptionRecord :=
  inscriptionsMap.get app.boxes cell

/-- The contents of the box `i_[cell]`. -/
def inscriptionBox (app : AppData) (cell : UInt64) : Option Bytes :=
  app.boxes.lookup (inscriptionsMap.name cell)

/-- The box `i_[cell]` exists. -/
def inscribed (app : AppData) (cell : UInt64) : Bool :=
  inscriptionsMap.contains app.boxes cell

/-- The number of `k_` boxes. -/
def pubkeyCount (app : AppData) : Nat := committedPubkeyMap.count app.boxes

/-- The number of `o_` boxes. -/
def ownerCount (app : AppData) : Nat := controllingOwnerMap.count app.boxes

@[simp] theorem contains_committedPubkey (app : AppData) (cell : UInt64) :
    committedPubkeyMap.contains app.boxes cell = (app.committedPubkey cell).isSome := by
  simp [committedPubkey, BoxMap.contains, BoxMap.get, committedPubkeyMap, bytesBoxMap]

@[simp] theorem contains_controllingOwner (app : AppData) (cell : UInt64) :
    controllingOwnerMap.contains app.boxes cell = (app.controllingOwner cell).isSome := by
  simp [controllingOwner, BoxMap.contains, BoxMap.get, controllingOwnerMap, bytesBoxMap]

/-- The state after a registration. -/
def register (app : AppData) (cell : UInt64) (owner : Address) (pubkey : Bytes) : AppData :=
  { app with
    boxes := controllingOwnerMap.put (committedPubkeyMap.put app.boxes cell pubkey) cell
      owner.bytes
    cellsRegistered := app.cellsRegistered + 1 }

/-- The state after a change of owner. -/
def setOwner (app : AppData) (cell : UInt64) (owner : Address) : AppData :=
  { app with boxes := controllingOwnerMap.put app.boxes cell owner.bytes }

/-- The state after an inscription. -/
def setInscription (app : AppData) (cell : UInt64) (record : InscriptionRecord) : AppData :=
  { app with boxes := inscriptionsMap.put app.boxes cell record }

/-- A read through the map that was written. -/
private theorem get_put {V : Type} (m : BoxMap UInt64 V) (boxes : BoxStore) (c c' : UInt64)
    (v : V) : m.get (m.put boxes c v) c' = if c' = c then some v else m.get boxes c' := by
  split
  · rename_i h
    rw [h, BoxMap.get_put_self]
  · rename_i h
    exact BoxMap.get_put_of_ne m boxes v h

variable (app : AppData) (c c' : UInt64) (owner : Address) (pubkey : Bytes)
  (record : InscriptionRecord)

@[simp] theorem register_admin : (app.register c owner pubkey).admin = app.admin := rfl

@[simp] theorem register_cellsRegistered :
    (app.register c owner pubkey).cellsRegistered = app.cellsRegistered + 1 := rfl

@[simp] theorem register_committedPubkey : (app.register c owner pubkey).committedPubkey c' =
    if c' = c then some pubkey else app.committedPubkey c' := by
  rw [committedPubkey, register, BoxMap.get_put_of_disjoint pubkey_owner_disjoint, get_put]
  rfl

@[simp] theorem register_controllingOwner :
    (app.register c owner pubkey).controllingOwner c' =
      if c' = c then some owner.bytes else app.controllingOwner c' := by
  rw [controllingOwner, register, get_put,
    BoxMap.get_put_of_disjoint pubkey_owner_disjoint.symm]
  rfl

@[simp] theorem register_inscription :
    (app.register c owner pubkey).inscription c' = app.inscription c' := by
  rw [inscription, register, BoxMap.get_put_of_disjoint owner_inscriptions_disjoint.symm,
    BoxMap.get_put_of_disjoint pubkey_inscriptions_disjoint.symm]
  rfl

@[simp] theorem register_inscriptionBox :
    (app.register c owner pubkey).inscriptionBox c' = app.inscriptionBox c' := by
  rw [inscriptionBox, register,
    BoxMap.lookup_put_of_ne _ _ (owner_inscriptions_disjoint.symm.name_ne _ _),
    BoxMap.lookup_put_of_ne _ _ (pubkey_inscriptions_disjoint.symm.name_ne _ _)]
  rfl

@[simp] theorem register_inscribed :
    (app.register c owner pubkey).inscribed c' = app.inscribed c' := by
  rw [inscribed, register, BoxMap.contains_put_of_disjoint owner_inscriptions_disjoint.symm,
    BoxMap.contains_put_of_disjoint pubkey_inscriptions_disjoint.symm]
  rfl

theorem register_pubkeyCount (h : app.committedPubkey c = none) :
    (app.register c owner pubkey).pubkeyCount = app.pubkeyCount + 1 := by
  have hfresh : committedPubkeyMap.contains app.boxes c = false := by
    rw [contains_committedPubkey, h]
    rfl
  rw [pubkeyCount, register, BoxMap.count_put_of_disjoint pubkey_owner_disjoint,
    BoxMap.count_put_of_fresh _ _ _ _ hfresh, pubkeyCount]

theorem register_ownerCount (h : app.controllingOwner c = none) :
    (app.register c owner pubkey).ownerCount = app.ownerCount + 1 := by
  have hfresh : controllingOwnerMap.contains
      (committedPubkeyMap.put app.boxes c pubkey) c = false := by
    rw [BoxMap.contains_put_of_disjoint pubkey_owner_disjoint.symm, contains_controllingOwner, h]
    rfl
  rw [ownerCount, register, BoxMap.count_put_of_fresh _ _ _ _ hfresh,
    BoxMap.count_put_of_disjoint pubkey_owner_disjoint.symm, ownerCount]

@[simp] theorem setOwner_admin : (app.setOwner c owner).admin = app.admin := rfl

@[simp] theorem setOwner_cellsRegistered :
    (app.setOwner c owner).cellsRegistered = app.cellsRegistered := rfl

@[simp] theorem setOwner_committedPubkey :
    (app.setOwner c owner).committedPubkey c' = app.committedPubkey c' :=
  BoxMap.get_put_of_disjoint pubkey_owner_disjoint _ _ _ _

@[simp] theorem setOwner_controllingOwner : (app.setOwner c owner).controllingOwner c' =
    if c' = c then some owner.bytes else app.controllingOwner c' :=
  get_put controllingOwnerMap _ _ _ _

@[simp] theorem setOwner_inscription :
    (app.setOwner c owner).inscription c' = app.inscription c' :=
  BoxMap.get_put_of_disjoint owner_inscriptions_disjoint.symm _ _ _ _

@[simp] theorem setOwner_inscriptionBox :
    (app.setOwner c owner).inscriptionBox c' = app.inscriptionBox c' :=
  BoxMap.lookup_put_of_ne _ _ (owner_inscriptions_disjoint.symm.name_ne _ _)

@[simp] theorem setOwner_inscribed :
    (app.setOwner c owner).inscribed c' = app.inscribed c' :=
  BoxMap.contains_put_of_disjoint owner_inscriptions_disjoint.symm _ _ _ _

@[simp] theorem setOwner_pubkeyCount :
    (app.setOwner c owner).pubkeyCount = app.pubkeyCount :=
  BoxMap.count_put_of_disjoint pubkey_owner_disjoint _ _ _

theorem setOwner_ownerCount (h : (app.controllingOwner c).isSome = true) :
    (app.setOwner c owner).ownerCount = app.ownerCount :=
  BoxMap.count_put_of_contains _ _ _ _ ((contains_controllingOwner app c).trans h)

@[simp] theorem setInscription_admin : (app.setInscription c record).admin = app.admin := rfl

@[simp] theorem setInscription_cellsRegistered :
    (app.setInscription c record).cellsRegistered = app.cellsRegistered := rfl

@[simp] theorem setInscription_committedPubkey :
    (app.setInscription c record).committedPubkey c' = app.committedPubkey c' :=
  BoxMap.get_put_of_disjoint pubkey_inscriptions_disjoint _ _ _ _

@[simp] theorem setInscription_controllingOwner :
    (app.setInscription c record).controllingOwner c' = app.controllingOwner c' :=
  BoxMap.get_put_of_disjoint owner_inscriptions_disjoint _ _ _ _

@[simp] theorem setInscription_inscription : (app.setInscription c record).inscription c' =
    if c' = c then some record else app.inscription c' :=
  get_put inscriptionsMap _ _ _ _

@[simp] theorem setInscription_inscriptionBox :
    (app.setInscription c record).inscriptionBox c' =
      if c' = c then some record.encode else app.inscriptionBox c' := by
  split
  · rename_i h
    rw [h, inscriptionBox, setInscription, BoxMap.put, Finmap.lookup_insert]
    rfl
  · rename_i h
    exact BoxMap.lookup_put_of_ne _ _ (mt (BoxMap.name_inj _).mp h)

@[simp] theorem setInscription_inscribed : (app.setInscription c record).inscribed c' =
    if c' = c then true else app.inscribed c' := by
  split
  · rename_i h
    rw [h]
    exact BoxMap.contains_put_self _ _ _ _
  · rename_i h
    exact BoxMap.contains_put_of_ne _ _ _ h

@[simp] theorem setInscription_pubkeyCount :
    (app.setInscription c record).pubkeyCount = app.pubkeyCount :=
  BoxMap.count_put_of_disjoint pubkey_inscriptions_disjoint _ _ _

@[simp] theorem setInscription_ownerCount :
    (app.setInscription c record).ownerCount = app.ownerCount :=
  BoxMap.count_put_of_disjoint owner_inscriptions_disjoint _ _ _

end AppData

/-! ## What each method needs and does -/

theorem assetParams_bind_eq_ok {α : Type} {ctx : Context} {cell : UInt64}
    {f : AssetParams Address → Except String α} {x : α} :
    (assetParams ctx cell >>= f) = .ok x ↔
      ∃ p, ctx.ledger.params cell = some p ∧ f p = .ok x := by
  cases h : ctx.ledger.params cell <;> simp [assetParams, h, bind, Except.bind]

theorem readBox_bind_eq_ok {V α : Type} {m : BoxMap UInt64 V} {app : AppData} {cell : UInt64}
    {msg : String} {f : V → Except String α} {x : α} :
    (readBox m app cell msg >>= f) = .ok x ↔ ∃ v, m.get app.boxes cell = some v ∧ f v = .ok x := by
  cases h : m.get app.boxes cell <;> simp [readBox, h, bind, Except.bind]

/-- The checks of `register_cell`. -/
structure RegisterGuard (ctx : Context) (cell : UInt64) (owner : Address) (pubkey : Bytes)
    (app : AppData) : Prop where
  admin : ctx.sender = app.admin
  asset : ∃ p, ctx.ledger.params cell = some p ∧ p.total = 1 ∧ p.decimals = 0 ∧
    p.creator = app.admin ∧ p.Sealed
  pubkey_length : pubkey.length = pubkeyLen
  pubkey_header : pubkey.head? = some 0x0A
  cap : app.cellsRegistered < totalCells
  owner_ne_zero : owner.bytes ≠ zeroAddress.bytes
  pubkey_fresh : app.committedPubkey cell = none
  owner_fresh : app.controllingOwner cell = none

/-- The checks of `inscribe`: the structural preconditions and C1 to C5. -/
structure InscribeGuard (net : Network) (ctx : Context) (cell : UInt64) (artifactHash : Hash)
    (sig payloadUri : Bytes) (app : AppData) : Prop where
  sig_length : sig.length ≤ sigCompressedMaxlen
  uri_length : payloadUri.length ≤ uriMaxlen
  holds : (ctx.ledger.holding ctx.sender cell).map (·.amount) = some 1
  owner : app.controllingOwner cell = some ctx.sender.bytes
  fresh : app.inscribed cell = false
  verified : ∃ pubkey, app.committedPubkey cell = some pubkey ∧
    net.falconVerify (buildMessage net ctx.applicationId cell artifactHash.bytes) sig pubkey

/-- The checks of `update_owner`. -/
structure UpdateOwnerGuard (ctx : Context) (cell : UInt64) (newOwner : Address)
    (app : AppData) : Prop where
  owner : app.controllingOwner cell = some ctx.sender.bytes
  fresh : app.inscribed cell = false
  holds : (ctx.ledger.holding ctx.sender cell).map (·.amount) = some 1
  owner_ne_zero : newOwner.bytes ≠ zeroAddress.bytes

theorem create_eq_ok {ctx : Context} {app app' : AppData} :
    create ctx app = .ok app' ↔ app' = { app with admin := ctx.sender } := by
  simp [create, eq_comm]

theorem registerCell_eq_ok {ctx : Context} {cell : UInt64} {owner : Address}
    {pubkey : DynamicBytes} {app app' : AppData} :
    registerCell ctx cell owner pubkey app = .ok app' ↔
      RegisterGuard ctx cell owner pubkey.native app ∧
        app' = app.register cell owner pubkey.native := by
  simp only [registerCell, require_bind_eq_ok, assetParams_bind_eq_ok, Except.ok.injEq,
    AppData.contains_committedPubkey, AppData.contains_controllingOwner,
    Option.isSome_eq_false_iff, Option.isNone_iff_eq_none]
  constructor
  · intro h
    rcases h with ⟨hadmin, p, hp, ⟨htotal, hdecimals⟩, hcreator, hclawback, hfreeze, hmanager,
      hlen, hheader, hcap, howner, hpub, hown, happ⟩
    exact ⟨⟨hadmin, ⟨p, hp, htotal, hdecimals, hcreator, hmanager, hfreeze, hclawback⟩, hlen,
      hheader, hcap, howner, hpub, hown⟩, happ.symm⟩
  · intro h
    rcases h with ⟨⟨hadmin, ⟨p, hp, htotal, hdecimals, hcreator, hmanager, hfreeze, hclawback⟩,
      hlen, hheader, hcap, howner, hpub, hown⟩, rfl⟩
    exact ⟨hadmin, p, hp, ⟨htotal, hdecimals⟩, hcreator, hclawback, hfreeze, hmanager, hlen,
      hheader, hcap, howner, hpub, hown, rfl⟩

theorem inscribe_eq_ok {net : Network} {ctx : Context} {cell : UInt64} {artifactHash : Hash}
    {sig payloadUri : DynamicBytes} {app app' : AppData} :
    inscribe net ctx cell artifactHash sig payloadUri app = .ok app' ↔
      InscribeGuard net ctx cell artifactHash sig.native payloadUri.native app ∧
        app' = app.setInscription cell
          ⟨insVersion, cell, artifactHash, ctx.round, ctx.sender, payloadUri⟩ := by
  simp only [inscribe, require_bind_eq_ok, readBox_bind_eq_ok, Except.ok.injEq,
    AppData.contains_committedPubkey, AppData.contains_controllingOwner]
  constructor
  · intro h
    rcases h with ⟨-, hsig, -, huri, hholds, -, owner, howner, heq, hfresh, pubkey, hpubkey,
      hverify, happ⟩
    exact ⟨⟨hsig, huri, hholds, heq ▸ howner, hfresh, pubkey, hpubkey, hverify⟩, happ.symm⟩
  · intro h
    rcases h with ⟨⟨hsig, huri, hholds, howner, hfresh, pubkey, hpubkey, hverify⟩, rfl⟩
    exact ⟨by rw [hpubkey]; rfl, hsig, artifactHash.length_eq, huri, hholds,
      by rw [howner]; rfl, _, howner, rfl, hfresh, pubkey, hpubkey, hverify, rfl⟩

theorem updateOwner_eq_ok {ctx : Context} {cell : UInt64} {newOwner : Address}
    {app app' : AppData} :
    updateOwner ctx cell newOwner app = .ok app' ↔
      UpdateOwnerGuard ctx cell newOwner app ∧ app' = app.setOwner cell newOwner := by
  simp only [updateOwner, require_bind_eq_ok, readBox_bind_eq_ok, Except.ok.injEq,
    AppData.contains_controllingOwner]
  constructor
  · intro h
    rcases h with ⟨-, owner, howner, heq, hfresh, hholds, hne, happ⟩
    exact ⟨⟨heq ▸ howner, hfresh, hholds, hne⟩, happ.symm⟩
  · intro h
    rcases h with ⟨⟨howner, hfresh, hholds, hne⟩, rfl⟩
    exact ⟨by rw [howner]; rfl, _, howner, rfl, hfresh, hholds, hne, rfl⟩

end Trelyan.Contract
