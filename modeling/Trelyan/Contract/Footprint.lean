import Trelyan.Lib.StoreProgram
import Trelyan.Contract.Approval

/-!
# The boxes that a method touches

The methods of the contract as programs over the box store, one read or write
of a box after the other.  A method reads two more things from the state, the
admin and whether there is a free slot for a cell, and these are arguments of
its program.  `runMethod_eq` says that running the program is running the
method.

Every program stays within the three boxes of its cell
(`Method.program_within`), and a successful `inscribe` touches all three
(`inscribeProgram_touches`).  The names of boxes are distinct, so calls on
distinct cells work on disjoint parts of the store.  What is left between them
is the counter of registered cells: `commute_iff` says that two calls can
be exchanged unless both register a cell and one slot is left.
-/

namespace Trelyan.Contract

open StoreProgram (fail check get put run touched Within run_bind run_check_bind run_get_bind
  touched_bind touched_get_bind touched_check_bind exec_comm)

/-! ## The names of the boxes -/

/-- The three maps of the contract. -/
inductive BoxKind where
  | committedPubkey | controllingOwner | inscription
deriving DecidableEq

/-- The name of a box of a cell. -/
def boxName : BoxKind → UInt64 → Bytes
  | .committedPubkey, c => committedPubkeyMap.name c
  | .controllingOwner, c => controllingOwnerMap.name c
  | .inscription, c => inscriptionsMap.name c

/-- No two boxes of the contract have the same name. -/
theorem boxName_inj {kind kind' : BoxKind} {c c' : UInt64} :
    boxName kind c = boxName kind' c' ↔ kind = kind' ∧ c = c' := by
  cases kind <;> cases kind' <;>
    simp [boxName, BoxMap.name_inj, pubkey_owner_disjoint.name_ne,
      pubkey_owner_disjoint.symm.name_ne, pubkey_inscriptions_disjoint.name_ne,
      pubkey_inscriptions_disjoint.symm.name_ne, owner_inscriptions_disjoint.name_ne,
      owner_inscriptions_disjoint.symm.name_ne]

/-- The boxes of a cell. -/
def cellBoxes (c : UInt64) : Set Bytes := {n | ∃ kind, n = boxName kind c}

theorem cellBoxes_disjoint {c c' : UInt64} (h : c ≠ c') :
    ∀ n ∈ cellBoxes c, n ∉ cellBoxes c' := by
  intro n hn hn'
  rcases hn with ⟨kind, rfl⟩
  rcases hn' with ⟨kind', heq⟩
  exact h (boxName_inj.mp heq).2

/-! ## The programs -/

/-- A program over the boxes. -/
abbrev BoxProgram := StoreProgram Bytes Bytes String

namespace BoxProgram

variable {V : Type}

/-- `key in map`. -/
def exists? (m : BoxMap UInt64 V) (cell : UInt64) : BoxProgram Bool := do
  let box ← get (m.name cell)
  pure box.isSome

/-- `map[key]`. -/
def fetch (m : BoxMap UInt64 V) (cell : UInt64) (msg : String) : BoxProgram V := do
  let box ← get (m.name cell)
  match box.bind m.decode with
  | some v => pure v
  | none => fail msg

/-- `map[key] = v`. -/
def store (m : BoxMap UInt64 V) (cell : UInt64) (v : V) : BoxProgram Unit :=
  put (m.name cell) (m.encode v)

/-- A step that does not look at the boxes. -/
def lift {α : Type} (x : Except String α) : BoxProgram α :=
  match x with
  | .ok a => pure a
  | .error e => fail e

end BoxProgram

open BoxProgram

/-- `register_cell`.  `room` says that there is a free slot. -/
def registerCellProgram (ctx : Context) (admin : Address) (room : Bool) (cell : UInt64)
    (controllingOwner : Address) (committedPubkey : DynamicBytes) : BoxProgram Unit := do
  check (ctx.sender = admin) "only admin may register cells"
  let asset ← lift (assetParams ctx cell)
  check (asset.total = 1 ∧ asset.decimals = 0) "cell must be a pure NFT"
  check (asset.creator = admin) "cell ASA not created by admin"
  check (asset.clawback = zeroAddress) "cell must have no clawback"
  check (asset.freeze = zeroAddress) "cell must have no freeze"
  check (asset.manager = zeroAddress) "cell manager must be cleared (immutable config)"
  check (committedPubkey.native.length = pubkeyLen) "bad committed pubkey length"
  check (committedPubkey.native.head? = some 0x0A) "bad committed pubkey header (logn=10)"
  check (room = true) "all 1024 cells registered"
  check (controllingOwner.bytes ≠ zeroAddress.bytes)
    "controlling owner cannot be the zero address"
  let registered ← exists? committedPubkeyMap cell
  check (registered = false) "cell already registered"
  let owned ← exists? controllingOwnerMap cell
  check (owned = false) "cell already registered (owner)"
  store committedPubkeyMap cell committedPubkey.native
  store controllingOwnerMap cell controllingOwner.bytes

/-- `inscribe`. -/
def inscribeProgram (net : Network) (ctx : Context) (cell : UInt64) (artifactHash : Hash)
    (falconSig payloadUri : DynamicBytes) : BoxProgram Unit := do
  let registered ← exists? committedPubkeyMap cell
  check (registered = true) "cell not registered"
  check (falconSig.native.length ≤ sigCompressedMaxlen) "falcon sig too large"
  check (artifactHash.bytes.length = hashLen) "bad artifact hash length"
  check (payloadUri.native.length ≤ uriMaxlen) "payload_uri too long"
  check ((ctx.ledger.holding ctx.sender cell).map (·.amount) = some 1)
    "sender does not hold the cell"
  let owned ← exists? controllingOwnerMap cell
  check (owned = true) "no controlling owner set"
  let owner ← fetch controllingOwnerMap cell "check self.controlling_owner entry exists"
  check (owner = ctx.sender.bytes) "sender not controlling owner"
  let inscribed ← exists? inscriptionsMap cell
  check (inscribed = false) "cell already inscribed"
  let pubkey ← fetch committedPubkeyMap cell "check self.committed_pubkey entry exists"
  let m := buildMessage net ctx.applicationId cell artifactHash.bytes
  check (net.falconVerify m falconSig.native pubkey) "falcon signature invalid"
  store inscriptionsMap cell {
    version := insVersion
    cellId := cell
    artifactHash
    inscribedRound := ctx.round
    inscriber := ctx.sender
    payloadUri }

/-- `update_owner`. -/
def updateOwnerProgram (ctx : Context) (cell : UInt64) (newOwner : Address) :
    BoxProgram Unit := do
  let owned ← exists? controllingOwnerMap cell
  check (owned = true) "cell not registered"
  let owner ← fetch controllingOwnerMap cell "check self.controlling_owner entry exists"
  check (owner = ctx.sender.bytes) "only controlling owner"
  let inscribed ← exists? inscriptionsMap cell
  check (inscribed = false) "already inscribed; owner frozen"
  check ((ctx.ledger.holding ctx.sender cell).map (·.amount) = some 1)
    "caller does not hold the cell"
  check (newOwner.bytes ≠ zeroAddress.bytes) "new owner cannot be the zero address"
  store controllingOwnerMap cell newOwner.bytes

/-- `get_inscription`. -/
def getInscriptionProgram (cell : UInt64) : BoxProgram Unit := do
  let _ ← fetch inscriptionsMap cell "check self.inscriptions entry exists"
  pure ()

namespace Method

/-- The program of a call. -/
def program (net : Network) (ctx : Context) (admin : Address) (room : Bool) :
    Method → BoxProgram Unit
  | .registerCell cell controllingOwner committedPubkey =>
    registerCellProgram ctx admin room cell controllingOwner committedPubkey
  | .inscribe cell artifactHash falconSig payloadUri =>
    inscribeProgram net ctx cell artifactHash falconSig payloadUri
  | .updateOwner cell newOwner => updateOwnerProgram ctx cell newOwner
  | .getInscription cellId => getInscriptionProgram cellId

/-- A call of `register_cell`. -/
def registers : Method → Bool
  | .registerCell .. => true
  | _ => false

/-- What a successful call adds to the counter. -/
def registrations (m : Method) : UInt64 := if m.registers then 1 else 0

end Method

/-- There is a free slot. -/
def AppData.hasRoom (app : AppData) : Bool := decide (app.cellsRegistered < totalCells)

/-- The state with new boxes, after `n` more registrations. -/
def AppData.advance (app : AppData) (n : UInt64) (boxes : BoxStore) : AppData :=
  { app with boxes, cellsRegistered := app.cellsRegistered + n }

/-! ## Running the steps of a program -/

section Steps

variable {α β V : Type}

theorem run_exists_bind (m : BoxMap UInt64 V) (cell : UInt64) (f : Bool → BoxProgram α)
    (boxes : BoxStore) :
    run (exists? m cell >>= f) boxes = run (f (m.contains boxes cell)) boxes := rfl

theorem run_lift_bind (x : Except String β) (f : β → BoxProgram α) (boxes : BoxStore) :
    run (lift x >>= f) boxes = x >>= fun b => run (f b) boxes := by
  cases x <;> rfl

theorem run_fetch_bind (m : BoxMap UInt64 V) (app : AppData) (cell : UInt64) (msg : String)
    (f : V → BoxProgram α) :
    run (fetch m cell msg >>= f) app.boxes =
      readBox m app cell msg >>= fun v => run (f v) app.boxes := by
  rw [run_bind, fetch, run_get_bind]
  unfold readBox BoxMap.get
  cases (app.boxes.lookup (m.name cell)).bind m.decode <;> rfl

theorem run_store (m : BoxMap UInt64 V) (cell : UInt64) (v : V) (boxes : BoxStore) :
    run (store m cell v) boxes = .ok ((), m.put boxes cell v) := rfl

theorem run_store_bind (m : BoxMap UInt64 V) (cell : UInt64) (v : V)
    (f : Unit → BoxProgram α) (boxes : BoxStore) :
    run (store m cell v >>= f) boxes = run (f ()) (m.put boxes cell v) := rfl

end Steps

/-- Running the program of a method is running the method. -/
theorem runMethod_eq (net : Network) (ctx : Context) (app : AppData) (m : Method) :
    runMethod net ctx app m =
      (run (m.program net ctx app.admin app.hasRoom) app.boxes).map fun r =>
        app.advance m.registrations r.2 := by
  cases m with
  | registerCell cell owner pubkey =>
    simp only [runMethod, registerCell, Method.program, registerCellProgram, run_check_bind,
      run_lift_bind, run_exists_bind, run_store_bind, run_store, map_bind, AppData.hasRoom,
      decide_eq_true_eq]
    rfl
  | inscribe cell artifactHash sig uri =>
    simp only [runMethod, inscribe, Method.program, inscribeProgram, run_check_bind,
      run_fetch_bind, run_exists_bind, run_store, map_bind]
    simp [Except.map, AppData.advance, Method.registrations, Method.registers]
  | updateOwner cell newOwner =>
    simp only [runMethod, updateOwner, Method.program, updateOwnerProgram, run_check_bind,
      run_fetch_bind, run_exists_bind, run_store, map_bind]
    simp [Except.map, AppData.advance, Method.registrations, Method.registers]
  | getInscription cellId =>
    simp only [runMethod, getInscription, Method.program, getInscriptionProgram, run_fetch_bind,
      map_bind]
    cases readBox inscriptionsMap app cellId "check self.inscriptions entry exists" <;>
      simp [Except.map, AppData.advance, Method.registrations, Method.registers, bind, Except.bind]

/-! ## Every program stays within the boxes of its cell -/

section Within

variable {V : Type} {m : BoxMap UInt64 V} {cell : UInt64} {S : Set Bytes}

theorem exists_within (h : m.name cell ∈ S) : (exists? m cell).Within S :=
  Within.bind (Within.get h) fun _ => Within.pure _

theorem fetch_within (h : m.name cell ∈ S) (msg : String) : (fetch m cell msg).Within S := by
  refine Within.bind (Within.get h) fun box => ?_
  cases box.bind m.decode with
  | none => exact Within.fail msg
  | some v => exact Within.pure v

theorem store_within (h : m.name cell ∈ S) (v : V) : (store m cell v).Within S :=
  Within.put h _

theorem lift_within {α : Type} (x : Except String α) : (lift x).Within S := by
  cases x with
  | error e => exact Within.fail e
  | ok a => exact Within.pure a

end Within

theorem mem_cellBoxes (kind : BoxKind) (c : UInt64) : boxName kind c ∈ cellBoxes c := ⟨kind, rfl⟩

/-- No call reads or writes a box of another cell. -/
theorem Method.program_within (net : Network) (ctx : Context) (admin : Address) (room : Bool)
    (m : Method) : (m.program net ctx admin room).Within (cellBoxes m.cell) := by
  have hpubkey : ∀ c, committedPubkeyMap.name c ∈ cellBoxes c := mem_cellBoxes .committedPubkey
  have howner : ∀ c, controllingOwnerMap.name c ∈ cellBoxes c := mem_cellBoxes .controllingOwner
  have hins : ∀ c, inscriptionsMap.name c ∈ cellBoxes c := mem_cellBoxes .inscription
  cases m with
  | registerCell cell owner pubkey =>
    unfold Method.program registerCellProgram Method.cell
    -- One step of the program after the other.
    repeat' first
      | exact Within.check _ _
      | exact lift_within _
      | exact exists_within (hpubkey cell)
      | exact exists_within (howner cell)
      | exact store_within (hpubkey cell) _
      | exact store_within (howner cell) _
      | refine Within.bind ?_ fun _ => ?_
  | inscribe cell artifactHash sig uri =>
    unfold Method.program inscribeProgram Method.cell
    repeat' first
      | exact Within.check _ _
      | exact exists_within (hpubkey cell)
      | exact exists_within (howner cell)
      | exact exists_within (hins cell)
      | exact fetch_within (hpubkey cell) _
      | exact fetch_within (howner cell) _
      | exact store_within (hins cell) _
      | refine Within.bind ?_ fun _ => ?_
  | updateOwner cell newOwner =>
    unfold Method.program updateOwnerProgram Method.cell
    repeat' first
      | exact Within.check _ _
      | exact exists_within (howner cell)
      | exact exists_within (hins cell)
      | exact fetch_within (howner cell) _
      | exact store_within (howner cell) _
      | refine Within.bind ?_ fun _ => ?_
  | getInscription cellId =>
    exact Within.bind (fetch_within (hins cellId) _) fun _ => Within.pure ()

section Touched

variable {α V : Type}

theorem touched_exists_bind (m : BoxMap UInt64 V) (cell : UInt64) (f : Bool → BoxProgram α)
    (boxes : BoxStore) :
    touched (exists? m cell >>= f) boxes =
      m.name cell :: touched (f (m.contains boxes cell)) boxes := rfl

theorem touched_fetch_bind {m : BoxMap UInt64 V} {cell : UInt64} {boxes : BoxStore} {v : V}
    (h : m.get boxes cell = some v) (msg : String) (f : V → BoxProgram α) :
    touched (fetch m cell msg >>= f) boxes = m.name cell :: touched (f v) boxes := by
  have hbox : (boxes.lookup (m.name cell)).bind m.decode = some v := h
  rw [touched_bind, fetch, touched_get_bind, run_get_bind, hbox]
  rfl

end Touched

/-- A successful `inscribe` touches all three boxes of its cell. -/
theorem inscribeProgram_touches {net : Network} {ctx : Context} {cell : UInt64}
    {artifactHash : Hash} {sig uri : DynamicBytes} {app : AppData}
    (h : InscribeGuard net ctx cell artifactHash sig.native uri.native app) :
    ∀ n ∈ cellBoxes cell, n ∈ touched (inscribeProgram net ctx cell artifactHash sig uri)
      app.boxes := by
  obtain ⟨pubkey, hpubkey, hverify⟩ := h.verified
  have hregistered : committedPubkeyMap.contains app.boxes cell = true := by
    rw [AppData.contains_committedPubkey, hpubkey]
    rfl
  have howned : controllingOwnerMap.contains app.boxes cell = true := by
    rw [AppData.contains_controllingOwner, h.owner]
    rfl
  have hfresh : inscriptionsMap.contains app.boxes cell = false := h.fresh
  have hhash : artifactHash.bytes.length = hashLen := artifactHash.length_eq
  unfold inscribeProgram
  rw [touched_exists_bind, touched_check_bind hregistered, touched_check_bind h.sig_length,
    touched_check_bind hhash, touched_check_bind h.uri_length,
    touched_check_bind h.holds, touched_exists_bind, touched_check_bind howned,
    touched_fetch_bind h.owner, touched_check_bind rfl, touched_exists_bind,
    touched_check_bind hfresh]
  intro n hn
  rcases hn with ⟨kind, rfl⟩
  cases kind <;> simp [boxName]

/-! ## Calls in either order -/

/-- Send one call: whether it succeeds, and the state afterwards.  A call that
fails changes nothing. -/
def execute (net : Network) (ctx : Context) (m : Method) (app : AppData) : Bool × AppData :=
  match runMethod net ctx app m with
  | .ok app' => (true, app')
  | .error _ => (false, app)

/-- The program of a call, in a state. -/
def Method.programAt (net : Network) (ctx : Context) (m : Method) (app : AppData) :
    BoxProgram Unit :=
  m.program net ctx app.admin app.hasRoom

theorem execute_fst (net : Network) (ctx : Context) (m : Method) (app : AppData) :
    (execute net ctx m app).1 = (StoreProgram.exec (m.programAt net ctx app) app.boxes).1.isOk := by
  unfold execute StoreProgram.exec
  rw [runMethod_eq, Method.programAt]
  cases run (m.program net ctx app.admin app.hasRoom) app.boxes <;> rfl

theorem execute_snd (net : Network) (ctx : Context) (m : Method) (app : AppData) :
    (execute net ctx m app).2 =
      app.advance (if (execute net ctx m app).1 then m.registrations else 0)
        (StoreProgram.exec (m.programAt net ctx app) app.boxes).2 := by
  unfold execute StoreProgram.exec
  rw [runMethod_eq, Method.programAt]
  cases run (m.program net ctx app.admin app.hasRoom) app.boxes with
  | error e => simp [Except.map, AppData.advance]
  | ok r => simp [Except.map]

theorem execute_of_fail {net : Network} {ctx : Context} {m : Method} {app : AppData}
    (h : (execute net ctx m app).1 = false) : (execute net ctx m app).2 = app := by
  unfold execute at *
  split at h
  · cases h
  · rfl

/-- A call leaves the boxes of the other cells as they were. -/
theorem execute_frame (net : Network) (ctx : Context) (m : Method) (app : AppData)
    {c : UInt64} (h : c ≠ m.cell) (kind : BoxKind) :
    (execute net ctx m app).2.boxes.lookup (boxName kind c) =
      app.boxes.lookup (boxName kind c) := by
  rw [execute_snd]
  refine StoreProgram.exec_frame (m.program_within net ctx app.admin app.hasRoom) app.boxes ?_
  intro hmem
  rcases hmem with ⟨kind', heq⟩
  exact h (boxName_inj.mp heq).2

/-- No cell is registered without a free slot. -/
theorem execute_of_full {net : Network} {ctx : Context} {m : Method} {app : AppData}
    (hm : m.registers = true) (hroom : app.hasRoom = false) :
    (execute net ctx m app).1 = false := by
  cases m with
  | registerCell cell owner pubkey =>
    unfold execute
    split
    · rename_i app' hok
      have hcap := (registerCell_eq_ok.mp hok).1.cap
      rw [AppData.hasRoom, decide_eq_false_iff_not] at hroom
      exact absurd hcap hroom
    · rfl
  | _ => cases hm

/-- The two calls register a cell each, alone each would succeed, and one slot
is left. -/
def Contend (net : Network) (ctx ctx' : Context) (m m' : Method) (app : AppData) : Prop :=
  m.registers = true ∧ m'.registers = true ∧ app.cellsRegistered = 1023 ∧
    (execute net ctx m app).1 = true ∧ (execute net ctx' m' app).1 = true

/-- Each call has the same outcome in either order, and the final states are
equal. -/
def Commute (net : Network) (ctx ctx' : Context) (m m' : Method) (app : AppData) : Prop :=
  (execute net ctx' m' (execute net ctx m app).2).1 = (execute net ctx' m' app).1 ∧
    (execute net ctx m (execute net ctx' m' app).2).1 = (execute net ctx m app).1 ∧
    (execute net ctx' m' (execute net ctx m app).2).2 =
      (execute net ctx m (execute net ctx' m' app).2).2

section Commute

variable {net : Network} {ctx ctx' : Context} {m m' : Method} {app : AppData}

theorem Commute.symm (h : Commute net ctx ctx' m m' app) : Commute net ctx' ctx m' m app :=
  ⟨h.2.1, h.1, h.2.2.symm⟩

/-- A call that fails, also after the other call, does not matter. -/
theorem commute_of_fail (h : (execute net ctx m app).1 = false)
    (h' : (execute net ctx m (execute net ctx' m' app).2).1 = false) :
    Commute net ctx ctx' m m' app := by
  refine ⟨?_, ?_, ?_⟩
  · rw [execute_of_fail h]
  · rw [h, h']
  · rw [execute_of_fail h, execute_of_fail h']

theorem succ_lt_totalCells {n : UInt64} (hcap : n < totalCells) (hlast : n ≠ 1023) :
    n + 1 < totalCells := by
  have hlt : n.toNat < 1024 := UInt64.lt_iff_toNat_lt.mp hcap
  have hne : n.toNat ≠ 1023 := fun heq => hlast (UInt64.toNat_inj.mp heq)
  have hadd : (n + 1).toNat = n.toNat + 1 := by
    rw [UInt64.toNat_add, show (1 : UInt64).toNat = 1 from rfl]
    omega
  rw [UInt64.lt_iff_toNat_lt, hadd, show totalCells.toNat = 1024 from rfl]
  omega

/-- A call runs the same program after the other one, except when both
register a cell and the other one takes the last slot. -/
theorem programAt_stable
    (h : ¬ (m.registers = true ∧ m'.registers = true ∧ app.cellsRegistered = 1023)) :
    m'.programAt net ctx' (execute net ctx m app).2 = m'.programAt net ctx' app := by
  have hadmin : (execute net ctx m app).2.admin = app.admin := by
    rw [execute_snd]
    rfl
  unfold Method.programAt
  rw [hadmin]
  by_cases hm' : m'.registers = true
  · have hroom : (execute net ctx m app).2.hasRoom = app.hasRoom := by
      rw [execute_snd, AppData.hasRoom, AppData.hasRoom]
      split
      · rename_i hok
        unfold Method.registrations AppData.advance
        split
        · rename_i hm
          -- A registration below the cap that does not fill it.
          have hroom : app.hasRoom = true := by
            cases hfull : app.hasRoom with
            | true => rfl
            | false =>
              rw [execute_of_full hm hfull] at hok
              cases hok
          have hcap : app.cellsRegistered < totalCells := of_decide_eq_true hroom
          have hlast : app.cellsRegistered ≠ 1023 := fun heq => h ⟨hm, hm', heq⟩
          rw [decide_eq_true (succ_lt_totalCells hcap hlast), decide_eq_true hcap]
        · simp
      · simp [AppData.advance]
    rw [hroom]
  · cases m' with
    | registerCell cell owner pubkey => exact absurd rfl hm'
    | _ => rfl

/-- Two calls whose programs do not change commute. -/
theorem commute_of_stable (hcell : m.cell ≠ m'.cell)
    (h : m.programAt net ctx (execute net ctx' m' app).2 = m.programAt net ctx app)
    (h' : m'.programAt net ctx' (execute net ctx m app).2 = m'.programAt net ctx' app) :
    Commute net ctx ctx' m m' app := by
  obtain ⟨hfst, hfst', hsnd⟩ :=
    exec_comm (m.program_within net ctx app.admin app.hasRoom)
      (m'.program_within net ctx' app.admin app.hasRoom) (cellBoxes_disjoint hcell) app.boxes
  have hboxes : (execute net ctx m app).2.boxes =
      (StoreProgram.exec (m.programAt net ctx app) app.boxes).2 := by
    rw [execute_snd]
    rfl
  have hboxes' : (execute net ctx' m' app).2.boxes =
      (StoreProgram.exec (m'.programAt net ctx' app) app.boxes).2 := by
    rw [execute_snd]
    rfl
  have hok : (execute net ctx m (execute net ctx' m' app).2).1 = (execute net ctx m app).1 := by
    rw [execute_fst, h, hboxes', execute_fst]
    exact congrArg Except.isOk hfst
  have hok' : (execute net ctx' m' (execute net ctx m app).2).1 =
      (execute net ctx' m' app).1 := by
    rw [execute_fst, h', hboxes, execute_fst]
    exact congrArg Except.isOk hfst'
  refine ⟨hok', hok, ?_⟩
  have hcount : ∀ a b : UInt64, app.cellsRegistered + a + b = app.cellsRegistered + b + a := by
    intro a b
    rw [UInt64.add_assoc, UInt64.add_comm a b, UInt64.add_assoc]
  rw [execute_snd net ctx' m', execute_snd net ctx m (execute net ctx' m' app).2, hok, hok', h, h',
    hboxes, hboxes', execute_snd net ctx m app, execute_snd net ctx' m' app]
  unfold AppData.advance Method.programAt
  rw [hsnd, hcount]

/-- After a registration that takes the last slot no other one succeeds. -/
theorem execute_after_last (hm : m.registers = true) (hm' : m'.registers = true)
    (hlast : app.cellsRegistered = 1023) (hok : (execute net ctx m app).1 = true) :
    (execute net ctx' m' (execute net ctx m app).2).1 = false := by
  refine execute_of_full hm' ?_
  rw [execute_snd, hok, if_pos rfl, Method.registrations, hm, if_pos rfl, AppData.hasRoom,
    AppData.advance, hlast]
  exact decide_eq_false (show ¬ (1023 + 1 : UInt64) < totalCells by decide)

/-- Calls on distinct cells commute, unless they contend for the last slot. -/
theorem commute_iff (hcell : m.cell ≠ m'.cell) :
    Commute net ctx ctx' m m' app ↔ ¬ Contend net ctx ctx' m m' app := by
  by_cases hlast : m.registers = true ∧ m'.registers = true ∧ app.cellsRegistered = 1023
  · rcases hlast with ⟨hm, hm', hcount⟩
    cases hok : (execute net ctx m app).1 with
    | false =>
      have hfail : (execute net ctx m (execute net ctx' m' app).2).1 = false := by
        cases hok' : (execute net ctx' m' app).1 with
        | false => rw [execute_of_fail hok', hok]
        | true => exact execute_after_last hm' hm hcount hok'
      refine iff_of_true (commute_of_fail hok hfail) ?_
      intro hcontend
      rw [hcontend.2.2.2.1] at hok
      cases hok
    | true =>
      have hfull : (execute net ctx' m' (execute net ctx m app).2).1 = false :=
        execute_after_last hm hm' hcount hok
      cases hok' : (execute net ctx' m' app).1 with
      | false =>
        refine iff_of_true (commute_of_fail hok' hfull).symm ?_
        intro hcontend
        rw [hcontend.2.2.2.2] at hok'
        cases hok'
      | true =>
        refine iff_of_false ?_ fun h => h ⟨hm, hm', hcount, hok, hok'⟩
        intro hcommute
        have heq := hcommute.1
        rw [hfull, hok'] at heq
        cases heq
  · refine iff_of_true (commute_of_stable hcell (programAt_stable ?_) (programAt_stable hlast)) ?_
    · intro h
      exact hlast ⟨h.2.1, h.1, h.2.2⟩
    · intro hcontend
      exact hlast ⟨hcontend.1, hcontend.2.1, hcontend.2.2.1⟩

end Commute

end Trelyan.Contract
