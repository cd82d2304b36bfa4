import Trelyan.Contract.Methods

/-!
# The approval program

The router that the compiler puts in front of the methods, after
`contracts/out/TrelyanInscription.approval.teal`.  A call arrives as a list
of byte strings.  The first one selects the method, the others are the ARC-4
encodings of its arguments, and a call without arguments is a bare call that
is routed by its completion action.

`Method.decode` is the argument decoder and `Method.appArgs` the encoding a
client sends; `decode_appArgs` says that the first undoes the second.
`approval` is the whole program and `approval_cases` its inversion lemma: a
successful call is a creation by `create`, or a no-op call of one of the four
methods.  Every bare call fails.
-/

namespace Trelyan.Contract

/-- `Txn.on_completion`. -/
inductive OnCompletion where
  | noOp | optIn | closeOut | clearState | updateApplication | deleteApplication
deriving DecidableEq

/-! ## Selectors and arguments -/

/-- `create()void`. -/
def createSelector : Bytes := [0x4c, 0x5c, 0x61, 0xba]

/-- `register_cell(uint64,address,byte[])void`. -/
def registerCellSelector : Bytes := [0x9b, 0x44, 0x7d, 0xfd]

/-- `inscribe(uint64,byte[32],byte[],byte[])void`. -/
def inscribeSelector : Bytes := [0x9d, 0x30, 0x0c, 0xf2]

/-- `update_owner(uint64,address)void`. -/
def updateOwnerSelector : Bytes := [0xad, 0xf9, 0x75, 0xab]

/-- `get_inscription(uint64)(uint8,uint64,byte[32],uint64,address,byte[])`. -/
def getInscriptionSelector : Bytes := [0xaa, 0xdf, 0xdf, 0xd3]

/-- `txna ApplicationArgs i`. -/
def appArg (args : List Bytes) (i : Nat) : Except String Bytes :=
  match args[i]? with
  | some arg => .ok arg
  | none => .error "invalid ApplicationArgs index"

def decodeUint64 (arg : Bytes) : Except String UInt64 :=
  if arg.length = 8 then .ok (btoi arg)
  else .error "invalid number of bytes for arc4.uint64"

def decodeFixed32 (arg : Bytes) : Except String (FixedBytes 32) :=
  match FixedBytes.ofBytes? 32 arg with
  | some b => .ok b
  | none => .error "invalid number of bytes for arc4.static_array<arc4.uint8, 32>"

def decodeDynamic (arg : Bytes) : Except String DynamicBytes :=
  if arg.length < 2 then .error "invalid array length header"
  else match DynamicBytes.decode arg with
    | some b => .ok b
    | none => .error "invalid number of bytes for arc4.dynamic_array<arc4.uint8>"

/-- A call of one of the four methods of an existing application. -/
inductive Method where
  | registerCell (cell : UInt64) (controllingOwner : Address) (committedPubkey : DynamicBytes)
  | inscribe (cell : UInt64) (artifactHash : Hash) (falconSig payloadUri : DynamicBytes)
  | updateOwner (cell : UInt64) (newOwner : Address)
  | getInscription (cellId : UInt64)

namespace Method

/-- Match the selector, then decode the arguments.  Further arguments are
ignored. -/
def decode (args : List Bytes) : Except String Method := do
  let selector ← appArg args 0
  if selector = registerCellSelector then do
    let cell ← appArg args 1 >>= decodeUint64
    let controllingOwner ← appArg args 2 >>= decodeFixed32
    let committedPubkey ← appArg args 3 >>= decodeDynamic
    .ok (.registerCell cell controllingOwner committedPubkey)
  else if selector = inscribeSelector then do
    let cell ← appArg args 1 >>= decodeUint64
    let artifactHash ← appArg args 2 >>= decodeFixed32
    let falconSig ← appArg args 3 >>= decodeDynamic
    let payloadUri ← appArg args 4 >>= decodeDynamic
    .ok (.inscribe cell artifactHash falconSig payloadUri)
  else if selector = updateOwnerSelector then do
    let cell ← appArg args 1 >>= decodeUint64
    let newOwner ← appArg args 2 >>= decodeFixed32
    .ok (.updateOwner cell newOwner)
  else if selector = getInscriptionSelector then do
    let cellId ← appArg args 1 >>= decodeUint64
    .ok (.getInscription cellId)
  else .error "no method for the selector"

/-- The first argument of a call of the method. -/
def selector : Method → Bytes
  | .registerCell .. => registerCellSelector
  | .inscribe .. => inscribeSelector
  | .updateOwner .. => updateOwnerSelector
  | .getInscription .. => getInscriptionSelector

/-- The cell that the method is about. -/
def cell : Method → UInt64
  | .registerCell c .. => c
  | .inscribe c .. => c
  | .updateOwner c .. => c
  | .getInscription c => c

/-- The arguments a client sends for a method. -/
def appArgs : Method → List Bytes
  | .registerCell cell controllingOwner committedPubkey =>
    [registerCellSelector, itob cell, controllingOwner.bytes, committedPubkey.encode]
  | .inscribe cell artifactHash falconSig payloadUri =>
    [inscribeSelector, itob cell, artifactHash.bytes, falconSig.encode, payloadUri.encode]
  | .updateOwner cell newOwner => [updateOwnerSelector, itob cell, newOwner.bytes]
  | .getInscription cellId => [getInscriptionSelector, itob cellId]

end Method

@[simp] theorem decodeUint64_itob (n : UInt64) : decodeUint64 (itob n) = .ok n := by
  rw [decodeUint64, if_pos (itob_length n), btoi_itob]

@[simp] theorem decodeFixed32_bytes (b : FixedBytes 32) : decodeFixed32 b.bytes = .ok b := by
  rw [decodeFixed32, FixedBytes.ofBytes?_bytes]

/-- The bytes a client encodes decode exactly when they fit the length
word. -/
theorem decodeDynamic_encodeBytes (bytes : Bytes) :
    decodeDynamic (DynamicBytes.encodeBytes bytes) =
      if h : bytes.length < 65536 then .ok ⟨bytes, h⟩
      else .error "invalid number of bytes for arc4.dynamic_array<arc4.uint8>" := by
  have hlen : ¬ (DynamicBytes.encodeBytes bytes).length < 2 := by
    rw [DynamicBytes.encodeBytes, List.length_append, BigEndian.encode_length]
    omega
  rw [decodeDynamic, if_neg hlen, DynamicBytes.decode_encodeBytes]
  by_cases h : bytes.length < 65536 <;> simp [h]

@[simp] theorem decodeDynamic_encode (b : DynamicBytes) : decodeDynamic b.encode = .ok b := by
  rw [DynamicBytes.encode, decodeDynamic_encodeBytes, dif_pos b.length_lt]

theorem appArg_eq_ok {args : List Bytes} {i : Nat} {arg : Bytes} :
    appArg args i = .ok arg ↔ args[i]? = some arg := by
  cases h : args[i]? <;> simp [appArg, h]

/-- Arguments that decode begin with the selector and the cell of the
method. -/
theorem Method.decode_cases {args : List Bytes} {m : Method} (h : Method.decode args = .ok m) :
    args[0]? = some m.selector ∧ ∃ arg, args[1]? = some arg ∧ decodeUint64 arg = .ok m.cell := by
  obtain ⟨selector, hsel, h⟩ := bind_eq_ok.mp h
  rw [appArg_eq_ok] at hsel
  have hcell : ∀ c, (appArg args 1 >>= decodeUint64) = .ok c →
      ∃ arg, args[1]? = some arg ∧ decodeUint64 arg = .ok c := by
    intro c hc
    obtain ⟨arg, harg, hdecode⟩ := bind_eq_ok.mp hc
    exact ⟨arg, appArg_eq_ok.mp harg, hdecode⟩
  split at h
  · rename_i heq
    rw [heq] at hsel
    obtain ⟨c, hc, h⟩ := bind_eq_ok.mp h
    obtain ⟨owner, -, h⟩ := bind_eq_ok.mp h
    obtain ⟨pubkey, -, h⟩ := bind_eq_ok.mp h
    cases h
    exact ⟨hsel, hcell c hc⟩
  split at h
  · rename_i heq
    rw [heq] at hsel
    obtain ⟨c, hc, h⟩ := bind_eq_ok.mp h
    obtain ⟨artifactHash, -, h⟩ := bind_eq_ok.mp h
    obtain ⟨sig, -, h⟩ := bind_eq_ok.mp h
    obtain ⟨uri, -, h⟩ := bind_eq_ok.mp h
    cases h
    exact ⟨hsel, hcell c hc⟩
  split at h
  · rename_i heq
    rw [heq] at hsel
    obtain ⟨c, hc, h⟩ := bind_eq_ok.mp h
    obtain ⟨newOwner, -, h⟩ := bind_eq_ok.mp h
    cases h
    exact ⟨hsel, hcell c hc⟩
  split at h
  · rename_i heq
    rw [heq] at hsel
    obtain ⟨c, hc, h⟩ := bind_eq_ok.mp h
    cases h
    exact ⟨hsel, hcell c hc⟩
  · cases h

/-- The router decodes what a client encodes. -/
theorem Method.decode_appArgs (m : Method) : Method.decode m.appArgs = .ok m := by
  cases m <;>
    simp [Method.decode, Method.appArgs, appArg, bind, Except.bind, registerCellSelector,
      inscribeSelector, updateOwnerSelector, getInscriptionSelector]

/-! ## The program -/

/-- A program: what runs on an application call, and what runs when an
account clears its local state. -/
structure Program where
  approval : Context → Bool → OnCompletion → List Bytes → AppData → Except String AppData
  clearState : Context → List Bytes → AppData → Except String AppData

/-- Run one method. -/
def runMethod (net : Network) (ctx : Context) (app : AppData) :
    Method → Except String AppData
  | .registerCell cell controllingOwner committedPubkey =>
    registerCell ctx cell controllingOwner committedPubkey app
  | .inscribe cell artifactHash falconSig payloadUri =>
    inscribe net ctx cell artifactHash falconSig payloadUri app
  | .updateOwner cell newOwner => updateOwner ctx cell newOwner app
  | .getInscription cellId => (getInscription cellId app).map fun _ => app

/-- The approval program.  `creating` says that the call creates the
application. -/
def approval (net : Network) (ctx : Context) (creating : Bool) (onCompletion : OnCompletion)
    (args : List Bytes) (app : AppData) : Except String AppData :=
  match args with
  | [] =>
    match onCompletion with
    | .updateApplication => do
      require (creating = false) "txn ApplicationID"
      onUpdate
    | .deleteApplication => do
      require (creating = false) "txn ApplicationID"
      onDelete
    | _ => .error "no bare method for the completion action"
  | selector :: _ => do
    require (onCompletion = .noOp) "OnCompletion is not NoOp"
    if creating then
      if selector = createSelector then create ctx app
      else .error "no method for the selector"
    else do
      let method ← Method.decode args
      runMethod net ctx app method

/-- The programs of `TrelyanInscription`.  The clear-state program approves
and writes nothing. -/
def trelyanInscription (net : Network) : Program where
  approval := approval net
  clearState _ _ app := .ok app

/-- What a successful run of the approval program is. -/
theorem approval_cases {net : Network} {ctx : Context} {creating : Bool}
    {onCompletion : OnCompletion} {args : List Bytes} {app app' : AppData}
    (h : approval net ctx creating onCompletion args app = .ok app') :
    onCompletion = .noOp ∧
      (creating = true ∧ args.head? = some createSelector ∧
          app' = { app with admin := ctx.sender } ∨
        creating = false ∧ ∃ m, Method.decode args = .ok m ∧ runMethod net ctx app m = .ok app') := by
  unfold approval at h
  split at h
  · split at h
    · rw [require_bind_eq_ok] at h
      cases h.2
    · rw [require_bind_eq_ok] at h
      cases h.2
    · cases h
  · rename_i selector rest
    rw [require_bind_eq_ok] at h
    obtain ⟨hnoOp, h⟩ := h
    refine ⟨hnoOp, ?_⟩
    cases creating with
    | true =>
      left
      rw [if_pos rfl] at h
      split at h
      · rename_i hsel
        exact ⟨rfl, by simp [hsel], create_eq_ok.mp h⟩
      · cases h
    | false =>
      right
      rw [if_neg (by decide)] at h
      cases hm : Method.decode (selector :: rest) with
      | error e => rw [hm] at h; cases h
      | ok m => rw [hm] at h; exact ⟨rfl, m, rfl, h⟩

/-- A no-op call of an existing application runs the method it names. -/
theorem approval_noOp {net : Network} {ctx : Context} {args : List Bytes} {app : AppData}
    {m : Method} (h : Method.decode args = .ok m) :
    approval net ctx false .noOp args app = runMethod net ctx app m := by
  cases args with
  | nil => cases h
  | cons selector rest =>
    rw [approval, h]
    rfl

/-- A no-op call whose arguments do not decode fails. -/
theorem approval_error {net : Network} {ctx : Context} {args : List Bytes} {app : AppData}
    {e : String} (h : Method.decode args = .error e) :
    ∃ e', approval net ctx false .noOp args app = .error e' := by
  cases args with
  | nil => exact ⟨_, rfl⟩
  | cons selector rest =>
    rw [approval, h]
    exact ⟨e, rfl⟩

end Trelyan.Contract
