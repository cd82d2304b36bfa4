import Trelyan.Falcon.Signer
import Trelyan.Seal.Store

/-!
# Sign once

`keygen_sign_seal` and `keygen_sign_seal_isolated` of
`sdk/src/trelyan_pq/seal.py`, over any store.  Both check the store, get a
public key and a signature, verify them, record the cell, and return.  Each is
cut in two where the cell is recorded: what comes before is one definition, and
what comes after is common to both (`recordAndReturn`).

The signer of the first is any signer, with its key in memory.  The worker of
the second is any answer to the request, and the signer of the parent is
asked to verify only.

What `subprocess.run` is called with besides the request is not modelled, nor is the
part of a message that quotes the worker.
-/

namespace Trelyan.Seal

open Py Faults Falcon

/-- The outputs of a seal. -/
structure SealResult where
  pubkey : Bytes
  signature : Bytes
  cellId : Int
deriving DecidableEq

/-- The arguments that are signed. -/
structure Arguments where
  appId : Value
  cellId : Value
  artifactHash : Value
  genesisHash : Value

def Arguments.message (args : Arguments) : Except Error Bytes :=
  Sdk.buildMessage args.appId args.cellId args.artifactHash args.genesisHash

def Arguments.verifyInscription (args : Arguments) (signer : Signer) (sig pubkey : Bytes) :
    Except Error Bool :=
  signer.verifyInscription sig pubkey args.appId args.cellId args.artifactHash args.genesisHash

/-! ## Exceptions -/

def sealVerificationError (msg : String) : Error := .exception "SealVerificationError" msg

/-- `f"{v}"`.  The text of a float, a byte string or a sequence is left out. -/
def formatValue (limits : Limits) : Value → Except Error String
  | .int n =>
    if limits.Allows (Nat.toDigits 10 n.natAbs).length then .ok (toString n)
    else .error tooManyDigits
  | .bool b => .ok (if b then "True" else "False")
  | .str s => .ok s
  | .none => .ok "None"
  | v => .ok ("<" ++ v.typeName ++ ">")

/-- What `raise CellAlreadySealed(f"cell_id {cell_id} already sealed")` raises. -/
def alreadySealed (limits : Limits) (cellId : Value) : Error :=
  match formatValue limits cellId with
  | .ok text => .exception "CellAlreadySealed" ("cell_id " ++ text ++ " already sealed")
  | .error e => e

/-- `except AssertionError as e: raise SealVerificationError(str(e))`. -/
def badBuild (e : Error) : Error :=
  if e.className = "AssertionError" then sealVerificationError e.message else e

/-- `f"{(sig[0] if sig else -1):#04x}"`. -/
def headerText (sig : Bytes) : String :=
  match sig.head? with
  | some b => "0x" ++ String.ofList (Hex.ofByte b)
  | none => "-0x1"

/-- `if not sig or sig[0] != DET_COMPRESSED_HEADER: raise SealVerificationError(..)`. -/
def checkHeader (describe : String → String) (sig : Bytes) : Except Error Unit :=
  require (sig.head? = some sigCompressedHeader) (sealVerificationError (describe (headerText sig)))

/-! ## In the process -/

def selfVerificationFailed : Error :=
  sealVerificationError ("self-verification failed; the local build produced a signature the " ++
    "on-chain falcon_verify opcode would reject (do not broadcast)")

/-- The body of the `try`: sign, and verify. -/
def signAndVerify (signer : Signer) (args : Arguments) (pubkey : Bytes) :
    Proc Error KeyMemory Bytes := do
  let m ← Proc.call args.message
  let memory ← Proc.get
  let sig ← Proc.tryExcept (Proc.call (signer.sign memory.key.bytes m)) fun e =>
    Proc.raise (badBuild e)
  Proc.call (checkHeader
    (fun header => "signature header " ++ header ++
      " != 0xba; the local build would be rejected on-chain") sig)
  let verified ← Proc.call (args.verifyInscription signer sig pubkey)
  if verified then pure sig
  else Proc.raise selfVerificationFailed

/-- The `finally`. -/
def wipeAndUnlock : Proc Error KeyMemory Unit := do
  Proc.modify KeyMemory.wipeKey
  Proc.modify KeyMemory.unlockPages

section Calls

variable {σ : Type} (limits : Limits) (store : SealStore σ)

/-- `keygen_sign_seal` up to its self-verification: the public key and the
signature. -/
def keygenSignVerify (signer : Signer) (args : Arguments) :
    Proc Error (σ × KeyMemory) (Bytes × Bytes) := do
  let sealed ← Proc.onFst (store.isSealed args.cellId)
  if sealed then Proc.raise (alreadySealed limits args.cellId)
  else do
    let pubkey ← Proc.onSnd signer.keygenIntoBuffer
    let sig ← Proc.onSnd (Proc.tryFinally (signAndVerify signer args pubkey) wipeAndUnlock)
    pure (pubkey, sig)

/-- The rest of both calls. -/
def recordAndReturn (cellId : Value) (out : Bytes × Bytes) : Proc Error σ SealResult := do
  store.record cellId
  let n ← Proc.call (intOf limits cellId)
  pure ⟨out.1, out.2, n⟩

/-- `keygen_sign_seal`. -/
def keygenSignSeal (signer : Signer) (args : Arguments) :
    Proc Error (σ × KeyMemory) SealResult := do
  let out ← keygenSignVerify limits store signer args
  Proc.onFst (recordAndReturn limits store args.cellId out)

end Calls

/-! ## In a worker -/

/-- What `subprocess.run` returns, without `stderr`. -/
structure Completed where
  returncode : Int
  stdout : Bytes

/-- The request to the worker. -/
def requestDoc (appId cellId : Int) (artifactHash genesisHash : Bytes) (requireLocked : Bool) :
    Doc :=
  .dict [("app_id", .int appId), ("cell_id", .int cellId),
    ("artifact_hash", .str (Hex.ofBytes artifactHash)),
    ("genesis_hash", .str (Hex.ofBytes genesisHash)), ("require_locked", .bool requireLocked)]

/-- `json.dumps({..}).encode("utf-8")`. -/
def isolatedRequest (limits : Limits) (args : Arguments) (requireLocked : Bool) :
    Except Error Bytes := do
  let appId ← intOf limits args.appId
  let cellId ← intOf limits args.cellId
  let artifactHash ← bytesOf args.artifactHash
  let genesisHash ← bytesOf args.genesisHash
  let text ← Doc.dumps limits (requestDoc appId cellId artifactHash genesisHash requireLocked)
  .ok (Json.encodeUtf8 text)

/-- `json.loads(proc.stdout.decode("utf-8") or "{}")`. -/
def parseOutput (limits : Limits) (stdout : Bytes) : Except Error Json := do
  let text ← Json.decodeUtf8 stdout
  Json.loads limits (if text = [] then ['{', '}'] else text)

/-- With `except json.JSONDecodeError: out = {}`. -/
def decodeOutput (limits : Limits) (stdout : Bytes) : Except Error Json :=
  match parseOutput limits stdout with
  | .ok out => .ok out
  | .error e => if e.className = "JSONDecodeError" then .ok (.dict []) else .error e

/-- `out.get(key)`. -/
def outGet (key : String) : Json → Except Error Json
  | .dict entries => .ok ((Json.getItem? entries (Text.ofString key)).getD .null)
  | v => .error (.exception "AttributeError"
      ("'" ++ v.typeName ++ "' object has no attribute 'get'"))

/-- `out[key]`. -/
def outItem (key : String) : Json → Except Error Json
  | .dict entries =>
    match Json.getItem? entries (Text.ofString key) with
    | some v => .ok v
    | none => .error (.exception "KeyError" ("'" ++ key ++ "'"))
  | v => .error (.typeError ("'" ++ v.typeName ++ "' object is not subscriptable by a string"))

/-- `bytes.fromhex(v)`. -/
def fromHex : Json → Except Error Bytes
  | .str s => Hex.toBytes s
  | v => .error (.typeError ("fromhex() argument must be str, not " ++ v.typeName))

/-- `proc.returncode != 0 or not out.get("ok")`. -/
def workerFailed (returncode : Int) (out : Json) : Except Error Bool :=
  if returncode ≠ 0 then .ok true else (outGet "ok" out).map fun v => !v.truthy

/-- The public key and the signature in the worker's answer. -/
def readAnswer (limits : Limits) (proc : Completed) : Except Error (Bytes × Bytes) := do
  let out ← decodeOutput limits proc.stdout
  let failed ← workerFailed proc.returncode out
  if failed then do
    -- the detail of the message
    let _ ← outGet "error" out
    .error (sealVerificationError
      ("isolated signer failed (rc=" ++ toString proc.returncode ++ ")"))
  else do
    let pubkey ← outItem "pubkey" out
    let pubkey ← fromHex pubkey
    let sig ← outItem "signature" out
    let sig ← fromHex sig
    .ok (pubkey, sig)

/-- The answer, verified again. -/
def verifyAnswer (limits : Limits) (parent : Signer) (args : Arguments) (proc : Completed) :
    Except Error (Bytes × Bytes) := do
  let (pubkey, sig) ← readAnswer limits proc
  checkHeader (fun header => "isolated signer returned a bad header " ++ header) sig
  let verified ← args.verifyInscription parent sig pubkey
  if verified then .ok (pubkey, sig)
  else .error (sealVerificationError "isolated signer's signature failed parent re-verification")

section IsolatedCalls

variable {σ : Type} (limits : Limits) (store : SealStore σ)

/-- `keygen_sign_seal_isolated` up to its re-verification, with any worker. -/
def keygenSignVerifyIsolated (parent : Signer) (worker : Bytes → Except Error Completed)
    (args : Arguments) (requireLocked : Bool) : Proc Error σ (Bytes × Bytes) := do
  let sealed ← store.isSealed args.cellId
  if sealed then Proc.raise (alreadySealed limits args.cellId)
  else do
    let request ← Proc.call (isolatedRequest limits args requireLocked)
    let proc ← Proc.call (worker request)
    Proc.call (verifyAnswer limits parent args proc)

/-- `keygen_sign_seal_isolated`. -/
def keygenSignSealIsolated (parent : Signer) (worker : Bytes → Except Error Completed)
    (args : Arguments) (requireLocked : Bool) : Proc Error σ SealResult := do
  let out ← keygenSignVerifyIsolated limits store parent worker args requireLocked
  recordAndReturn limits store args.cellId out

end IsolatedCalls

end Trelyan.Seal
