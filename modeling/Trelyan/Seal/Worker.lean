import Trelyan.Seal.Seal

/-!
# The signing worker

`main` of `sdk/src/trelyan_pq/_seal_worker.py`, and the process that runs it.
It reads a request, makes a key, signs once, verifies, and answers with a JSON
object and a return code.

What `_harden_process` achieves is a parameter, because it depends on the machine.
-/

namespace Trelyan.Seal

open Py Faults Falcon

/-- What `_harden_process` returns. -/
structure Protections where
  mlockall : Bool
  noCoreDump : Bool
  noPtrace : Bool
  platform : String

def Protections.doc (protections : Protections) : Doc :=
  .dict [("mlockall", .bool protections.mlockall), ("no_core_dump", .bool protections.noCoreDump),
    ("no_ptrace", .bool protections.noPtrace), ("platform", .str protections.platform)]

/-- The request, decoded. -/
structure Request where
  appId : Int
  cellId : Int
  artifactHash : Bytes
  genesisHash : Bytes
  requireLocked : Bool

def Request.args (request : Request) : Arguments :=
  ⟨.int request.appId, .int request.cellId, .bytes request.artifactHash,
    .bytes request.genesisHash⟩

/-- The first `try` of `main`. -/
def parseRequest (limits : Limits) (stdin : Bytes) : Except Error Request := do
  let text ← Json.decodeUtf8 stdin
  let req ← Json.loads limits text
  let appId ← outItem "app_id" req
  let appId ← appId.toInt limits
  let cellId ← outItem "cell_id" req
  let cellId ← cellId.toInt limits
  let artifactHash ← outItem "artifact_hash" req
  let artifactHash ← fromHex artifactHash
  let genesisHash ← outItem "genesis_hash" req
  let genesisHash ← fromHex genesisHash
  let requireLocked ← outGet "require_locked" req
  .ok ⟨appId, cellId, artifactHash, genesisHash, requireLocked.truthy⟩

/-! ## Answers -/

/-- `repr(e)`. -/
def reprError (e : Error) : String := e.className ++ "('" ++ e.message ++ "')"

/-- `{"ok": False, "error": ..}`. -/
def failureDoc (error : String) : Doc := .dict [("ok", .bool false), ("error", .str error)]

/-- `{"ok": False, "error": .., "protections": ..}`. -/
def lockedDoc (protections : Protections) : Doc :=
  .dict [("ok", .bool false),
    ("error", .str ("require_locked=True but mlockall could not pin memory (RLIMIT_MEMLOCK " ++
      "limit, or an unsupported platform such as Windows); refusing to generate a key on " ++
      "swappable memory — seal on a POSIX host with a sufficient memlock limit")),
    ("protections", protections.doc)]

/-- `{"ok": True, "pubkey": .., "signature": .., "protections": ..}`. -/
def successDoc (pubkey sig : Bytes) (protections : Protections) : Doc :=
  .dict [("ok", .bool true), ("pubkey", .str (Hex.ofBytes pubkey)),
    ("signature", .str (Hex.ofBytes sig)), ("protections", protections.doc)]

/-- `sys.stdout.write(json.dumps(doc))` and `return returncode`. -/
def respond (limits : Limits) (returncode : Int) (doc : Doc) :
    Proc Error KeyMemory Completed := do
  let text ← Proc.call (Doc.dumps limits doc)
  pure ⟨returncode, Json.encodeUtf8 text⟩

/-! ## The worker -/

section Worker

variable (limits : Limits)

/-- The `try` around the key generation: an answer, or the public key. -/
def workerKeygen (signer : Signer) : Proc Error KeyMemory (Completed ⊕ Bytes) :=
  Proc.tryExcept
    (do
      let pubkey ← signer.keygenIntoBuffer
      pure (.inr pubkey))
    fun e =>
      if e.isException then do
        let answer ← respond limits 3 (failureDoc ("keygen failed: " ++ reprError e))
        pure (.inl answer)
      else Proc.raise e

/-- The `try` around the signature: an answer, or the signature. -/
def workerSign (signer : Signer) (key m : Bytes) : Proc Error KeyMemory (Completed ⊕ Bytes) :=
  Proc.tryExcept
    (do
      let sig ← Proc.call (signer.sign key m)
      pure (.inr sig))
    fun e =>
      if e.className = "AssertionError" then do
        let answer ← respond limits 4 (failureDoc ("bad signature header: " ++ e.message))
        pure (.inl answer)
      else Proc.raise e

/-- `not sig or sig[0] != DET_COMPRESSED_HEADER or not signer.verify_inscription(..)`. -/
def selfVerifyFails (signer : Signer) (args : Arguments) (pubkey sig : Bytes) :
    Except Error Bool :=
  if sig.head? = some sigCompressedHeader then
    (args.verifyInscription signer sig pubkey).map fun verified => !verified
  else .ok true

/-- The body of the `try` with the `finally`. -/
def workerSignAndVerify (signer : Signer) (args : Arguments) (pubkey : Bytes) :
    Proc Error KeyMemory (Completed ⊕ Bytes) := do
  let m ← Proc.call args.message
  let memory ← Proc.get
  match ← workerSign limits signer memory.key.bytes m with
  | .inl answer => pure (.inl answer)
  | .inr sig => do
    let fails ← Proc.call (selfVerifyFails signer args pubkey sig)
    if fails then do
      let answer ← respond limits 5 (failureDoc "self-verify failed (do not broadcast)")
      pure (.inl answer)
    else pure (.inr sig)

/-- `main` from the key generation on. -/
def workerSeal (protections : Protections) (signer : Signer) (args : Arguments) :
    Proc Error KeyMemory Completed := do
  match ← workerKeygen limits signer with
  | .inl answer => pure answer
  | .inr pubkey => do
    match ← Proc.tryFinally (workerSignAndVerify limits signer args pubkey) wipeAndUnlock with
    | .inl answer => pure answer
    | .inr sig => respond limits 0 (successDoc pubkey sig protections)

/-- `main`. -/
def workerMain (protections : Protections) (signer : Signer) (stdin : Bytes) :
    Proc Error KeyMemory Completed :=
  match parseRequest limits stdin with
  | .error e =>
    if e.isException then respond limits 2 (failureDoc ("bad request: " ++ reprError e))
    else Proc.raise e
  | .ok request =>
    if request.requireLocked = true ∧ protections.mlockall = false then
      respond limits 6 (lockedDoc protections)
    else workerSeal limits protections signer request.args

/-- The process.  An exception that escapes from `main` is reported on `stderr`, with
the return code 1. -/
def workerProcess (protections : Protections) (signer : Signer) (stdin : Bytes) :
    Except Error Completed :=
  match (workerMain limits protections signer stdin ⟨[], KeyMemory.fresh⟩).1 with
  | .returned answer => .ok answer
  | .raised _ => .ok ⟨1, []⟩
  | .killed => .ok ⟨-9, []⟩

end Worker

end Trelyan.Seal
