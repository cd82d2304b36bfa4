import Trelyan.Falcon.Det1024
import Trelyan.Lib.Faults
import Trelyan.Sdk.Message

/-!
# Signers

A signer as `seal.py` uses it: it makes a key pair in a buffer, it signs, and it
verifies.  `FalconDet1024` of `sdk/src/trelyan_pq/falcon.py` is one, over
any C library with its four functions (`Library`).  Nothing is assumed of
their return codes or of what they write.

The memory that holds key material is explicit, with what was in the buffer
whenever its pages were unlocked.
-/

namespace Trelyan.Falcon

open Contract (FixedBytes)
open Py Faults

/-! ## Key material in memory -/

/-- `sizeof(_Shake256Context)`. -/
def rngSize : Nat := 208

theorem length_zeros (n : Nat) : (List.replicate n (0 : UInt8)).length = n := List.length_replicate

def zeroed (n : Nat) : FixedBytes n := ⟨List.replicate n 0, length_zeros n⟩

structure KeyMemory where
  /-- The private-key buffer. -/
  key : Privkey
  /-- The context of the random number generator. -/
  rng : FixedBytes rngSize
  /-- What was in the buffer each time `_unlock_pages` was called. -/
  unlocked : List Privkey

namespace KeyMemory

/-- `ctypes.memset(ctypes.addressof(privkey), 0, PRIVKEY_SIZE)`. -/
def wipeKey (m : KeyMemory) : KeyMemory := { m with key := zeroed privkeySize }

/-- `_unlock_pages(privkey)`. -/
def unlockPages (m : KeyMemory) : KeyMemory := { m with unlocked := m.key :: m.unlocked }

/-- `ctypes.memset(ctypes.addressof(rng), 0, ctypes.sizeof(rng))`. -/
def wipeRng (m : KeyMemory) : KeyMemory := { m with rng := zeroed rngSize }

/-- No key was made yet. -/
def fresh : KeyMemory := ⟨zeroed privkeySize, zeroed rngSize, []⟩

end KeyMemory

/-! ## Signers -/

structure Signer where
  /-- `_keygen_into_buffer`: the public key, with the private one in memory. -/
  keygenIntoBuffer : Proc Error KeyMemory Bytes
  /-- `sign(privkey, message)`. -/
  sign : Bytes → Bytes → Except Error Bytes
  /-- `verify(sig, pubkey, message)`. -/
  verify : Bytes → Bytes → Bytes → Except Error Bool

/-- `verify_inscription`. -/
def Signer.verifyInscription (signer : Signer) (sig pubkey : Bytes)
    (appId cellId artifactHash genesisHash : Value) : Except Error Bool := do
  let m ← Sdk.buildMessage appId cellId artifactHash genesisHash
  signer.verify sig pubkey m

/-! ## The C library -/

/-- What a call of `falcon_det1024_keygen` leaves. -/
structure KeygenOutput where
  rc : Int
  rng : FixedBytes rngSize
  privkey : Privkey
  pubkey : Pubkey

/-- Any library with the four functions that `_bind` names. -/
structure Library where
  /-- `shake256_init_prng_from_system`: its return code, and the context. -/
  initPrng : Int × FixedBytes rngSize
  /-- `falcon_det1024_keygen` on a context. -/
  keygen : FixedBytes rngSize → KeygenOutput
  signCompressed : Privkey → Bytes → SignOutput
  verifyCompressed : Bytes → Pubkey → Bytes → Int

def runtimeError (msg : String) : Error := .exception "RuntimeError" msg

/-- The call of `shake256_init_prng_from_system`. -/
def Library.initPrngStep (lib : Library) : Step Error KeyMemory Int where
  run m := .ok (lib.initPrng.1, { m with rng := lib.initPrng.2 })

/-- The call of `falcon_det1024_keygen`. -/
def Library.keygenStep (lib : Library) : Step Error KeyMemory KeygenOutput where
  run m :=
    let o := lib.keygen m.rng
    .ok (o, { m with rng := o.rng, key := o.privkey })

/-- `_keygen_into_buffer` with its library.  `_lock_pages` does its best and has no
result. -/
def Library.keygenIntoBuffer (lib : Library) : Proc Error KeyMemory Bytes := do
  Proc.modify KeyMemory.wipeRng
  let rc ← Proc.perform lib.initPrngStep
  if rc ≠ 0 then
    Proc.raise (runtimeError "shake256_init_prng_from_system failed (no OS RNG?)")
  else do
    Proc.modify KeyMemory.wipeKey
    let o ← Proc.perform lib.keygenStep
    if o.rc ≠ 0 then do
      Proc.modify KeyMemory.wipeKey
      Proc.modify KeyMemory.unlockPages
      Proc.modify KeyMemory.wipeRng
      Proc.raise (runtimeError ("falcon_det1024_keygen failed (rc=" ++ toString o.rc ++ ")"))
    else do
      Proc.modify KeyMemory.wipeRng
      pure o.pubkey.bytes

/-- What `_load` does. -/
inductive Loading where
  | loaded (lib : Library)
  /-- There is no path, or no library there. -/
  | failed (msg : String)
  /-- The library has no such function. -/
  | missing (msg : String)

/-- `_lib_ref`. -/
def Loading.libRef : Loading → Except Error Library
  | loaded lib => .ok lib
  | failed msg => .error (runtimeError msg)
  | missing msg => .error (.exception "AttributeError" msg)

/-- What `sign` makes of what the C signer leaves. -/
def signatureOf (o : SignOutput) : Except Error Bytes :=
  if o.rc ≠ 0 then
    .error (runtimeError ("falcon_det1024_sign_compressed failed (rc=" ++ toString o.rc ++ ")"))
  else
    match o.out with
    -- the message of the AssertionError reads `out[0]`
    | [] => .error (.exception "IndexError" "index out of range")
    | b :: rest => if b ≠ sigCompressedHeader then .error (headerError b) else .ok (b :: rest)

namespace Loading

variable (loading : Loading)

/-- `FalconDet1024._keygen_into_buffer`. -/
def keygenIntoBuffer : Proc Error KeyMemory Bytes := do
  let lib ← Proc.call loading.libRef
  lib.keygenIntoBuffer

/-- `FalconDet1024.sign`. -/
def sign (privkey message : Bytes) : Except Error Bytes :=
  if h : privkey.length = privkeySize then do
    let lib ← loading.libRef
    signatureOf (lib.signCompressed ⟨privkey, h⟩ message)
  else
    .error (.valueError ("privkey must be 2305 bytes, got " ++ toString privkey.length))

/-- `FalconDet1024.verify`. -/
def verify (sig pubkey message : Bytes) : Except Error Bool :=
  if h : pubkey.length = pubkeySize then do
    let lib ← loading.libRef
    .ok (lib.verifyCompressed sig ⟨pubkey, h⟩ message = 0)
  else
    .error (.valueError ("pubkey must be 1793 bytes, got " ++ toString pubkey.length))

/-- `FalconDet1024`. -/
def signer : Signer where
  keygenIntoBuffer := loading.keygenIntoBuffer
  sign := loading.sign
  verify := loading.verify

end Loading

/-! ## The reference library -/

section Reference

variable {lib : Library} {ref : Reference}

/-- With the reference signer in the library, `sign` is the one over it. -/
theorem sign_reference (h : lib.signCompressed = ref.signCompressed) :
    (Loading.loaded lib).sign = Falcon.sign ref := by
  funext privkey message
  unfold Loading.sign Falcon.sign
  split
  · show signatureOf (lib.signCompressed _ message) = _
    rw [h]
    rfl
  · rfl

theorem verify_reference (h : lib.verifyCompressed = ref.verifyCompressed) :
    (Loading.loaded lib).verify = Falcon.verify ref := by
  funext sig pubkey message
  unfold Loading.verify Falcon.verify
  split
  · show Except.ok (decide (lib.verifyCompressed sig _ message = 0)) = _
    rw [h]
  · rfl

end Reference

/-! ## What `sign` returns -/

/-- A signature has the header, and any other exception than these is not the
signer's. -/
theorem signatureOf_cases (o : SignOutput) :
    (∃ sig, signatureOf o = .ok sig ∧ sig.head? = some sigCompressedHeader ∧ o.rc = 0 ∧
      o.out = sig) ∨
    (∃ b, signatureOf o = .error (headerError b) ∧ o.rc = 0 ∧ o.out.head? = some b ∧
      b ≠ sigCompressedHeader) ∨
    (∃ msg, signatureOf o = .error (.exception "IndexError" msg) ∧ o.rc = 0 ∧ o.out = []) ∨
    (∃ msg, signatureOf o = .error (runtimeError msg) ∧ o.rc ≠ 0) := by
  unfold signatureOf
  by_cases hrc : o.rc = 0
  · rw [if_neg (not_not.mpr hrc)]
    cases hout : o.out with
    | nil => exact Or.inr (Or.inr (Or.inl ⟨_, rfl, hrc, rfl⟩))
    | cons b rest =>
      by_cases hb : b = sigCompressedHeader
      · refine Or.inl ⟨b :: rest, ?_, congrArg some hb, hrc, rfl⟩
        dsimp only
        rw [if_neg (not_not.mpr hb)]
      · refine Or.inr (Or.inl ⟨b, ?_, hrc, rfl, hb⟩)
        dsimp only
        rw [if_pos hb]
  · rw [if_pos hrc]
    exact Or.inr (Or.inr (Or.inr ⟨_, rfl, hrc⟩))

/-! ## Runs without faults -/

/-- The exits of `_keygen_into_buffer`, with the memory that each leaves: no random
numbers, no keys, or keys. -/
theorem Library.keygenIntoBuffer_cases (lib : Library) (m : KeyMemory) :
    (lib.initPrng.1 ≠ 0 ∧ ∃ msg, lib.keygenIntoBuffer ⟨[], m⟩ =
      (.raised (runtimeError msg), ⟨[], m.key, lib.initPrng.2, m.unlocked⟩)) ∨
    (lib.initPrng.1 = 0 ∧ (lib.keygen lib.initPrng.2).rc ≠ 0 ∧
      ∃ msg, lib.keygenIntoBuffer ⟨[], m⟩ = (.raised (runtimeError msg),
        ⟨[], zeroed privkeySize, zeroed rngSize, zeroed privkeySize :: m.unlocked⟩)) ∨
    (lib.initPrng.1 = 0 ∧ (lib.keygen lib.initPrng.2).rc = 0 ∧
      lib.keygenIntoBuffer ⟨[], m⟩ = (.returned (lib.keygen lib.initPrng.2).pubkey.bytes,
        ⟨[], (lib.keygen lib.initPrng.2).privkey, zeroed rngSize, m.unlocked⟩)) := by
  by_cases hprng : lib.initPrng.1 = 0
  · by_cases hrc : (lib.keygen lib.initPrng.2).rc = 0
    · refine Or.inr (Or.inr ⟨hprng, hrc, ?_⟩)
      show (if lib.initPrng.1 ≠ 0 then _ else _ : Proc Error KeyMemory Bytes) ⟨[], _⟩ = _
      rw [if_neg (not_not.mpr hprng)]
      show (if (lib.keygen lib.initPrng.2).rc ≠ 0 then _ else _ : Proc Error KeyMemory Bytes)
        ⟨[], _⟩ = _
      rw [if_neg (not_not.mpr hrc)]
      rfl
    · refine Or.inr (Or.inl ⟨hprng, hrc,
        "falcon_det1024_keygen failed (rc=" ++ toString (lib.keygen lib.initPrng.2).rc ++ ")", ?_⟩)
      show (if lib.initPrng.1 ≠ 0 then _ else _ : Proc Error KeyMemory Bytes) ⟨[], _⟩ = _
      rw [if_neg (not_not.mpr hprng)]
      show (if (lib.keygen lib.initPrng.2).rc ≠ 0 then _ else _ : Proc Error KeyMemory Bytes)
        ⟨[], _⟩ = _
      rw [if_pos hrc]
      rfl
  · refine Or.inl ⟨hprng, "shake256_init_prng_from_system failed (no OS RNG?)", ?_⟩
    show (if lib.initPrng.1 ≠ 0 then _ else _ : Proc Error KeyMemory Bytes) ⟨[], _⟩ = _
    rw [if_pos hprng]
    rfl

theorem Library.keygen_returned {lib : Library} (hprng : lib.initPrng.1 = 0)
    (hrc : (lib.keygen lib.initPrng.2).rc = 0) (m : KeyMemory) :
    ∃ m', lib.keygenIntoBuffer ⟨[], m⟩ =
      (.returned (lib.keygen lib.initPrng.2).pubkey.bytes, ⟨[], m'⟩) ∧
        m'.key = (lib.keygen lib.initPrng.2).privkey := by
  rcases lib.keygenIntoBuffer_cases m with ⟨h, -⟩ | ⟨-, h, -⟩ | ⟨-, -, hrun⟩
  · exact absurd hprng h
  · exact absurd hrc h
  · exact ⟨_, hrun, rfl⟩

theorem Library.keygen_raised {lib : Library}
    (h : ¬ (lib.initPrng.1 = 0 ∧ (lib.keygen lib.initPrng.2).rc = 0)) (m : KeyMemory) :
    ∃ msg m', lib.keygenIntoBuffer ⟨[], m⟩ = (.raised (runtimeError msg), ⟨[], m'⟩) := by
  rcases lib.keygenIntoBuffer_cases m with ⟨-, msg, hrun⟩ | ⟨-, -, msg, hrun⟩ | ⟨hprng, hrc, -⟩
  · exact ⟨msg, _, hrun⟩
  · exact ⟨msg, _, hrun⟩
  · exact absurd ⟨hprng, hrc⟩ h

namespace Loading

/-- The library and the keys, if the generator starts and makes keys. -/
def keyPair : Loading → Option (Library × KeygenOutput)
  | loaded lib =>
    if lib.initPrng.1 = 0 ∧ (lib.keygen lib.initPrng.2).rc = 0 then
      some (lib, lib.keygen lib.initPrng.2)
    else none
  | _ => none

variable {loading : Loading} {lib : Library} {keys : KeygenOutput}

/-- The keys are returned and in memory. -/
theorem keygen_returned (h : loading.keyPair = some (lib, keys)) (m : KeyMemory) :
    loading = loaded lib ∧
      ∃ m', loading.keygenIntoBuffer ⟨[], m⟩ = (.returned keys.pubkey.bytes, ⟨[], m'⟩) ∧
        m'.key = keys.privkey := by
  cases loading with
  | failed msg => cases h
  | missing msg => cases h
  | loaded lib' =>
    have h : (if lib'.initPrng.1 = 0 ∧ (lib'.keygen lib'.initPrng.2).rc = 0 then
      some (lib', lib'.keygen lib'.initPrng.2) else none) = some (lib, keys) := h
    by_cases hrc : lib'.initPrng.1 = 0 ∧ (lib'.keygen lib'.initPrng.2).rc = 0
    · rw [if_pos hrc] at h
      cases h
      exact ⟨rfl, lib.keygen_returned hrc.1 hrc.2 m⟩
    · rw [if_neg hrc] at h
      cases h

/-- Without keys an exception is raised. -/
theorem keygen_raised (h : loading.keyPair = none) (m : KeyMemory) :
    ∃ e m', loading.keygenIntoBuffer ⟨[], m⟩ = (.raised e, ⟨[], m'⟩) ∧
      e.className ∈ ["RuntimeError", "AttributeError"] := by
  cases loading with
  | failed msg => exact ⟨_, m, rfl, by simp [runtimeError, Error.className]⟩
  | missing msg => exact ⟨_, m, rfl, by simp [Error.className]⟩
  | loaded lib =>
    have hrc : ¬ (lib.initPrng.1 = 0 ∧ (lib.keygen lib.initPrng.2).rc = 0) := by
      intro hrc
      have h : (if lib.initPrng.1 = 0 ∧ (lib.keygen lib.initPrng.2).rc = 0 then
        some (lib, lib.keygen lib.initPrng.2) else none) = none := h
      rw [if_pos hrc] at h
      cases h
    obtain ⟨msg, m', hrun⟩ := lib.keygen_raised hrc m
    exact ⟨_, m', hrun, by simp [runtimeError, Error.className]⟩

end Loading

end Trelyan.Falcon
