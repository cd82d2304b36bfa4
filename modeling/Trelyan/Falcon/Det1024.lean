import Trelyan.Lib.Hex
import Trelyan.Lib.Python
import Trelyan.Contract.Types

/-!
# Deterministic Falcon-1024 in Python

`FalconDet1024.sign` and `FalconDet1024.verify` of
`sdk/src/trelyan_pq/falcon.py`, over the C library that both bindings load.

`Reference` is that library: any signer and any verifier, of which nothing is
known except what `deterministic.c` checks before it calls the verifier
proper.  `Reference.ofFalcon` is the file `deterministic.c` itself, over any
`falcon_verify` and any `falcon_sign_dyn_finish`.
-/

namespace Trelyan.Falcon

open Contract (FixedBytes)
open Py

/-! ## The constants of the two bindings -/

def pubkeySize : Nat := 1793

def privkeySize : Nat := 2305

/-- `FALCON_DET1024_SIG_COMPRESSED_MAXSIZE`. -/
def sigCompressedMaxsize : Nat := 1423

/-- `FALCON_DET1024_SIG_COMPRESSED_HEADER`. -/
def sigCompressedHeader : UInt8 := 0xBA

/-- `FALCON_DET1024_CURRENT_SALT_VERSION`. -/
def currentSaltVersion : UInt8 := 0

abbrev Pubkey := FixedBytes pubkeySize

abbrev Privkey := FixedBytes privkeySize

/-! ## The C library -/

/-- What a call of the C signer leaves: its return code, `*sig_len`, and the buffer. -/
structure SignOutput where
  rc : Int
  sigLen : Nat
  sig : FixedBytes sigCompressedMaxsize

/-- The reported bytes, `sig[: sig_len]`. -/
def SignOutput.out (o : SignOutput) : Bytes := o.sig.bytes.take o.sigLen

/-- The C functions that both bindings call. -/
structure Reference where
  /-- `falcon_det1024_sign_compressed` on a key and a message. -/
  signCompressed : Privkey → Bytes → SignOutput
  /-- `falcon_det1024_verify_compressed` on a signature, a key and a message. -/
  verifyCompressed : Bytes → Pubkey → Bytes → Int
  verify_length : ∀ sig pubkey message, verifyCompressed sig pubkey message = 0 →
    2 ≤ sig.length ∧ sig.length ≤ sigCompressedMaxsize
  verify_header : ∀ sig pubkey message, verifyCompressed sig pubkey message = 0 →
    sig.head? = some sigCompressedHeader

namespace Reference

def errFormat : Int := -3

def errBadsig : Int := -4

/-- `FALCON_SIG_COMPRESSED_MAXSIZE(10)`. -/
def saltedSigMaxsize : Nat := 1462

/-- `falcon_det1024_write_salt`. -/
def writeSalt (saltVersion : UInt8) : Bytes :=
  saltVersion :: 10 ::
    ([0x46, 0x41, 0x4c, 0x43, 0x4f, 0x4e, 0x5f, 0x44, 0x45, 0x54] ++ List.replicate 28 0)

/-- `falcon_det1024_resalt`. -/
def resalt : Bytes → Bytes
  | header :: saltVersion :: body => (header &&& 0x7f) :: writeSalt saltVersion ++ body
  | _ => []

/-- `falcon_det1024_verify_compressed`, over `falcon_verify`. -/
def verifyOf (falconVerify : Bytes → Pubkey → Bytes → Int) (sig : Bytes) (pubkey : Pubkey)
    (message : Bytes) : Int :=
  if sig.length < 2 then errBadsig
  else if sig.head? ≠ some sigCompressedHeader then errBadsig
  else if sig.length + 40 - 1 > saltedSigMaxsize then errBadsig
  else falconVerify (resalt sig) pubkey message

theorem verifyOf_eq_zero {falconVerify : Bytes → Pubkey → Bytes → Int} {sig message : Bytes}
    {pubkey : Pubkey} (h : verifyOf falconVerify sig pubkey message = 0) :
    2 ≤ sig.length ∧ sig.length ≤ sigCompressedMaxsize ∧
      sig.head? = some sigCompressedHeader := by
  unfold verifyOf errBadsig at h
  unfold sigCompressedMaxsize
  by_cases h1 : sig.length < 2
  · rw [if_pos h1] at h
    omega
  · rw [if_neg h1] at h
    by_cases h2 : sig.head? = some sigCompressedHeader
    · rw [if_neg (not_not.mpr h2)] at h
      by_cases h3 : sig.length + 40 - 1 > saltedSigMaxsize
      · rw [if_pos h3] at h
        omega
      · unfold saltedSigMaxsize at h3
        exact ⟨by omega, by omega, h2⟩
    · rw [if_pos h2] at h
      omega

/-- A zeroed buffer with `bytes` written at its start. -/
def writeBuffer (bytes : Bytes) : FixedBytes sigCompressedMaxsize :=
  ⟨(bytes ++ List.replicate sigCompressedMaxsize 0).take sigCompressedMaxsize, by simp⟩

/-- `falcon_det1024_sign_compressed`, over `falcon_sign_dyn_finish`, which returns a code or
the salted signature. -/
def signOf (falconSign : Privkey → Bytes → Except Int Bytes) (privkey : Privkey)
    (message : Bytes) : SignOutput :=
  -- `falcon_get_logn` of a key that does not start with the header of logn = 10
  if privkey.bytes.head? ≠ some 0x5A then
    ⟨errFormat, sigCompressedMaxsize, writeBuffer []⟩
  else
    match falconSign privkey message with
    | .error r => ⟨r, sigCompressedMaxsize, writeBuffer []⟩
    | .ok saltedsig =>
      ⟨0, saltedsig.length - 40 + 1,
        writeBuffer ((saltedsig.headD 0 ||| 0x80) :: currentSaltVersion :: saltedsig.drop 41)⟩

/-- `deterministic.c`. -/
def ofFalcon (falconVerify : Bytes → Pubkey → Bytes → Int)
    (falconSign : Privkey → Bytes → Except Int Bytes) : Reference where
  signCompressed := signOf falconSign
  verifyCompressed := verifyOf falconVerify
  verify_length _ _ _ h := ⟨(verifyOf_eq_zero h).1, (verifyOf_eq_zero h).2.1⟩
  verify_header _ _ _ h := (verifyOf_eq_zero h).2.2

end Reference

/-! ## The Python class -/

/-- `f"unexpected header byte {b:#04x} (expected 0xba); .."`. -/
def headerError (b : UInt8) : Error :=
  .assertionError ("unexpected header byte 0x" ++ String.ofList (Hex.ofByte b) ++
    " (expected 0xba); the bytes would be rejected on-chain")

/-- `FalconDet1024.sign`. -/
def sign (lib : Reference) (privkey message : Bytes) : Except Error Bytes :=
  if h : privkey.length = privkeySize then
    let o := lib.signCompressed ⟨privkey, h⟩ message
    if o.rc ≠ 0 then
      .error (.exception "RuntimeError"
        ("falcon_det1024_sign_compressed failed (rc=" ++ toString o.rc ++ ")"))
    else
      match o.out with
      -- the message of the AssertionError reads `out[0]`
      | [] => .error (.exception "IndexError" "index out of range")
      | b :: rest => if b ≠ sigCompressedHeader then .error (headerError b) else .ok (b :: rest)
  else
    .error (.valueError ("privkey must be 2305 bytes, got " ++ toString privkey.length))

/-- `FalconDet1024.verify`. -/
def verify (lib : Reference) (sig pubkey message : Bytes) : Except Error Bool :=
  if h : pubkey.length = pubkeySize then
    .ok (lib.verifyCompressed sig ⟨pubkey, h⟩ message = 0)
  else
    .error (.valueError ("pubkey must be 1793 bytes, got " ++ toString pubkey.length))

/-! ## When they succeed -/

variable {lib : Reference} {message sig : Bytes}

theorem sign_eq_ok_iff {privkey : Privkey} :
    sign lib privkey.bytes message = .ok sig ↔
      (lib.signCompressed privkey message).rc = 0 ∧
        (lib.signCompressed privkey message).out = sig ∧
        sig.head? = some sigCompressedHeader := by
  unfold sign
  rw [dif_pos privkey.length_eq]
  show (if (lib.signCompressed privkey message).rc ≠ 0 then _ else _) = _ ↔ _
  by_cases hrc : (lib.signCompressed privkey message).rc = 0
  · rw [if_neg (not_not.mpr hrc)]
    cases hout : (lib.signCompressed privkey message).out with
    | nil =>
      constructor
      · intro h
        cases h
      · intro ⟨_, h, hhead⟩
        subst h
        cases hhead
    | cons b rest =>
      by_cases hb : b = sigCompressedHeader
      · show (if b ≠ sigCompressedHeader then _ else _) = _ ↔ _
        rw [if_neg (not_not.mpr hb), Except.ok.injEq]
        constructor
        · intro h
          subst h
          exact ⟨hrc, rfl, congrArg some hb⟩
        · intro ⟨_, h, _⟩
          exact h
      · show (if b ≠ sigCompressedHeader then _ else _) = _ ↔ _
        rw [if_pos hb]
        constructor
        · intro h
          cases h
        · intro ⟨_, h, hhead⟩
          subst h
          exact absurd (Option.some.inj hhead) hb
  · rw [if_pos hrc]
    constructor
    · intro h
      cases h
    · intro h
      exact absurd h.1 hrc

theorem verify_eq_ok_true_iff {pubkey : Pubkey} :
    verify lib sig pubkey.bytes message = .ok true ↔
      lib.verifyCompressed sig pubkey message = 0 := by
  unfold verify
  rw [dif_pos pubkey.length_eq]
  show Except.ok (decide _) = _ ↔ _
  rw [Except.ok.injEq, decide_eq_true_iff]

end Trelyan.Falcon
