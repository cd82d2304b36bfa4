import Trelyan.Falcon.Det1024

/-!
# Deterministic Falcon-1024 in Rust

The crates `trelyan-pq-ffi` and `trelyan-pq-core` over the same C library as
the Python class.  A `Signature` carries the checks of its constructor, so it
cannot be built from bytes that break them.

The crate says that it adds exactly the policy of the Python SDK.  It adds one
check more: `Signature::from_bytes` wants the salt version 0 in byte 1, which
Python never looks at.  `policies_agree_iff` says that this is the only
difference, with the short signature that has no byte 1 at all.
-/

namespace Trelyan.Falcon.Core

open Contract (FixedBytes)

/-- The precise encoding rule that a signature broke. -/
inductive EncodingError where
  | tooShort (len : Nat)
  | tooLong (len : Nat)
  | header (found : UInt8)
  | saltVersion (found : UInt8)
deriving DecidableEq, Repr

/-- Why a signature was rejected before or during verification. -/
inductive VerifyError where
  | encoding (e : EncodingError)
  | badSignature
  | reference (code : Int)
deriving DecidableEq, Repr

/-- Why signing failed. -/
inductive SignError where
  | keyFormat (code : Int)
  | reference (code : Int)
deriving DecidableEq, Repr

def errSize : Int := -2

def errInternal : Int := -6

/-- A deterministic-compressed signature: holding one means that the checks have run. -/
structure Signature where
  bytes : Bytes
  two_le_length : 2 ≤ bytes.length
  length_le : bytes.length ≤ sigCompressedMaxsize
  header : bytes[0] = sigCompressedHeader
  salt : bytes[1] = currentSaltVersion

/-- `Signature::from_bytes`. -/
def Signature.fromBytes (bytes : Bytes) : Except EncodingError Signature :=
  if hshort : bytes.length < 2 then
    .error (.tooShort bytes.length)
  else if hlong : bytes.length > sigCompressedMaxsize then
    .error (.tooLong bytes.length)
  else if hheader : bytes[0] = sigCompressedHeader then
    if hsalt : bytes[1] = currentSaltVersion then
      .ok ⟨bytes, by omega, by omega, hheader, hsalt⟩
    else
      .error (.saltVersion bytes[1])
  else
    .error (.header bytes[0])

/-! ## The bindings of `trelyan-pq-ffi` -/

/-- `sign_compressed`: the number of bytes written, with the buffer. -/
def ffiSignCompressed (lib : Reference) (privkey : Privkey) (data : Bytes) :
    Except Int (Nat × FixedBytes sigCompressedMaxsize) :=
  let o := lib.signCompressed privkey data
  if o.rc ≠ 0 then .error o.rc
  else if o.sigLen > sigCompressedMaxsize then .error errSize
  else .ok (o.sigLen, o.sig)

/-- `verify_compressed`. -/
def ffiVerifyCompressed (lib : Reference) (sig : Bytes) (pubkey : Pubkey) (data : Bytes) :
    Except Int Unit :=
  let rc := lib.verifyCompressed sig pubkey data
  if rc = 0 then .ok () else .error rc

/-! ## `trelyan-pq-core` -/

/-- `sign`. -/
def sign (lib : Reference) (sk : Privkey) (message : Bytes) : Except SignError Signature :=
  match ffiSignCompressed lib sk message with
  | .error code =>
    if code = Reference.errFormat then .error (.keyFormat code) else .error (.reference code)
  | .ok (n, buf) =>
    match Signature.fromBytes (buf.bytes.take n) with
    | .ok s => .ok s
    | .error _ => .error (.reference errInternal)

/-- `verify`. -/
def verify (lib : Reference) (pk : Pubkey) (message : Bytes) (sig : Signature) :
    Except VerifyError Unit :=
  match ffiVerifyCompressed lib sig.bytes pk message with
  | .ok () => .ok ()
  | .error code =>
    if code = Reference.errBadsig then .error .badSignature
    else if code = Reference.errFormat then
      have hpos : 0 < sig.bytes.length := Nat.lt_of_lt_of_le (by decide) sig.two_le_length
      .error (.encoding (.header sig.bytes[0]))
    else .error (.reference code)

/-- `verify_bytes`. -/
def verifyBytes (lib : Reference) (pk : Pubkey) (message sig : Bytes) :
    Except VerifyError Unit :=
  match Signature.fromBytes sig with
  | .error e => .error (.encoding e)
  | .ok s => verify lib pk message s

/-! ## When they succeed -/

/-- The encoding that the constructor accepts. -/
def WellEncoded (bytes : Bytes) : Prop :=
  2 ≤ bytes.length ∧ bytes.length ≤ sigCompressedMaxsize ∧
    bytes.head? = some sigCompressedHeader ∧ bytes[1]? = some currentSaltVersion

theorem Signature.fromBytes_bytes {bytes : Bytes} {s : Signature}
    (h : Signature.fromBytes bytes = .ok s) : s.bytes = bytes := by
  unfold Signature.fromBytes at h
  split_ifs at h
  cases h
  rfl

theorem Signature.wellEncoded (s : Signature) : WellEncoded s.bytes := by
  have h := s.two_le_length
  refine ⟨h, s.length_le, ?_, ?_⟩
  · rw [List.head?_eq_getElem?, List.getElem?_eq_getElem (by omega), s.header]
  · rw [List.getElem?_eq_getElem (by omega), s.salt]

theorem Signature.fromBytes_of_wellEncoded {bytes : Bytes} (h : WellEncoded bytes) :
    ∃ s, Signature.fromBytes bytes = .ok s := by
  rcases h with ⟨hshort, hlong, hheader, hsalt⟩
  rw [List.head?_eq_getElem?, List.getElem?_eq_getElem (by omega), Option.some.injEq] at hheader
  rw [List.getElem?_eq_getElem (by omega), Option.some.injEq] at hsalt
  unfold Signature.fromBytes
  rw [dif_neg (by omega), dif_neg (by omega), dif_pos hheader, dif_pos hsalt]
  exact ⟨_, rfl⟩

variable {lib : Reference} {sk : Privkey} {pk : Pubkey} {message sig : Bytes}

theorem verify_eq_ok_iff {s : Signature} :
    verify lib pk message s = .ok () ↔ lib.verifyCompressed s.bytes pk message = 0 := by
  unfold verify ffiVerifyCompressed
  by_cases hrc : lib.verifyCompressed s.bytes pk message = 0
  · simp [hrc]
  · rw [if_neg hrc]
    constructor
    · intro h
      dsimp only at h
      split_ifs at h
    · intro h
      exact absurd h hrc

theorem verifyBytes_eq_ok_iff :
    verifyBytes lib pk message sig = .ok () ↔
      WellEncoded sig ∧ lib.verifyCompressed sig pk message = 0 := by
  unfold verifyBytes
  cases hs : Signature.fromBytes sig with
  | error e =>
    constructor
    · intro h
      cases h
    · intro h
      rcases Signature.fromBytes_of_wellEncoded h.1 with ⟨s, hok⟩
      rw [hs] at hok
      cases hok
  | ok s =>
    have hbytes := Signature.fromBytes_bytes hs
    show verify lib pk message s = .ok () ↔ _
    rw [verify_eq_ok_iff, hbytes]
    constructor
    · intro h
      exact ⟨hbytes ▸ s.wellEncoded, h⟩
    · intro h
      exact h.2

/-- The signer succeeds with the bytes that the library reported, if they are well encoded. -/
theorem sign_eq_ok_iff :
    (∃ s, sign lib sk message = .ok s ∧ s.bytes = sig) ↔
      (lib.signCompressed sk message).rc = 0 ∧
        (lib.signCompressed sk message).sigLen ≤ sigCompressedMaxsize ∧
        (lib.signCompressed sk message).out = sig ∧ WellEncoded sig := by
  unfold sign ffiSignCompressed SignOutput.out
  by_cases hrc : (lib.signCompressed sk message).rc = 0
  · by_cases hlen : (lib.signCompressed sk message).sigLen > sigCompressedMaxsize
    · simp only [hrc, ne_eq, not_true, if_false, if_pos hlen]
      constructor
      · intro ⟨s, hs, _⟩
        split_ifs at hs
      · intro h
        omega
    · simp only [hrc, ne_eq, not_true, if_false, if_neg hlen, true_and]
      cases hs : Signature.fromBytes ((lib.signCompressed sk message).sig.bytes.take
        (lib.signCompressed sk message).sigLen) with
      | error e =>
        constructor
        · intro ⟨s, h, _⟩
          cases h
        · intro ⟨_, hout, hwell⟩
          rcases Signature.fromBytes_of_wellEncoded hwell with ⟨s, hok⟩
          rw [← hout, hs] at hok
          cases hok
      | ok s =>
        have hbytes := Signature.fromBytes_bytes hs
        constructor
        · intro ⟨s', h, hs'⟩
          cases h
          refine ⟨by omega, hbytes ▸ hs', ?_⟩
          rw [← hs']
          exact s.wellEncoded
        · intro ⟨_, hout, _⟩
          exact ⟨s, rfl, hbytes.trans hout⟩
  · simp only [ne_eq, hrc, not_false_eq_true, if_true, false_and, iff_false]
    intro ⟨s, hs, _⟩
    split_ifs at hs

/-! ## The two bindings -/

/-- Both verifiers accept the signature, or neither does. -/
def VerifyParity (lib : Reference) (pk : Pubkey) (message sig : Bytes) : Prop :=
  verifyBytes lib pk message sig = .ok () ↔ Falcon.verify lib sig pk.bytes message = .ok true

/-- Both signers return the same bytes, or neither returns. -/
def SignParity (lib : Reference) (sk : Privkey) (message : Bytes) : Prop :=
  ∀ sig, (∃ s, sign lib sk message = .ok s ∧ s.bytes = sig) ↔
    Falcon.sign lib sk.bytes message = .ok sig

/-- Where Rust and Python differ: bytes with the right header that Python takes and that the
constructor refuses. -/
def SaltMismatch (sig : Bytes) : Prop :=
  sig.head? = some sigCompressedHeader ∧ sig[1]? ≠ some currentSaltVersion

theorem verifyParity_iff :
    VerifyParity lib pk message sig ↔
      ¬ (lib.verifyCompressed sig pk message = 0 ∧ sig[1]? ≠ some currentSaltVersion) := by
  unfold VerifyParity
  rw [verifyBytes_eq_ok_iff, Falcon.verify_eq_ok_true_iff]
  by_cases hv : lib.verifyCompressed sig pk message = 0
  · have hlen := lib.verify_length sig pk message hv
    have hheader := lib.verify_header sig pk message hv
    simp [WellEncoded, hv, hlen, hheader]
  · simp [hv]

theorem signParity_iff (hlen : (lib.signCompressed sk message).sigLen ≤ sigCompressedMaxsize) :
    SignParity lib sk message ↔
      ¬ ((lib.signCompressed sk message).rc = 0 ∧
        SaltMismatch (lib.signCompressed sk message).out) := by
  have hout : (lib.signCompressed sk message).out.length ≤ sigCompressedMaxsize := by
    unfold SignOutput.out
    rw [List.length_take]
    omega
  unfold SignParity
  simp only [sign_eq_ok_iff, Falcon.sign_eq_ok_iff]
  by_cases hrc : (lib.signCompressed sk message).rc = 0
  · constructor
    · intro h ⟨_, hheader, hsalt⟩
      exact hsalt ((h _).mpr ⟨hrc, rfl, hheader⟩).2.2.2.2.2.2
    · intro h sig
      constructor
      · intro ⟨_, _, hsig, hwell⟩
        exact ⟨hrc, hsig, hwell.2.2.1⟩
      · intro ⟨_, hsig, hheader⟩
        subst hsig
        have hsalt : (lib.signCompressed sk message).out[1]? = some currentSaltVersion := by
          by_contra hsalt
          exact h ⟨hrc, hheader, hsalt⟩
        have htwo : 2 ≤ (lib.signCompressed sk message).out.length := by
          rcases List.getElem?_eq_some_iff.mp hsalt with ⟨h1, _⟩
          omega
        exact ⟨hrc, hlen, rfl, htwo, hout, hheader, hsalt⟩
  · simp [hrc]

/-- The two bindings have the same policy except for the salt version. -/
theorem policies_agree_iff (lib : Reference) (pk : Pubkey) (message sig : Bytes) (sk : Privkey)
    (message' : Bytes)
    (hlen : (lib.signCompressed sk message').sigLen ≤ sigCompressedMaxsize) :
    (VerifyParity lib pk message sig ↔
      ¬ (lib.verifyCompressed sig pk message = 0 ∧ sig[1]? ≠ some currentSaltVersion)) ∧
    (SignParity lib sk message' ↔
      ¬ ((lib.signCompressed sk message').rc = 0 ∧
        SaltMismatch (lib.signCompressed sk message').out)) :=
  ⟨verifyParity_iff, signParity_iff hlen⟩

/-- A key of zeros. -/
def zeroKey (n : Nat) : FixedBytes n := ⟨List.replicate n 0, List.length_replicate⟩

/-- The header byte that the signer looks for, and zeros. -/
def sampleKey : Privkey := ⟨0x5A :: List.replicate 2304 0, by decide +kernel⟩

/-- `deterministic.c` over Falcon functions that know one signature. -/
def sampleLibrary : Reference :=
  .ofFalcon
    (fun sig _ _ =>
      if sig = 0x3A :: Reference.writeSalt 0 ++ [1, 2] then 0 else Reference.errBadsig)
    fun _ _ => .ok (0x3A :: Reference.writeSalt 0 ++ [1, 2])

/-- The one signature is made and accepted in both bindings. -/
theorem sample_parity :
    (verifyBytes sampleLibrary (zeroKey _) [] [0xBA, 0, 1, 2] = .ok () ∧
      Falcon.verify sampleLibrary [0xBA, 0, 1, 2] (zeroKey pubkeySize).bytes [] = .ok true) ∧
    (∃ s, sign sampleLibrary sampleKey [] = .ok s ∧ s.bytes = [0xBA, 0, 1, 2]) ∧
      Falcon.sign sampleLibrary sampleKey.bytes [] = .ok [0xBA, 0, 1, 2] := by
  have h := policies_agree_iff sampleLibrary (zeroKey _) [] [0xBA, 0, 1, 2] sampleKey []
    (by decide +kernel)
  have hout : (sampleLibrary.signCompressed sampleKey []).out = [0xBA, 0, 1, 2] := by
    decide +kernel
  have hverify : verifyBytes sampleLibrary (zeroKey _) [] [0xBA, 0, 1, 2] = .ok () :=
    verifyBytes_eq_ok_iff.mpr ⟨by unfold WellEncoded; decide, by decide⟩
  have hsign : Falcon.sign sampleLibrary sampleKey.bytes [] = .ok [0xBA, 0, 1, 2] :=
    Falcon.sign_eq_ok_iff.mpr ⟨by decide +kernel, hout, rfl⟩
  refine ⟨⟨hverify, (h.1.mpr ?_).mp hverify⟩, ((h.2.mpr ?_) _).mpr hsign, hsign⟩
  · intro hv
    exact hv.2 rfl
  · intro hs
    rw [hout] at hs
    exact hs.2.2 rfl

/-- A library that accepts a signature of salt version 1, and one whose signer reports a single
byte. -/
theorem policies_differ :
    ∃ lib : Reference,
      ¬ VerifyParity lib (zeroKey _) [] [0xBA, 1] ∧ ¬ SignParity lib (zeroKey _) [] := by
  refine ⟨⟨fun _ _ => ⟨0, 1, Reference.writeBuffer [0xBA]⟩,
    (Reference.ofFalcon (fun _ _ _ => 0) fun _ _ => .error 0).verifyCompressed,
    (Reference.ofFalcon (fun _ _ _ => 0) fun _ _ => .error 0).verify_length,
    (Reference.ofFalcon (fun _ _ _ => 0) fun _ _ => .error 0).verify_header⟩, ?_, ?_⟩
  · rw [verifyParity_iff, not_not]
    exact ⟨by decide, by decide⟩
  · rw [signParity_iff (by decide), not_not]
    exact ⟨rfl, by decide, by decide⟩

end Trelyan.Falcon.Core
