import Trelyan.Falcon.Core

/-!
# What a rejection says

`verify` and `verify_bytes` of `trelyan-pq-core` name the rule that a signature
broke.  The names of the constructor are right (`Signature.fromBytes_brokenBy`).
A reference code FORMAT is reported as a wrong header, and the header was right,
so `truthful_iff` has this one exception.

`falconVerify` is `falcon_verify` of the C library up to the point where the
signature value is decoded.  It says which public keys have the code FORMAT.
-/

namespace Trelyan.Falcon

/-! ## The key checks of `falcon_verify` -/

namespace Reference

/-- The loop of `Zf(modq_decode)`, with the coefficients so far. -/
def modqLoop (n : Nat) (x : List UInt32) (acc : UInt32) (accLen : UInt32) :
    Bytes → Option (List UInt32)
  | [] =>
    if x.length < n then none
    else if acc &&& ((1 <<< accLen) - 1) ≠ 0 then none
    else some x
  | b :: buf =>
    if x.length < n then
      let acc := (acc <<< 8) ||| b.toUInt32
      let accLen := accLen + 8
      if accLen ≥ 14 then
        let accLen := accLen - 14
        let w := (acc >>> accLen) &&& 0x3FFF
        if w ≥ 12289 then none else modqLoop n (x ++ [w]) acc accLen buf
      else modqLoop n x acc accLen buf
    else if acc &&& ((1 <<< accLen) - 1) ≠ 0 then none
    else some x

/-- `Zf(modq_decode)` of exactly `in_len` bytes: the coefficients, if it returns `in_len`. -/
def modqDecode (logn : Nat) (bytes : Bytes) : Option (List UInt32) :=
  if (2 ^ logn * 14 + 7) / 8 = bytes.length then modqLoop (2 ^ logn) [] 0 0 bytes else none

/-- `FALCON_PUBKEY_SIZE(logn)`. -/
def pubkeySizeOf (logn : Nat) : Nat := (if logn ≤ 1 then 4 else 7 * 2 ^ (logn - 2)) + 1

/-- `falcon_verify`, over what it does with the signature and the decoded key. -/
def falconVerify (verifyValue : Bytes → List UInt32 → Bytes → Int) (sig : Bytes)
    (pubkey : Pubkey) (message : Bytes) : Int :=
  let pk0 := pubkey.bytes.headD 0
  let es0 := sig.headD 0
  let logn := (pk0 &&& 0x0F).toNat
  if sig.length < 41 then errFormat
  else if pk0 &&& 0xF0 ≠ 0 then errFormat
  else if logn < 1 ∨ logn > 10 then errFormat
  else if (es0 &&& 0x0F).toNat ≠ logn then errBadsig
  else if es0 &&& 0xF0 ≠ 0x30 then errFormat
  else if pubkeySize ≠ pubkeySizeOf logn then errFormat
  else
    match modqDecode logn pubkey.bytes.tail with
    | none => errFormat
    | some h => verifyValue sig h message

end Reference

/-- A key that `falcon_verify` decodes: the header `0x0A`, and coefficients below `q`. -/
def WellFormedKey (pk : Pubkey) : Prop :=
  pk.bytes.headD 0 = 0x0A ∧ (Reference.modqDecode 10 pk.bytes.tail).isSome

namespace Reference

/-- The salted signature that `deterministic.c` hands on. -/
theorem verifyOf_resalt {falconVerify : Bytes → Pubkey → Bytes → Int} {sig message : Bytes}
    {pubkey : Pubkey} (htwo : 2 ≤ sig.length) (hmax : sig.length ≤ sigCompressedMaxsize)
    (hheader : sig.head? = some sigCompressedHeader) :
    verifyOf falconVerify sig pubkey message = falconVerify (resalt sig) pubkey message ∧
      41 ≤ (resalt sig).length ∧ (resalt sig).headD 0 = 0x3A := by
  match sig, hheader with
  | _ :: saltVersion :: body, rfl =>
    refine ⟨?_, ?_, rfl⟩
    · unfold sigCompressedMaxsize at hmax
      unfold verifyOf saltedSigMaxsize
      rw [if_neg (by omega), if_neg (by simp), if_neg (by omega)]
    · simp only [resalt, writeSalt, List.cons_append, List.length_cons, List.length_append,
        List.length_replicate, List.length_nil]
      omega

theorem forall_byte {p : UInt8 → Prop} (h : ∀ n : Fin 256, p (UInt8.ofFin n)) (b : UInt8) :
    p b := h b.toFin

/-- The only header with the degree 10. -/
theorem header_of_degree : ∀ b : UInt8, (b = 0 ∨ 0x0A ≤ b) → b &&& 0xF0 = 0 →
    ¬ ((b &&& 0x0F).toNat < 1 ∨ (b &&& 0x0F).toNat > 10) → b = 0x0A :=
  forall_byte (by decide +kernel)

/-- A malformed key has the code FORMAT, unless its header is the one of a smaller degree. -/
theorem falconVerify_malformed {verifyValue : Bytes → List UInt32 → Bytes → Int}
    {sig message : Bytes} {pk : Pubkey} (hlen : 41 ≤ sig.length) (hhead : sig.headD 0 = 0x3A)
    (hkey : ¬ WellFormedKey pk) (hdegree : pk.bytes.headD 0 = 0 ∨ 0x0A ≤ pk.bytes.headD 0) :
    falconVerify verifyValue sig pk message = errFormat := by
  unfold falconVerify
  rw [hhead]
  dsimp only
  rw [if_neg (by omega)]
  split_ifs with hnibble hlogn hes hct hsize
  · rfl
  · rfl
  · rw [header_of_degree _ hdegree (not_not.mp hnibble) hlogn] at hes
    exact absurd rfl hes
  · rfl
  · rfl
  · have htop := header_of_degree _ hdegree (not_not.mp hnibble) hlogn
    rw [htop]
    cases hdecode : modqDecode (0x0A &&& 0x0F : UInt8).toNat pk.bytes.tail with
    | none => rfl
    | some h =>
      refine absurd ⟨htop, ?_⟩ hkey
      rw [show (10 : Nat) = (0x0A &&& 0x0F : UInt8).toNat from rfl, hdecode]
      rfl

end Reference

namespace Core

/-- The bytes break the rule that the error names, with the values it carries. -/
def EncodingError.BrokenBy (bytes : Bytes) : EncodingError → Prop
  | tooShort len => bytes.length = len ∧ len < 2
  | tooLong len => bytes.length = len ∧ len > sigCompressedMaxsize
  | header found => bytes.head? = some found ∧ found ≠ sigCompressedHeader
  | saltVersion found => bytes[1]? = some found ∧ found ≠ currentSaltVersion

theorem Signature.fromBytes_brokenBy {bytes : Bytes} {e : EncodingError}
    (h : Signature.fromBytes bytes = .error e) : e.BrokenBy bytes := by
  unfold Signature.fromBytes at h
  split_ifs at h with hshort hlong hheader hsalt
  · cases h
    exact ⟨rfl, hshort⟩
  · cases h
    exact ⟨rfl, hlong⟩
  · cases h
    exact ⟨List.getElem?_eq_getElem (by omega), hsalt⟩
  · cases h
    refine ⟨?_, hheader⟩
    rw [List.head?_eq_getElem?, List.getElem?_eq_getElem (by omega)]

/-- A well encoded signature breaks no rule. -/
theorem WellEncoded.not_brokenBy {bytes : Bytes} (h : WellEncoded bytes) (e : EncodingError) :
    ¬ e.BrokenBy bytes := by
  obtain ⟨hshort, hlong, hheader, hsalt⟩ := h
  cases e with
  | tooShort len =>
    intro ⟨hlen, hlt⟩
    omega
  | tooLong len =>
    intro ⟨hlen, hgt⟩
    omega
  | header found =>
    intro ⟨hfound, hne⟩
    rw [hheader] at hfound
    exact hne (Option.some.inj hfound).symm
  | saltVersion found =>
    intro ⟨hfound, hne⟩
    rw [hsalt] at hfound
    exact hne (Option.some.inj hfound).symm

variable {lib : Reference} {pk : Pubkey} {message sig : Bytes}

/-! ## The codes of the reference verifier -/

/-- `verify` returns an encoding error exactly for the code FORMAT. -/
theorem verify_encoding_iff {s : Signature} {e : EncodingError} :
    verify lib pk message s = .error (.encoding e) ↔
      lib.verifyCompressed s.bytes pk message = Reference.errFormat ∧
        e = .header sigCompressedHeader := by
  unfold verify ffiVerifyCompressed
  by_cases hrc : lib.verifyCompressed s.bytes pk message = 0
  · rw [if_pos hrc, hrc]
    simp [Reference.errFormat]
  · rw [if_neg hrc]
    dsimp only
    split_ifs with hbad hformat
    · rw [hbad]
      simp [Reference.errBadsig, Reference.errFormat]
    · rw [s.header]
      simp [hformat, eq_comm]
    · simp [hformat]

/-- No code is reported as the reference's FORMAT. -/
theorem verify_ne_reference_format {s : Signature} :
    verify lib pk message s ≠ .error (.reference Reference.errFormat) := by
  unfold verify ffiVerifyCompressed
  by_cases hrc : lib.verifyCompressed s.bytes pk message = 0
  · simp [hrc]
  · rw [if_neg hrc]
    dsimp only
    split_ifs with hbad hformat
    · simp
    · simp
    · simpa using hformat

/-- `verify_bytes` returns the constructor's error, or what `verify` returns. -/
theorem verifyBytes_cases :
    (∃ e, Signature.fromBytes sig = .error e ∧
      verifyBytes lib pk message sig = .error (.encoding e)) ∨
    (∃ s : Signature, s.bytes = sig ∧
      verifyBytes lib pk message sig = verify lib pk message s) := by
  unfold verifyBytes
  cases hs : Signature.fromBytes sig with
  | error e => exact Or.inl ⟨e, rfl, rfl⟩
  | ok s => exact Or.inr ⟨s, Signature.fromBytes_bytes hs, rfl⟩

/-! ## Truthful rejections -/

/-- Every encoding error names a rule that the signature breaks, and a FORMAT error of a
malformed key is reported as the reference's. -/
structure Truthful (lib : Reference) (pk : Pubkey) (message sig : Bytes) : Prop where
  verifyBytes : ∀ e, verifyBytes lib pk message sig = .error (.encoding e) → e.BrokenBy sig
  verify : ∀ s : Signature, s.bytes = sig → ∀ e,
    verify lib pk message s = .error (.encoding e) → e.BrokenBy sig
  malformedKey : ¬ WellFormedKey pk → ∀ s : Signature, s.bytes = sig →
    lib.verifyCompressed sig pk message = Reference.errFormat →
      Core.verify lib pk message s = .error (.reference Reference.errFormat) ∧
        Core.verifyBytes lib pk message sig = .error (.reference Reference.errFormat)

/-- The rejection is truthful unless a well encoded signature has the code FORMAT. -/
theorem truthful_iff (lib : Reference) (pk : Pubkey) (message sig : Bytes) :
    Truthful lib pk message sig ↔
      ¬ (WellEncoded sig ∧ lib.verifyCompressed sig pk message = Reference.errFormat) := by
  constructor
  · intro h ⟨hwell, hcode⟩
    obtain ⟨s, hs⟩ := Signature.fromBytes_of_wellEncoded hwell
    have hbytes := Signature.fromBytes_bytes hs
    refine hwell.not_brokenBy _ (h.verify s hbytes _ (verify_encoding_iff.mpr ⟨?_, rfl⟩))
    rw [hbytes]
    exact hcode
  · intro h
    have hformat : ∀ s : Signature, s.bytes = sig →
        lib.verifyCompressed sig pk message ≠ Reference.errFormat := by
      intro s hs hcode
      exact h ⟨hs ▸ s.wellEncoded, hcode⟩
    have hverify : ∀ s : Signature, s.bytes = sig → ∀ e,
        Core.verify lib pk message s ≠ .error (.encoding e) := by
      intro s hs e he
      exact hformat s hs (hs ▸ (verify_encoding_iff.mp he).1)
    refine ⟨?_, ?_, ?_⟩
    · intro e he
      rcases @verifyBytes_cases lib pk message sig with
        ⟨e', herror, hresult⟩ | ⟨s, hs, hresult⟩
      · rw [hresult] at he
        cases he
        exact Signature.fromBytes_brokenBy herror
      · rw [hresult] at he
        exact absurd he (hverify s hs e)
    · intro s hs e he
      exact absurd he (hverify s hs e)
    · intro _ s hs hcode
      exact absurd hcode (hformat s hs)

/-! ## Malformed keys -/

/-- The C library, over what it does with a decoded key. -/
def cLibrary (verifyValue : Bytes → List UInt32 → Bytes → Int)
    (falconSign : Privkey → Bytes → Except Int Bytes) : Reference :=
  .ofFalcon (Reference.falconVerify verifyValue) falconSign

/-- With a malformed key, every well encoded signature is said to have a wrong header. -/
theorem malformed_key_reported {verifyValue : Bytes → List UInt32 → Bytes → Int}
    {falconSign : Privkey → Bytes → Except Int Bytes} (hwell : WellEncoded sig)
    (hkey : ¬ WellFormedKey pk) (hdegree : pk.bytes.headD 0 = 0 ∨ 0x0A ≤ pk.bytes.headD 0) :
    verifyBytes (cLibrary verifyValue falconSign) pk message sig =
      .error (.encoding (.header sigCompressedHeader)) := by
  obtain ⟨htwo, hmax, hheader, _⟩ := id hwell
  obtain ⟨heq, hlen, hhead⟩ := @Reference.verifyOf_resalt (Reference.falconVerify verifyValue)
    sig message pk htwo hmax hheader
  have hcode : (cLibrary verifyValue falconSign).verifyCompressed sig pk message =
      Reference.errFormat :=
    heq.trans (Reference.falconVerify_malformed hlen hhead hkey hdegree)
  obtain ⟨s, hs⟩ := Signature.fromBytes_of_wellEncoded hwell
  have hbytes := Signature.fromBytes_bytes hs
  unfold verifyBytes
  rw [hs]
  refine verify_encoding_iff.mpr ⟨?_, rfl⟩
  rw [hbytes]
  exact hcode

/-- A key of zeros and a signature of two bytes. -/
theorem header_misreported :
    ¬ Truthful (cLibrary (fun _ _ _ => 0) fun _ _ => .error (-6)) (zeroKey _) [] [0xBA, 0] := by
  rw [truthful_iff, not_not]
  exact ⟨by unfold WellEncoded; decide, by decide⟩

end Core

end Trelyan.Falcon
