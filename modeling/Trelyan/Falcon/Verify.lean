import Trelyan.Falcon.Codec
import Trelyan.Falcon.Compressed
import Trelyan.Falcon.HashToPoint
import Trelyan.Falcon.Vrfy

/-!
# `falcon_verify`

The function of `falcon.c` from the bytes on: it reads the header bytes, decodes the key and
the signature value, hashes the salt and the message to a point, and calls the verifier
proper.  SHAKE256 is any function from the absorbed bytes to an output stream.

`falconVerify_iff` puts the parts together.  The call returns 0 exactly if the bytes of the
key encode a polynomial `h`, those of the signature encode a value `s2`, and a short `s1`
solves `s1 + s2 h = c` for the point `c` of the message.

`hash_to_point_vartime` may need any number of samples, so the model has fuel, and a call
returns if some fuel is enough for it.
-/

namespace Trelyan.Falcon.Verify

open Trelyan.Falcon.Core (errSize)
open Reference (errFormat errBadsig pubkeySizeOf)
open Vrfy (verifyRaw toNttMonty)
open HashToPoint (hashToPointCt hashToPointVartime samples accepted taken)

/-! ## The function -/

def errBadarg : Int := -5

/-- `FALCON_SIG_COMPRESSED`. -/
def sigCompressed : Int := 1

/-- `FALCON_SIG_PADDED`. -/
def sigPadded : Int := 2

/-- `FALCON_SIG_CT`. -/
def sigCt : Int := 3

/-- `FALCON_SIG_COMPRESSED_MAXSIZE(logn)`. -/
def sigCompressedMaxsizeOf (logn : Nat) : Nat :=
  (11 * 2 ^ logn + (101 >>> (10 - logn)) + 7) >>> 3 + 41

/-- `FALCON_SIG_PADDED_SIZE(logn)`. -/
def sigPaddedSize (logn : Nat) : Nat :=
  44 + 3 * (256 >>> (10 - logn)) + 2 * (128 >>> (10 - logn)) + 3 * (64 >>> (10 - logn)) +
    2 * (16 >>> (10 - logn)) - 2 * (2 >>> (10 - logn)) - 8 * (1 >>> (10 - logn))

/-- `FALCON_SIG_CT_SIZE(logn)`. -/
def sigCtSize (logn : Nat) : Nat := 3 * 2 ^ (logn - 1) - (if logn = 3 then 1 else 0) + 41

/-- `FALCON_TMPSIZE_VERIFY(logn)`. -/
def tmpsizeVerify (logn : Nat) : Nat := 8 * 2 ^ logn + 1

/-- `Zf(max_sig_bits)`. -/
def maxSigBits : List Nat := [0, 10, 11, 11, 12, 12, 12, 12, 12, 12, 12]

/-- The output stream of SHAKE256 on the absorbed bytes. -/
abbrev Xof := Bytes → Nat → UInt8

/-- `switch (sig_type) { .. }`: the code, or `ct`. -/
def checkFormat (sigType : Int) (logn : Nat) (es0 : UInt8) (sigLen : Nat) : Except Int Bool :=
  if sigType = 0 then
    if es0 &&& 0xF0 = 0x30 then .ok false
    else if es0 &&& 0xF0 = 0x50 then
      if sigLen ≠ sigCtSize logn then .error errFormat else .ok true
    else .error errBadsig
  else if sigType = sigCompressed then
    if es0 &&& 0xF0 ≠ 0x30 then .error errFormat else .ok false
  else if sigType = sigPadded then
    if es0 &&& 0xF0 ≠ 0x30 then .error errFormat
    else if sigLen ≠ sigPaddedSize logn then .error errFormat
    else .ok false
  else if sigType = sigCt then
    if es0 &&& 0xF0 ≠ 0x50 then .error errFormat
    else if sigLen ≠ sigCtSize logn then .error errFormat
    else .ok true
  else .error errBadarg

/-- The signature value, and the number of bytes read. -/
def decodeValue (ct : Bool) (logn : Nat) (es : Bytes) : Option (List Int16 × Nat) :=
  if ct then Codec.trimI16Decode logn (maxSigBits.getD logn 0) es
  else Codec.compDecode logn es

/-- Extra bytes of value 0 are tolerated only for the "padded" format. -/
def padded (sigType : Int) (logn sigLen : Nat) : Bool :=
  (sigType = 0 && sigLen = sigPaddedSize logn) || sigType = sigPadded

/-- The hashed message. -/
def hashToPoint (fuel : Nat) (ct : Bool) (logn : Nat) (s : Nat → UInt8) : Option (List UInt16) :=
  if ct then some (hashToPointCt logn s) else hashToPointVartime fuel logn s

/-- `falcon_verify_finish`, from the decoding of the signature value on; `hash` is the call of
`Zf(hash_to_point_ct)` or of `Zf(hash_to_point_vartime)`. -/
def verifyValueBy (hash : Bool → Nat → Option (List UInt16)) (sigType : Int) (ct : Bool)
    (logn : Nat) (sig : Bytes) (h : List UInt16) : Option Int :=
  match decodeValue ct logn (sig.drop 41) with
  | none => some errFormat
  | some (sv, v) =>
    if 41 + v ≠ sig.length ∧
        ¬ (padded sigType logn sig.length ∧ (sig.drop (41 + v)).all (· = 0)) then
      some errFormat
    else
      (hash ct logn).map fun hm =>
        if verifyRaw logn hm sv (toNttMonty logn h) then 0 else errBadsig

/-- `falcon_verify_finish`. -/
def finishBy (hash : Bool → Nat → Option (List UInt16)) (sig : Bytes) (sigType : Int)
    (pubkey : Bytes) (tmpLen : Nat) : Option Int :=
  let es0 := sig.headD 0
  let pk0 := pubkey.headD 0
  let logn := (pk0 &&& 0x0F).toNat
  if sig.length < 41 ∨ pubkey.length = 0 then some errFormat
  else if pk0 &&& 0xF0 ≠ 0 then some errFormat
  else if logn < 1 ∨ logn > 10 then some errFormat
  else if (es0 &&& 0x0F).toNat ≠ logn then some errBadsig
  else
    match checkFormat sigType logn es0 sig.length with
    | .error r => some r
    | .ok ct =>
      if pubkey.length ≠ pubkeySizeOf logn then some errFormat
      else if tmpLen < tmpsizeVerify logn then some errSize
      else
        match Codec.modqDecode logn pubkey.tail with
        | none => some errFormat
        | some (h, inLen) =>
          if inLen ≠ pubkey.length - 1 then some errFormat
          else verifyValueBy hash sigType ct logn sig h

/-- `verifyValueBy`, for a context that has absorbed `hashData`. -/
def verifyValue (xof : Xof) (fuel : Nat) (sigType : Int) (ct : Bool) (logn : Nat) (sig : Bytes)
    (h : List UInt16) (hashData : Bytes) : Option Int :=
  verifyValueBy (fun ct logn => hashToPoint fuel ct logn (xof hashData)) sigType ct logn sig h

/-- `falcon_verify_finish`, for a context that has absorbed `hashData`. -/
def falconVerifyFinish (xof : Xof) (fuel : Nat) (sig : Bytes) (sigType : Int) (pubkey : Bytes)
    (hashData : Bytes) (tmpLen : Nat) : Option Int :=
  finishBy (fun ct logn => hashToPoint fuel ct logn (xof hashData)) sig sigType pubkey tmpLen

/-- `falcon_verify`. -/
def falconVerify (xof : Xof) (fuel : Nat) (sig : Bytes) (sigType : Int) (pubkey data : Bytes)
    (tmpLen : Nat) : Option Int :=
  if sig.length < 41 then some errFormat
  else
    falconVerifyFinish xof fuel sig sigType pubkey ((sig.drop 1).take 40 ++ data) tmpLen

/-! ## What it accepts -/

/-- The point of a stream: what the plain loop returns, when it does. -/
def HashesTo (s : Nat → UInt8) (logn : Nat) (c : List UInt16) : Prop :=
  ∃ fuel, hashToPointVartime fuel logn s = some c

/-- The bytes are the header and the encoding of `h`. -/
structure EncodesKey (logn : Nat) (pubkey : Bytes) (h : List UInt16) : Prop where
  header : pubkey.head? = some (UInt8.ofNat logn)
  size : pubkey.length = pubkeySizeOf logn
  length : h.length = 2 ^ logn
  encoded : Codec.modqEncode (pubkey.length - 1) logn h = some pubkey.tail

/-- The encoder of the signature value. -/
def encodeValue (ct : Bool) (maxOutLen logn : Nat) (sv : List Int16) : Option Bytes :=
  if ct then Codec.trimI16Encode maxOutLen logn (maxSigBits.getD logn 0) sv
  else Codec.compEncode maxOutLen sv

/-- The bytes after the salt are the encoding of `sv`, and zeros if the format has them. -/
structure EncodesValue (sigType : Int) (ct : Bool) (logn : Nat) (sig : Bytes) (sv : List Int16) :
    Prop where
  length : sv.length = 2 ^ logn
  encoded : ∃ v, 41 + v ≤ sig.length ∧
    encodeValue ct v logn sv = some ((sig.drop 41).take v) ∧
      (41 + v = sig.length ∨
        (padded sigType logn sig.length = true ∧ ∀ b ∈ sig.drop (41 + v), b = 0))

/-- The equation and the norm, for the point of the message. -/
def Solves (s : Nat → UInt8) (logn : Nat) (h : List UInt16) (sv : List Int16) : Prop :=
  ∃ c, HashesTo s logn c ∧
    ∃ s1, Vrfy.ShortSolution logn (Vrfy.coeff c) (Vrfy.coeff h) s1 (Vrfy.ints sv)

/-- A signature that the verifier is to accept. -/
structure Good (xof : Xof) (sig : Bytes) (sigType : Int) (pubkey data : Bytes) (tmpLen : Nat)
    (logn : Nat) (ct : Bool) (h : List UInt16) (sv : List Int16) : Prop where
  logn_pos : 1 ≤ logn
  logn_le : logn ≤ 10
  salted : 41 ≤ sig.length
  degree : (sig.headD 0 &&& 0x0F).toNat = logn
  format : checkFormat sigType logn (sig.headD 0) sig.length = .ok ct
  key : EncodesKey logn pubkey h
  tmp : tmpsizeVerify logn ≤ tmpLen
  value : EncodesValue sigType ct logn sig sv
  solves : Solves (xof ((sig.drop 1).take 40 ++ data)) logn h sv

/-! ## The parts -/

/-- The parts of a header, a nonce and the rest. -/
theorem salted_parts (header : UInt8) {nonce : Bytes} (hnonce : nonce.length = 40) (rest : Bytes) :
    (header :: nonce ++ rest).length = 41 + rest.length ∧
      (header :: nonce ++ rest).headD 0 = header ∧
      ((header :: nonce ++ rest).drop 1).take 40 = nonce ∧
      (header :: nonce ++ rest).drop 41 = rest := by
  refine ⟨?_, rfl, ?_, ?_⟩
  · rw [List.length_append, List.length_cons, hnonce]
  · exact List.take_left' hnonce
  · exact List.drop_left' (by rw [List.length_cons, hnonce])

theorem maxSigBits_bounds : ∀ logn ≤ 10, 1 ≤ logn →
    0 < maxSigBits.getD logn 0 ∧ maxSigBits.getD logn 0 ≤ 12 := by
  decide

/-- The decoders of the signature value accept the encodings. -/
theorem decodeValue_iff {ct : Bool} {logn : Nat} (hpos : 1 ≤ logn) (hlogn : logn ≤ 10)
    {es : Bytes} {sv : List Int16} {v : Nat} :
    decodeValue ct logn es = some (sv, v) ↔
      sv.length = 2 ^ logn ∧ v ≤ es.length ∧ encodeValue ct v logn sv = some (es.take v) := by
  obtain ⟨hbits, hle⟩ := maxSigBits_bounds logn hlogn hpos
  cases ct with
  | true => exact Codec.trimDecode_iff (T := Codec.int16) hbits (show _ ≤ 16 by omega)
  | false => exact Codec.compDecode_iff

/-- What is encoded is small. -/
theorem small_of_encodeValue {ct : Bool} {logn : Nat} (hpos : 1 ≤ logn) (hlogn : logn ≤ 10)
    {out : Bytes} {sv : List Int16} {v : Nat} (h : encodeValue ct v logn sv = some out) :
    ∀ z ∈ sv, -2048 < z.toInt ∧ z.toInt < 2048 := by
  obtain ⟨hbits, hle⟩ := maxSigBits_bounds logn hlogn hpos
  intro z hz
  cases ct with
  | true =>
    obtain ⟨hvalid, _⟩ := (Codec.trimEncode_eq_some (T := Codec.int16) hbits
      (show _ ≤ 16 by omega)).mp h
    have hpow : (2 : Int) ^ (maxSigBits.getD logn 0 - 1) ≤ 2 ^ 11 :=
      pow_le_pow_right₀ (by omega) (by omega)
    obtain ⟨hlo, hhi⟩ : -2 ^ (maxSigBits.getD logn 0 - 1) < z.toInt ∧
      z.toInt < 2 ^ (maxSigBits.getD logn 0 - 1) := hvalid z hz
    omega
  | false =>
    obtain ⟨hvalid, _⟩ := Codec.compEncode_eq_some.mp h
    obtain ⟨hlo, hhi⟩ : -2047 ≤ z.toInt ∧ z.toInt ≤ 2047 := hvalid z hz
    omega

theorem smallPoly_of_encodeValue {ct : Bool} {logn : Nat} (hpos : 1 ≤ logn) (hlogn : logn ≤ 10)
    {out : Bytes} {sv : List Int16} {v : Nat} (hlen : sv.length = 2 ^ logn)
    (h : encodeValue ct v logn sv = some out) : Vrfy.SmallPoly logn sv := by
  refine ⟨hlen, fun z hz => ?_⟩
  have hsmall := small_of_encodeValue hpos hlogn h z hz
  exact ⟨by omega, by omega⟩

theorem samples_add (s : Nat → UInt8) (i k m : Nat) :
    samples s i (k + m) = samples s i k ++ samples s (i + k) m := by
  rw [samples, samples, samples, ← List.map_append, List.range'_append_1]

theorem hashToPointVartime_mono {s : Nat → UInt8} {logn fuel : Nat} {c : List UInt16} (k : Nat)
    (h : hashToPointVartime fuel logn s = some c) :
    hashToPointVartime (fuel + k) logn s = some c := by
  unfold hashToPointVartime at h ⊢
  rw [HashToPoint.vartimeLoop_eq] at h ⊢
  split_ifs at h with hle
  rw [samples_add, List.filter_append, List.length_append, if_pos (by omega),
    List.take_append_of_le_length hle]
  exact h

/-- A point is the first good samples of any long enough part of the stream. -/
theorem HashesTo.eq {s : Nat → UInt8} {logn : Nat} {c c' : List UInt16} (h : HashesTo s logn c)
    (h' : HashesTo s logn c') : c = c' := by
  obtain ⟨fuel, hc⟩ := h
  obtain ⟨fuel', hc'⟩ := h'
  have h1 := hashToPointVartime_mono fuel' hc
  have h2 := hashToPointVartime_mono fuel hc'
  rw [Nat.add_comm, h1, Option.some.injEq] at h2
  exact h2

theorem HashesTo.isPoly {s : Nat → UInt8} {logn : Nat} {c : List UInt16} (h : HashesTo s logn c) :
    Vrfy.IsPoly (2 ^ logn) c (Vrfy.coeff c) := by
  obtain ⟨fuel, hc⟩ := h
  unfold hashToPointVartime at hc
  rw [HashToPoint.vartimeLoop_eq] at hc
  split_ifs at hc with hle
  rw [Option.some.injEq] at hc
  subst hc
  refine Vrfy.isPoly_coeff ?_ ?_
  · rw [List.length_map, List.length_take]
    omega
  · intro w hw
    obtain ⟨x, _, rfl⟩ := List.mem_map.mp hw
    have hval : (HashToPoint.reduced x).toNat = x.toNat % 12289 % 2 ^ 16 := UInt16.toNat_ofNat'
    show (HashToPoint.reduced x).toNat < 12289
    omega

theorem byte_of_nibbles : ∀ b : UInt8, b &&& 0xF0 = 0 →
    b = UInt8.ofNat (b &&& 0x0F).toNat :=
  Reference.forall_byte (by decide +kernel)

theorem nibbles_of_degree : ∀ logn ≤ 10, UInt8.ofNat logn &&& 0xF0 = 0 ∧
    (UInt8.ofNat logn &&& 0x0F).toNat = logn := by
  decide

theorem pubkeySizeOf_pos (logn : Nat) : 0 < pubkeySizeOf logn := Nat.succ_pos _

theorem checkFormat_error {sigType : Int} {logn sigLen : Nat} {es0 : UInt8} {r : Int}
    (h : checkFormat sigType logn es0 sigLen = .error r) : r ≠ 0 := by
  unfold checkFormat at h
  split_ifs at h <;> cases h <;> decide

/-- The checks of the header bytes and the key that a call passes which returns 0. -/
theorem falconVerifyFinish_eq_zero {xof : Xof} {fuel : Nat} {sig : Bytes} {sigType : Int}
    {pubkey hashData : Bytes} {tmpLen : Nat} :
    falconVerifyFinish xof fuel sig sigType pubkey hashData tmpLen = some 0 ↔
      ∃ logn ct h, (pubkey.headD 0 &&& 0x0F).toNat = logn ∧ 1 ≤ logn ∧ logn ≤ 10 ∧
        41 ≤ sig.length ∧ pubkey.headD 0 &&& 0xF0 = 0 ∧ (sig.headD 0 &&& 0x0F).toNat = logn ∧
        checkFormat sigType logn (sig.headD 0) sig.length = .ok ct ∧
        pubkey.length = pubkeySizeOf logn ∧ tmpsizeVerify logn ≤ tmpLen ∧
        Codec.modqDecode logn pubkey.tail = some (h, pubkey.length - 1) ∧
        verifyValue xof fuel sigType ct logn sig h hashData = some 0 := by
  unfold falconVerifyFinish finishBy verifyValue
  dsimp only
  generalize (pubkey.headD 0 &&& 0x0F).toNat = logn
  constructor
  · intro hret
    by_cases h1 : sig.length < 41 ∨ pubkey.length = 0
    · rw [if_pos h1] at hret
      cases hret
    by_cases h2 : pubkey.headD 0 &&& 0xF0 = 0
    swap
    · rw [if_neg h1, if_pos h2] at hret
      cases hret
    by_cases h3 : logn < 1 ∨ logn > 10
    · rw [if_neg h1, if_neg (not_not.mpr h2), if_pos h3] at hret
      cases hret
    by_cases h4 : (sig.headD 0 &&& 0x0F).toNat = logn
    swap
    · rw [if_neg h1, if_neg (not_not.mpr h2), if_neg h3, if_pos h4] at hret
      cases hret
    rw [if_neg h1, if_neg (not_not.mpr h2), if_neg h3, if_neg (not_not.mpr h4)] at hret
    cases hformat : checkFormat sigType logn (sig.headD 0) sig.length with
    | error r =>
      rw [hformat] at hret
      exact absurd (Option.some.inj hret) (checkFormat_error hformat)
    | ok ct =>
      rw [hformat] at hret
      dsimp only at hret
      by_cases h5 : pubkey.length = pubkeySizeOf logn
      swap
      · rw [if_pos h5] at hret
        cases hret
      by_cases h6 : tmpLen < tmpsizeVerify logn
      · rw [if_neg (not_not.mpr h5), if_pos h6] at hret
        cases hret
      rw [if_neg (not_not.mpr h5), if_neg h6] at hret
      cases hkey : Codec.modqDecode logn pubkey.tail with
      | none =>
        rw [hkey] at hret
        cases hret
      | some t =>
        rw [hkey] at hret
        dsimp only at hret
        split_ifs at hret with h7
        · cases hret
        · refine ⟨logn, ct, t.1, rfl, by omega, by omega, by omega, h2, h4, hformat, h5,
            by omega, ?_, hret⟩
          rw [← not_not.mp h7, ← hkey]
  · intro ⟨logn', ct, h, hlogn, hpos, hle, hsig, hnibble, hdegree, hformat, hsize, htmp, hkey,
      hvalue⟩
    subst hlogn
    have hpubkey := pubkeySizeOf_pos logn
    rw [if_neg (by omega), if_neg (not_not.mpr hnibble), if_neg (by omega),
      if_neg (not_not.mpr hdegree), hformat]
    dsimp only
    rw [if_neg (not_not.mpr hsize), if_neg (by omega), hkey]
    dsimp only
    rw [if_neg (not_not.mpr rfl), hvalue]

/-- The checks of the signature value. -/
theorem verifyValue_eq_zero {xof : Xof} {fuel : Nat} {sigType : Int} {ct : Bool} {logn : Nat}
    {sig : Bytes} {h : List UInt16} {hashData : Bytes} :
    verifyValue xof fuel sigType ct logn sig h hashData = some 0 ↔
      ∃ sv v hm, decodeValue ct logn (sig.drop 41) = some (sv, v) ∧
        (41 + v = sig.length ∨
          (padded sigType logn sig.length = true ∧ ∀ b ∈ sig.drop (41 + v), b = 0)) ∧
        hashToPoint fuel ct logn (xof hashData) = some hm ∧
        verifyRaw logn hm sv (toNttMonty logn h) = true := by
  unfold verifyValue verifyValueBy
  constructor
  · intro hret
    cases hvalue : decodeValue ct logn (sig.drop 41) with
    | none =>
      rw [hvalue] at hret
      cases hret
    | some w =>
      rw [hvalue] at hret
      dsimp only at hret
      split_ifs at hret with hend
      · cases hret
      · rw [Option.map_eq_some_iff] at hret
        obtain ⟨hm, hpoint, hcode⟩ := hret
        split_ifs at hcode with hraw
        · refine ⟨w.1, w.2, hm, rfl, ?_, hpoint, hraw⟩
          by_cases hall : 41 + w.2 = sig.length
          · exact Or.inl hall
          · have hpad := not_not.mp fun hno => hend ⟨hall, hno⟩
            exact Or.inr ⟨hpad.1, by simpa using hpad.2⟩
        · exact absurd hcode (by decide)
  · intro ⟨sv, v, hm, hvalue, hend, hpoint, hraw⟩
    rw [hvalue]
    dsimp only
    rw [if_neg ?_, hpoint, Option.map_some, if_pos hraw]
    intro ⟨hne, hno⟩
    rcases hend with hend | ⟨hpad, hzero⟩
    · exact hne hend
    · exact hno ⟨hpad, by simpa using hzero⟩

/-- `hash_to_point` finds the point of the stream; the constant-time variant does if the fixed
number of samples is enough. -/
theorem hashToPoint_iff {ct : Bool} {logn : Nat} {s : Nat → UInt8} {c : List UInt16}
    (hlogn : logn ≤ 10) (henough : ct = true →
      2 ^ logn ≤ ((samples s 0 (taken logn)).filter accepted).length) :
    (∃ fuel, hashToPoint fuel ct logn s = some c) ↔ HashesTo s logn c := by
  cases ct with
  | false => exact Iff.rfl
  | true =>
    have hct : HashesTo s logn (hashToPointCt logn s) :=
      (HashToPoint.hashToPointCt_eq_iff hlogn s).mpr (henough rfl)
    show (∃ _ : Nat, some (hashToPointCt logn s) = some c) ↔ _
    rw [exists_const, Option.some.injEq]
    constructor
    · intro h
      exact h ▸ hct
    · intro h
      exact hct.eq h

theorem EncodesKey.isPoly {logn : Nat} {pubkey : Bytes} {h : List UInt16}
    (hkey : EncodesKey logn pubkey h) : Vrfy.IsPoly (2 ^ logn) h (Vrfy.coeff h) :=
  Vrfy.isPoly_coeff hkey.length fun w hw =>
    UInt16.lt_iff_toNat_lt.mp ((Codec.modqEncode_eq_some.mp hkey.encoded).1 w hw)

/-- The header byte and `modq_decode` accept the encodings of keys. -/
theorem encodesKey_iff {logn : Nat} (hlogn : logn ≤ 10) {pubkey : Bytes} {h : List UInt16} :
    EncodesKey logn pubkey h ↔
      pubkey.headD 0 &&& 0xF0 = 0 ∧ (pubkey.headD 0 &&& 0x0F).toNat = logn ∧
        pubkey.length = pubkeySizeOf logn ∧
        Codec.modqDecode logn pubkey.tail = some (h, pubkey.length - 1) := by
  have hpos := pubkeySizeOf_pos logn
  have htake : pubkey.tail.take (pubkey.length - 1) = pubkey.tail := by
    rw [← List.length_tail]
    exact List.take_length
  rw [Codec.modqDecode_iff, htake, List.length_tail]
  constructor
  · intro ⟨hheader, hsize, hlen, hencoded⟩
    obtain ⟨hnibble, hdegree⟩ := nibbles_of_degree logn hlogn
    rw [List.headD_eq_head?_getD, hheader]
    exact ⟨hnibble, hdegree, hsize, hlen, le_refl _, hencoded⟩
  · intro ⟨hnibble, hdegree, hsize, hlen, _, hencoded⟩
    refine ⟨?_, hsize, hlen, hencoded⟩
    have hbyte := byte_of_nibbles _ hnibble
    rw [hdegree] at hbyte
    obtain ⟨b, rest, rfl⟩ := List.exists_cons_of_length_pos (l := pubkey) (by omega)
    exact congrArg some hbyte

/-- `falcon_verify` accepts the good signatures.  In the constant-time format the fixed number
of samples has to be enough. -/
theorem falconVerify_iff {xof : Xof} {sig : Bytes} {sigType : Int} {pubkey data : Bytes}
    {tmpLen : Nat} (henough : ∀ logn ≤ 10, (sig.headD 0 &&& 0x0F).toNat = logn →
      checkFormat sigType logn (sig.headD 0) sig.length = .ok true →
        2 ^ logn ≤ ((samples (xof ((sig.drop 1).take 40 ++ data)) 0 (taken logn)).filter
          accepted).length) :
    (∃ fuel, falconVerify xof fuel sig sigType pubkey data tmpLen = some 0) ↔
      ∃ logn ct h sv, Good xof sig sigType pubkey data tmpLen logn ct h sv := by
  unfold falconVerify
  constructor
  · intro ⟨fuel, hret⟩
    split_ifs at hret with hshort
    · cases hret
    · obtain ⟨logn, ct, h, hlogn, hpos, hle, hsig, hnibble, hdegree, hformat, hsize, htmp, hkey,
        hvalue⟩ := falconVerifyFinish_eq_zero.mp hret
      obtain ⟨sv, v, hm, hdecode, hend, hpoint, hraw⟩ := verifyValue_eq_zero.mp hvalue
      obtain ⟨hlen, hv, hencoded⟩ := (decodeValue_iff hpos hle).mp hdecode
      have hencodes := (encodesKey_iff hle).mpr ⟨hnibble, hlogn, hsize, hkey⟩
      have hhash := (hashToPoint_iff hle fun hct => henough logn hle hdegree (hct ▸ hformat)).mp
        ⟨fuel, hpoint⟩
      rw [List.length_drop] at hv
      refine ⟨logn, ct, h, sv, hpos, hle, hsig, hdegree, hformat, hencodes, htmp,
        ⟨hlen, v, by omega, hencoded, hend⟩, hm, hhash, ?_⟩
      exact (Vrfy.verifyRaw_iff hle hhash.isPoly (smallPoly_of_encodeValue hpos hle hlen hencoded)
        hencodes.isPoly).mp hraw
  · intro ⟨logn, ct, h, sv, hgood⟩
    have hpos := hgood.logn_pos
    have hle := hgood.logn_le
    have hsalted := hgood.salted
    obtain ⟨hlen, v, hv, hencoded, hend⟩ := hgood.value
    obtain ⟨c, hhash, hsolution⟩ := hgood.solves
    obtain ⟨fuel, hpoint⟩ := (hashToPoint_iff hle fun hct =>
      henough logn hle hgood.degree (hct ▸ hgood.format)).mpr hhash
    obtain ⟨hnibble, hlogn, hsize, hkey⟩ := (encodesKey_iff hle).mp hgood.key
    have hdecode := (decodeValue_iff hpos hle).mpr
      ⟨hlen, by rw [List.length_drop]; omega, hencoded⟩
    have hraw := (Vrfy.verifyRaw_iff hle hhash.isPoly
      (smallPoly_of_encodeValue hpos hle hlen hencoded) hgood.key.isPoly).mpr hsolution
    refine ⟨fuel, ?_⟩
    rw [if_neg (by omega)]
    exact falconVerifyFinish_eq_zero.mpr ⟨logn, ct, h, hlogn, hpos, hle, hsalted, hnibble,
      hgood.degree, hgood.format, hsize, hgood.tmp, hkey,
      verifyValue_eq_zero.mpr ⟨sv, v, c, hdecode, hend, hpoint, hraw⟩⟩

end Trelyan.Falcon.Verify
