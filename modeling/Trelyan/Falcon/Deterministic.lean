import Trelyan.Falcon.Sizes

/-!
# Deterministic signatures

The verifiers of `deterministic.c`, its conversion to the constant-time format, and its
functions that return coefficients, over `falcon_verify` as it is.

`verifyCompressed_iff` and `verifyCt_iff` say what is accepted, down to the bytes.  A
signature in either format is a header, a salt version and the one encoding of the signature
value, so that the value and the salt version determine the bytes.  The conversion does not
look at what follows the value: a converted signature is accepted exactly if some prefix of
the compressed one is (`verifyCt_convert_iff`).
-/

namespace Trelyan.Falcon.Deterministic

open Contract (FixedBytes)
open Trelyan.Falcon.Core (errSize)
open HashToPoint (samples accepted taken)
open Reference (errFormat errBadsig resalt writeSalt saltedSigMaxsize)
open Verify (Xof EncodesKey encodeValue Solves HashesTo)

/-! ## The functions -/

/-- `FALCON_DET1024_SIG_CT_HEADER`. -/
def sigCtHeader : UInt8 := 0xDA

/-- `FALCON_DET1024_SIG_CT_SIZE`. -/
def detSigCtSize : Nat := 1538

/-- `falcon_det1024_verify_compressed`. -/
def verifyCompressed (xof : Xof) (fuel : Nat) (sig : Bytes) (pubkey : Pubkey) (data : Bytes) :
    Option Int :=
  if sig.length < 2 then some errBadsig
  else if sig.head? ≠ some sigCompressedHeader then some errBadsig
  else if sig.length + 40 - 1 > saltedSigMaxsize then some errBadsig
  else
    Verify.falconVerify xof fuel (resalt sig) Verify.sigCompressed pubkey.bytes data
      (Verify.tmpsizeVerify 10)

/-- `falcon_det1024_verify_ct`. -/
def verifyCt (xof : Xof) (fuel : Nat) (sig : FixedBytes detSigCtSize) (pubkey : Pubkey)
    (data : Bytes) : Option Int :=
  if sig.bytes.head? ≠ some sigCtHeader then some errBadsig
  else
    Verify.falconVerify xof fuel (resalt sig.bytes) Verify.sigCt pubkey.bytes data
      (Verify.tmpsizeVerify 10)

/-- `falcon_det1024_get_salt_version`, of a signature that has one. -/
def getSaltVersion (sig : Bytes) : UInt8 := sig.getD 1 0

@[simp] theorem getSaltVersion_cons (header saltVersion : UInt8) (body : Bytes) :
    getSaltVersion (header :: saltVersion :: body) = saltVersion := rfl

/-- `falcon_det1024_convert_compressed_to_ct`: the code, or the bytes that it writes. -/
def convertCompressedToCt (sig : Bytes) : Except Int Bytes :=
  if sig.head? ≠ some sigCompressedHeader then .error errBadsig
  else
    match Codec.compDecode 10 (sig.drop 2) with
    | none => .error errSize
    | some (coeffs, _) =>
      match Codec.trimI16Encode (detSigCtSize - 2) 10 (Verify.maxSigBits.getD 10 0) coeffs with
      | none => .error errSize
      | some out => .ok (sigCtHeader :: getSaltVersion sig :: out)

/-- `falcon_det1024_pubkey_coeffs`. -/
def pubkeyCoeffs (pubkey : Pubkey) : Except Int (List UInt16) :=
  match Codec.modqDecode 10 pubkey.bytes.tail with
  | none => .error errFormat
  | some (h, v) => if v ≠ pubkeySize - 1 then .error errFormat else .ok h

/-- `falcon_det1024_hash_to_point_coeffs`. -/
def hashToPointCoeffs (xof : Xof) (data : Bytes) (saltVersion : UInt8) : List UInt16 :=
  HashToPoint.hashToPointCt 10 (xof (writeSalt saltVersion ++ data))

/-- `falcon_det1024_s2_coeffs`. -/
def s2Coeffs (sig : FixedBytes detSigCtSize) : Except Int (List Int16) :=
  if sig.bytes.head? ≠ some sigCtHeader then .error errFormat
  else
    match Codec.trimI16Decode 10 (Verify.maxSigBits.getD 10 0) (sig.bytes.drop 2) with
    | none => .error errFormat
    | some (s2, v) => if v ≠ detSigCtSize - 2 then .error errFormat else .ok s2

/-! ## Salted signatures -/

/-- The body of a signature encodes `sv`, and `sv` solves the equation of the message. -/
structure GoodBody (xof : Xof) (ct : Bool) (pubkey data : Bytes) (saltVersion : UInt8)
    (body : Bytes) (h : List UInt16) (sv : List Int16) : Prop where
  key : EncodesKey 10 pubkey h
  length : sv.length = 2 ^ 10
  encoded : encodeValue ct body.length 10 sv = some body
  solves : Solves (xof (writeSalt saltVersion ++ data)) 10 h sv

/-- The constant-time format needs enough good samples among the first ones. -/
def EnoughSamples (xof : Xof) (saltVersion : UInt8) (data : Bytes) : Prop :=
  2 ^ 10 ≤ ((samples (xof (writeSalt saltVersion ++ data)) 0 (taken 10)).filter accepted).length

theorem length_writeSalt (saltVersion : UInt8) : (writeSalt saltVersion).length = 40 := rfl

/-- The header byte and the type of each format. -/
def saltedHeader (ct : Bool) : UInt8 := if ct then 0x5A else 0x3A

def sigTypeOf (ct : Bool) : Int := if ct then Verify.sigCt else Verify.sigCompressed

theorem checkFormat_salted (ct : Bool) (sigLen : Nat) (hlen : ct = true → sigLen = 1577) :
    Verify.checkFormat (sigTypeOf ct) 10 (saltedHeader ct) sigLen = .ok ct := by
  cases ct with
  | false => rfl
  | true =>
    rw [hlen rfl]
    decide

/-- `falcon_verify` on a salted signature. -/
theorem falconVerify_salted_iff {xof : Xof} {ct : Bool} {pubkey data body : Bytes}
    {saltVersion : UInt8} (hlen : ct = true → body.length = detSigCtSize - 2)
    (henough : ct = true → EnoughSamples xof saltVersion data) :
    (∃ fuel, Verify.falconVerify xof fuel (saltedHeader ct :: writeSalt saltVersion ++ body)
        (sigTypeOf ct) pubkey data (Verify.tmpsizeVerify 10) = some 0) ↔
      ∃ h sv, GoodBody xof ct pubkey data saltVersion body h sv := by
  obtain ⟨hlength, hhead, hsalt, hbody⟩ := Verify.salted_parts (saltedHeader ct)
    (length_writeSalt saltVersion) body
  have hformat := checkFormat_salted ct (41 + body.length) fun hct => by rw [hlen hct]; rfl
  have hdegree : (saltedHeader ct &&& 0x0F).toNat = 10 := by cases ct <;> rfl
  have hnopad : ∀ logn sigLen, Verify.padded (sigTypeOf ct) logn sigLen = false := by
    intro logn sigLen
    cases ct <;> rfl
  generalize saltedHeader ct :: writeSalt saltVersion ++ body = sig at hlength hhead hsalt hbody
  rw [Verify.falconVerify_iff]
  · constructor
    · intro ⟨logn, ct', h, sv, hgood⟩
      have hlogn := hgood.degree
      rw [hhead, hdegree] at hlogn
      subst hlogn
      have hct := hgood.format
      rw [hhead, hlength, hformat, Except.ok.injEq] at hct
      subst hct
      obtain ⟨hsvlen, v, hv, hencoded, hend⟩ := hgood.value
      have hsolves := hgood.solves
      rw [hsalt] at hsolves
      rw [hnopad] at hend
      have hall : v = body.length := by
        rcases hend with hend | ⟨hpad, _⟩
        · omega
        · cases hpad
      rw [hbody, hall, List.take_length] at hencoded
      exact ⟨h, sv, hgood.key, hsvlen, hencoded, hsolves⟩
    · intro ⟨h, sv, hgood⟩
      refine ⟨10, ct, h, sv, by omega, le_refl _, by omega, by rw [hhead, hdegree],
        by rw [hhead, hlength, hformat], hgood.key, le_refl _, ⟨hgood.length, body.length, ?_, ?_,
          Or.inl hlength.symm⟩, ?_⟩
      · omega
      · rw [hbody, List.take_length]
        exact hgood.encoded
      · rw [hsalt]
        exact hgood.solves
  · intro logn hlogn hsame hct
    rw [hhead, hdegree] at hsame
    rw [← hsame, hhead, hlength, hformat, Except.ok.injEq] at hct
    rw [hsalt, ← hsame]
    exact henough hct

/-! ## The verifiers -/

/-- `falcon_det1024_verify_compressed` accepts a header, a salt version and an encoded value
that solves the equation, and nothing else. -/
theorem verifyCompressed_iff {xof : Xof} {sig : Bytes} {pubkey : Pubkey} {data : Bytes} :
    (∃ fuel, verifyCompressed xof fuel sig pubkey data = some 0) ↔
      ∃ saltVersion body h sv, sig = sigCompressedHeader :: saltVersion :: body ∧
        GoodBody xof false pubkey.bytes data saltVersion body h sv := by
  have hiff := fun saltVersion body => @falconVerify_salted_iff xof false pubkey.bytes data body
    saltVersion (fun h => by cases h) (fun h => by cases h)
  constructor
  · intro ⟨fuel, hret⟩
    unfold verifyCompressed at hret
    split_ifs at hret with hshort hheader hlong
    · cases hret
    · cases hret
    · cases hret
    · match sig, hheader with
      | _ :: saltVersion :: body, hheader =>
        obtain rfl := Option.some.inj (not_not.mp hheader)
        obtain ⟨h, sv, hgood⟩ := (hiff saltVersion body).mp ⟨fuel, hret⟩
        exact ⟨saltVersion, body, h, sv, rfl, hgood⟩
  · intro ⟨saltVersion, body, h, sv, hsig, hgood⟩
    obtain ⟨fuel, hret⟩ := (hiff saltVersion body).mpr ⟨h, sv, hgood⟩
    obtain ⟨c, _, s1, hsolution⟩ := hgood.solves
    -- a good value is short enough for the buffer
    have hfits : body.length + 41 ≤ saltedSigMaxsize := by
      refine Verify.packs_fits (by omega) (le_refl 10) hgood.length ?_
        (Codec.compEncode_eq_some.mp hgood.encoded).2.2
      have hs1 : 0 ≤ ∑ k ∈ Finset.range (2 ^ 10), s1 k ^ 2 :=
        Finset.sum_nonneg fun k _ => sq_nonneg _
      have hnorm := hsolution.short
      omega
    refine ⟨fuel, ?_⟩
    subst hsig
    unfold verifyCompressed
    rw [if_neg (by simp), if_neg (by simp), if_neg (by simp only [List.length_cons]; omega)]
    exact hret

/-- `falcon_det1024_verify_ct`, in the same words. -/
theorem verifyCt_iff {xof : Xof} {sig : FixedBytes detSigCtSize} {pubkey : Pubkey} {data : Bytes}
    (henough : EnoughSamples xof (getSaltVersion sig.bytes) data) :
    (∃ fuel, verifyCt xof fuel sig pubkey data = some 0) ↔
      ∃ saltVersion body h sv, sig.bytes = sigCtHeader :: saltVersion :: body ∧
        GoodBody xof true pubkey.bytes data saltVersion body h sv := by
  have hlength := sig.length_eq
  unfold verifyCt
  match hsig : sig.bytes, hlength with
  | header :: saltVersion :: body, hlength =>
    rw [hsig] at henough
    have hiff := @falconVerify_salted_iff xof true pubkey.bytes data body saltVersion
      (fun _ => by simpa [detSigCtSize] using hlength) fun _ => henough
    by_cases hheader : header = sigCtHeader
    · subst hheader
      have hhead : ¬ (sigCtHeader :: saltVersion :: body).head? ≠ some sigCtHeader :=
        not_not.mpr rfl
      constructor
      · intro ⟨fuel, hret⟩
        rw [if_neg hhead] at hret
        obtain ⟨h, sv, hgood⟩ := hiff.mp ⟨fuel, hret⟩
        exact ⟨saltVersion, body, h, sv, rfl, hgood⟩
      · intro ⟨_, _, h, sv, heq, hgood⟩
        cases heq
        obtain ⟨fuel, hret⟩ := hiff.mpr ⟨h, sv, hgood⟩
        refine ⟨fuel, ?_⟩
        rw [if_neg hhead]
        exact hret
    · constructor
      · intro ⟨fuel, hret⟩
        rw [if_pos (by simpa using hheader)] at hret
        cases hret
      · intro ⟨_, _, _, _, heq, _⟩
        exact absurd (List.cons_eq_cons.mp heq).1 hheader

/-! ## The conversion -/

/-- `trim_i16_encode`, as the conversion calls it, writes what the decoder reads. -/
theorem trimI16Encode_iff {sv : List Int16} {out : Bytes} (hlen : sv.length = 2 ^ 10) :
    Codec.trimI16Encode (detSigCtSize - 2) 10 (Verify.maxSigBits.getD 10 0) sv = some out ↔
      encodeValue true out.length 10 sv = some out := by
  have hlength : ∀ {n : Nat}, Codec.trimI16Encode n 10 (Verify.maxSigBits.getD 10 0) sv = some out →
      out.length = detSigCtSize - 2 :=
    fun h => Codec.length_trimEncode (T := Codec.int16) (by decide) (by decide) hlen h
  constructor
  · intro h
    rw [hlength h]
    exact h
  · intro h
    rw [← hlength h]
    exact h

/-- The constant-time format has room for every value of the compressed format. -/
theorem encodeValue_of_comp {n : Nat} {body : Bytes} {sv : List Int16} (hlen : sv.length = 2 ^ 10)
    (hencoded : Codec.compEncode n sv = some body) :
    ∃ out : Bytes, encodeValue true out.length 10 sv = some out := by
  have hvalid := (Codec.compEncode_eq_some.mp hencoded).1
  have hbits : 0 < Verify.maxSigBits.getD 10 0 := by decide
  have hwidth : Verify.maxSigBits.getD 10 0 ≤ Codec.int16.width := by decide
  have hfield : ∀ c ∈ sv, (Codec.trimField Codec.int16 _ hbits hwidth).Valid c := by
    intro c hc
    obtain ⟨hlo, hhi⟩ : -2047 ≤ c.toInt ∧ c.toInt ≤ 2047 := hvalid c hc
    show -2 ^ 11 < c.toInt ∧ c.toInt < 2 ^ 11
    omega
  exact ⟨_, (trimI16Encode_iff hlen).mp ((Codec.trimEncode_eq_some hbits hwidth).mpr
    ⟨hfield, by decide, Bits.Field.packs_encode _ (by decide) hfield⟩)⟩

/-- The conversion reads a value from the front of the body, whatever follows. -/
theorem convert_iff {header saltVersion : UInt8} {body out : Bytes} :
    convertCompressedToCt (header :: saltVersion :: body) = .ok out ↔
      header = sigCompressedHeader ∧
        ∃ v sv ctBody, v ≤ body.length ∧ sv.length = 2 ^ 10 ∧
          Codec.compEncode v sv = some (body.take v) ∧
          encodeValue true ctBody.length 10 sv = some ctBody ∧
          out = sigCtHeader :: saltVersion :: ctBody := by
  unfold convertCompressedToCt
  rw [List.head?_cons, List.drop_succ_cons, List.drop_succ_cons, List.drop_zero]
  by_cases hheader : header = sigCompressedHeader
  · rw [if_neg (not_not.mpr (congrArg some hheader))]
    constructor
    · intro hout
      cases hdecode : Codec.compDecode 10 body with
      | none =>
        rw [hdecode] at hout
        cases hout
      | some t =>
        obtain ⟨hlen, hv, hencoded⟩ := Codec.compDecode_iff.mp hdecode
        rw [hdecode] at hout
        dsimp only at hout
        cases htrim : Codec.trimI16Encode (detSigCtSize - 2) 10 (Verify.maxSigBits.getD 10 0)
          t.1 with
        | none =>
          rw [htrim] at hout
          cases hout
        | some ctBody =>
          rw [htrim] at hout
          exact ⟨hheader, t.2, t.1, ctBody, hv, hlen, hencoded, (trimI16Encode_iff hlen).mp htrim,
            (Except.ok.inj hout).symm⟩
    · intro ⟨_, v, sv, ctBody, hv, hlen, hencoded, htrim, hout⟩
      rw [Codec.compDecode_iff.mpr ⟨hlen, hv, hencoded⟩]
      dsimp only
      rw [(trimI16Encode_iff hlen).mpr htrim, hout]
      rfl
  · rw [if_pos fun h => hheader (Option.some.inj h)]
    constructor
    · intro hout
      cases hout
    · intro ⟨h, _⟩
      exact absurd h hheader

/-- Only one value is encoded in the constant-time format. -/
theorem encodeValue_inj {ct : Bool} {body : Bytes} {sv sv' : List Int16}
    (hlen : sv.length = 2 ^ 10) (hlen' : sv'.length = 2 ^ 10)
    (h : encodeValue ct body.length 10 sv = some body)
    (h' : encodeValue ct body.length 10 sv' = some body) : sv = sv' := by
  have hdecode : ∀ x : List Int16, x.length = 2 ^ 10 →
      encodeValue ct body.length 10 x = some body →
        Verify.decodeValue ct 10 body = some (x, body.length) := by
    intro x hx henc
    exact (Verify.decodeValue_iff (by omega) (le_refl _)).mpr
      ⟨hx, le_refl _, by rwa [List.take_length]⟩
  have heq := (hdecode sv hlen h).symm.trans (hdecode sv' hlen' h')
  exact (Prod.mk.inj (Option.some.inj heq)).1

/-! ## A signature of zeros -/

/-- A stream of zeros. -/
def zeroXof : Xof := fun _ _ => 0

theorem samples_zero (bytes : Bytes) (i k : Nat) :
    samples (zeroXof bytes) i k = List.replicate k 0 := by
  rw [samples, List.eq_replicate_iff]
  refine ⟨by simp, fun w hw => ?_⟩
  obtain ⟨u, -, hu⟩ := List.mem_map.mp hw
  rw [← hu]
  show (((0 : UInt8).toUInt32 <<< 8) ||| (0 : UInt8).toUInt32) = 0
  decide

theorem filter_accepted_zero (k : Nat) :
    (List.replicate k 0).filter accepted = List.replicate k 0 := by
  rw [List.filter_replicate, if_pos (by decide)]

theorem enoughSamples_zero (saltVersion : UInt8) (data : Bytes) :
    EnoughSamples zeroXof saltVersion data := by
  rw [EnoughSamples, samples_zero, filter_accepted_zero, List.length_replicate, taken]
  exact Nat.le_add_right _ _

theorem hashesTo_zero (bytes : Bytes) (logn : Nat) :
    HashesTo (zeroXof bytes) logn (List.replicate (2 ^ logn) 0) := by
  refine ⟨2 ^ logn, ?_⟩
  rw [HashToPoint.hashToPointVartime, HashToPoint.vartimeLoop_eq, samples_zero,
    filter_accepted_zero,
    if_pos (by rw [List.length_replicate]), List.take_of_length_le (by simp),
    List.map_replicate]
  rfl

theorem getD_zero {α : Type} (n k : Nat) (z : α) : (List.replicate n z).getD k z = z := by
  rw [List.getD_eq_getElem?_getD, List.getElem?_replicate]
  split <;> rfl

theorem ints_zero (n : Nat) : Vrfy.ints (List.replicate n 0) = fun _ => 0 := by
  funext k
  rw [Vrfy.ints, getD_zero]
  rfl

/-- Zeros solve the equation for the point zero and the key zero. -/
theorem solves_zero (bytes : Bytes) (logn : Nat) :
    Solves (zeroXof bytes) logn (List.replicate (2 ^ logn) 0) (List.replicate (2 ^ logn) 0) := by
  refine ⟨_, hashesTo_zero bytes logn, fun _ => 0, ⟨?_, ?_⟩⟩
  · intro k hk
    have hcoeff : Vrfy.coeff (List.replicate (2 ^ logn) 0) k = 0 := by
      rw [Vrfy.coeff, getD_zero]
      decide
    have hmodQ : Vrfy.modQ (fun _ => 0) = fun _ => 0 := funext fun _ => Int.cast_zero
    rw [hcoeff, ints_zero, hmodQ, Vrfy.ringMul, Ntt.mulMod_eq (Nat.two_pow_pos logn).ne' hk]
    simp
  · rw [ints_zero]
    simp

theorem ofBytes_zero (n : Nat) :
    Bits.ofBytes (List.replicate n 0) = List.replicate (8 * n) false := by
  induction n with
  | zero => rfl
  | succ n ih =>
    rw [List.replicate_succ, Bits.ofBytes_cons, ih, show 8 * (n + 1) = 8 + 8 * n by omega,
      List.replicate_add]
    rfl

/-- The key of degree 1024 that encodes zeros. -/
def zeroPubkey : Pubkey where
  bytes := 0x0A :: List.replicate 1792 0
  length_eq := by
    rw [List.length_cons, List.length_replicate]
    rfl

theorem encodesKey_zero : EncodesKey 10 zeroPubkey.bytes (List.replicate (2 ^ 10) 0) := by
  refine ⟨rfl, zeroPubkey.length_eq, List.length_replicate, ?_⟩
  rw [Codec.modqEncode_eq_some]
  refine ⟨fun c hc => ?_, ?_, 0, by omega, ?_⟩
  · rw [List.eq_of_mem_replicate hc]
    decide
  · rw [zeroPubkey.length_eq]
    decide
  · have hbits : Codec.modqBits (List.replicate (2 ^ 10) 0) =
        List.replicate (2 ^ 10 * 14) false := by
      rw [Codec.modqBits, List.flatMap_replicate, show Bits.ofNat 14 (0 : UInt16).toNat =
        List.replicate 14 false from rfl, List.flatten_replicate_replicate]
    rw [hbits, show zeroPubkey.bytes.tail = List.replicate 1792 0 from rfl, ofBytes_zero,
      List.replicate_zero, List.append_nil, show 2 ^ 10 * 14 = 8 * 1792 by norm_num]

/-- A signature of zeros, for any message. -/
theorem verifies_zero : ∃ sig : Bytes, sig.length ≤ sigCompressedMaxsize ∧ ∀ data, ∃ fuel,
    verifyCompressed zeroXof fuel sig zeroPubkey data = some 0 := by
  have hints := ints_zero (2 ^ 10)
  have hvalid : ∀ c ∈ List.replicate (2 ^ 10) 0, Codec.compCode.Valid c := by
    intro c hc
    rw [List.eq_of_mem_replicate hc]
    show -2047 ≤ (0 : Int16).toInt ∧ (0 : Int16).toInt ≤ 2047
    decide
  obtain ⟨body, hbody⟩ := @Verify.compEncode_fits 10 (by omega) (le_refl _)
    (List.replicate (2 ^ 10) 0) List.length_replicate hvalid
    (by rw [hints]; simp)
  obtain ⟨-, hle, hpacks⟩ := Codec.compEncode_eq_some.mp hbody
  have hroom : Verify.sigCompressedMaxsizeOf 10 - 41 + 2 ≤ sigCompressedMaxsize := by decide
  refine ⟨sigCompressedHeader :: 0 :: body, ?_, fun data => verifyCompressed_iff.mpr ?_⟩
  · rw [List.length_cons, List.length_cons]
    omega
  have hencoded : encodeValue false body.length 10 (List.replicate (2 ^ 10) 0) = some body := by
    rw [encodeValue, if_neg (by decide)]
    exact Codec.compEncode_eq_some.mpr ⟨hvalid, le_refl _, hpacks⟩
  have hgood : GoodBody zeroXof false zeroPubkey.bytes data 0 body (List.replicate (2 ^ 10) 0)
      (List.replicate (2 ^ 10) 0) :=
    { key := encodesKey_zero
      length := List.length_replicate
      encoded := hencoded
      solves := solves_zero _ 10 }
  exact ⟨0, body, _, _, rfl, hgood⟩

/-! ## The conversion and the verifiers -/

/-- A good body is converted to a good body with the same value, whatever follows it. -/
theorem exists_converted {xof : Xof} {pubkey data body : Bytes} {saltVersion : UInt8}
    {h : List UInt16} {sv : List Int16}
    (hgood : GoodBody xof false pubkey data saltVersion body h sv) (rest : Bytes) :
    ∃ (ct : FixedBytes detSigCtSize) (ctBody : Bytes),
      ct.bytes = sigCtHeader :: saltVersion :: ctBody ∧
        convertCompressedToCt (sigCompressedHeader :: saltVersion :: (body ++ rest)) =
          .ok ct.bytes ∧
        GoodBody xof true pubkey data saltVersion ctBody h sv := by
  obtain ⟨ctBody, htrim⟩ := encodeValue_of_comp hgood.length hgood.encoded
  have hlength : ctBody.length = detSigCtSize - 2 :=
    Codec.length_trimEncode (T := Codec.int16) (by decide) (by decide) hgood.length htrim
  refine ⟨⟨sigCtHeader :: saltVersion :: ctBody, ?_⟩, ctBody, rfl, ?_,
    hgood.key, hgood.length, htrim, hgood.solves⟩
  · rw [List.length_cons, List.length_cons, hlength]
    rfl
  · refine convert_iff.mpr ⟨rfl, body.length, sv, ctBody, ?_, hgood.length, ?_, htrim, rfl⟩
    · rw [List.length_append]
      omega
    · rw [List.take_left' rfl]
      exact hgood.encoded

/-- The converted signature is accepted exactly if a prefix of the compressed one is. -/
theorem verifyCt_convert_iff {xof : Xof} {sig : Bytes} {pubkey : Pubkey} {data : Bytes}
    (htwo : 2 ≤ sig.length) (henough : EnoughSamples xof (getSaltVersion sig) data) :
    (∃ ct : FixedBytes detSigCtSize, convertCompressedToCt sig = .ok ct.bytes ∧
        ∃ fuel, verifyCt xof fuel ct pubkey data = some 0) ↔
      ∃ k fuel, verifyCompressed xof fuel (sig.take k) pubkey data = some 0 := by
  match sig, htwo with
  | header :: saltVersion :: body, _ =>
    rw [getSaltVersion_cons] at henough
    constructor
    · intro ⟨ct, hconvert, hverify⟩
      obtain ⟨hheader, v, sv, ctBody, hv, hlen, hencoded, htrim, hout⟩ := convert_iff.mp hconvert
      rw [verifyCt_iff (by rw [hout, getSaltVersion_cons]; exact henough)] at hverify
      obtain ⟨saltVersion', body', h, sv', heq, hgood⟩ := hverify
      rw [hout] at heq
      cases heq
      obtain rfl := encodeValue_inj hlen hgood.length htrim hgood.encoded
      refine ⟨v + 2, verifyCompressed_iff.mpr ⟨saltVersion, body.take v, h, sv, ?_, hgood.key,
        hlen, ?_, hgood.solves⟩⟩
      · rw [hheader]
        rfl
      · rw [List.length_take, Nat.min_eq_left hv]
        exact hencoded
    · intro ⟨k, hverify⟩
      obtain ⟨saltVersion', body', h, sv, heq, hgood⟩ := verifyCompressed_iff.mp hverify
      match k, heq with
      | k + 2, heq =>
        rw [List.take_succ_cons, List.take_succ_cons] at heq
        cases heq
        obtain ⟨ct, ctBody, hct, hconvert, hgoodCt⟩ := exists_converted hgood (body.drop k)
        rw [List.take_append_drop] at hconvert
        refine ⟨ct, hconvert, (verifyCt_iff ?_).mpr ⟨saltVersion, ctBody, h, sv, hct, hgoodCt⟩⟩
        rw [hct, getSaltVersion_cons]
        exact henough

theorem verifyCt_convert_zero : ∃ (sig : Bytes) (ct : FixedBytes detSigCtSize),
    convertCompressedToCt sig = .ok ct.bytes ∧
      ∃ fuel, verifyCt zeroXof fuel ct zeroPubkey [] = some 0 := by
  obtain ⟨sig, -, hsig⟩ := verifies_zero
  obtain ⟨_, _, _, _, hbytes, -⟩ := verifyCompressed_iff.mp (hsig [])
  refine ⟨sig, (verifyCt_convert_iff ?_ (enoughSamples_zero _ _)).mpr ⟨sig.length, ?_⟩⟩
  · rw [hbytes, List.length_cons, List.length_cons]
    omega
  · rw [List.take_length]
    exact hsig []

/-- No two accepted signatures are converted to the same bytes. -/
theorem convert_inj {xof : Xof} {sig sig' : Bytes} {pubkey pubkey' : Pubkey} {data data' : Bytes}
    (hsig : ∃ fuel, verifyCompressed xof fuel sig pubkey data = some 0)
    (hsig' : ∃ fuel, verifyCompressed xof fuel sig' pubkey' data' = some 0)
    (hconvert : convertCompressedToCt sig = convertCompressedToCt sig') : sig = sig' := by
  have hresult : ∀ {sig : Bytes} {pubkey : Pubkey} {data : Bytes},
      (∃ fuel, verifyCompressed xof fuel sig pubkey data = some 0) →
      ∃ saltVersion body sv ctBody, sig = sigCompressedHeader :: saltVersion :: body ∧
        sv.length = 2 ^ 10 ∧ Codec.compEncode body.length sv = some body ∧
        encodeValue true ctBody.length 10 sv = some ctBody ∧
        convertCompressedToCt sig = .ok (sigCtHeader :: saltVersion :: ctBody) := by
    intro sig pubkey data hverify
    obtain ⟨saltVersion, body, h, sv, hbytes, hgood⟩ := verifyCompressed_iff.mp hverify
    obtain ⟨ct, ctBody, hct, hconvert, hgoodCt⟩ := exists_converted hgood []
    rw [List.append_nil, hct] at hconvert
    rw [hbytes]
    exact ⟨saltVersion, body, sv, ctBody, rfl, hgood.length, hgood.encoded, hgoodCt.encoded,
      hconvert⟩
  obtain ⟨saltVersion, body, sv, ctBody, hbytes, hlen, hencoded, htrim, hct⟩ := hresult hsig
  obtain ⟨saltVersion', body', sv', ctBody', hbytes', hlen', hencoded', htrim', hct'⟩ :=
    hresult hsig'
  rw [hct, hct'] at hconvert
  cases hconvert
  obtain rfl := encodeValue_inj hlen hlen' htrim htrim'
  rw [hbytes, hbytes', (Codec.compEncode_eq_some.mp hencoded).2.2.unique
    (Codec.compEncode_eq_some.mp hencoded').2.2]

/-- Only one of the signatures that are accepted for one message has the conversion of the one
for another message. -/
theorem convert_inj_zero : ∃ sig : Bytes, ∃ ct : FixedBytes detSigCtSize,
    (∃ fuel, verifyCompressed zeroXof fuel sig zeroPubkey [1] = some 0) ∧
      convertCompressedToCt sig = .ok ct.bytes ∧
      ∃! sig', (∃ fuel, verifyCompressed zeroXof fuel sig' zeroPubkey [2] = some 0) ∧
        convertCompressedToCt sig' = .ok ct.bytes := by
  obtain ⟨sig, -, hsig⟩ := verifies_zero
  obtain ⟨saltVersion, body, _, _, hbytes, hgood⟩ := verifyCompressed_iff.mp (hsig [1])
  obtain ⟨ct, _, -, hconvert, -⟩ := exists_converted hgood []
  rw [List.append_nil, ← hbytes] at hconvert
  refine ⟨sig, ct, hsig [1], hconvert, sig, ⟨hsig [2], hconvert⟩, ?_⟩
  rintro sig' ⟨hsig', hconvert'⟩
  exact convert_inj hsig' (hsig [1]) (hconvert'.trans hconvert.symm)

/-! ## Coefficients -/

theorem pubkeyCoeffs_iff {pubkey : Pubkey} {h : List UInt16} :
    EncodesKey 10 pubkey.bytes h ↔
      pubkey.bytes.head? = some 0x0A ∧ pubkeyCoeffs pubkey = .ok h := by
  have hlength := pubkey.length_eq
  have hcoeffs : pubkeyCoeffs pubkey = .ok h ↔
      Codec.modqDecode 10 pubkey.bytes.tail = some (h, pubkey.bytes.length - 1) := by
    rw [hlength]
    unfold pubkeyCoeffs
    cases Codec.modqDecode 10 pubkey.bytes.tail with
    | none =>
      constructor
      · intro hret
        cases hret
      · intro hret
        cases hret
    | some t =>
      dsimp only
      split_ifs with hv
      · constructor
        · intro hret
          cases hret
        · intro hret
          exact absurd (Prod.mk.inj (Option.some.inj hret)).2 hv
      · rw [Except.ok.injEq, Option.some.injEq, Prod.ext_iff]
        simp [not_not.mp hv]
  rw [hcoeffs]
  constructor
  · intro hkey
    exact ⟨hkey.header, ((Verify.encodesKey_iff (le_refl 10)).mp hkey).2.2.2⟩
  · intro ⟨hheader, hdecode⟩
    refine (Verify.encodesKey_iff (le_refl 10)).mpr ⟨?_, ?_, hlength, hdecode⟩
    · rw [List.headD_eq_head?_getD, hheader]
      rfl
    · rw [List.headD_eq_head?_getD, hheader]
      rfl

theorem s2Coeffs_iff {sig : FixedBytes detSigCtSize} {s2 : List Int16} :
    s2Coeffs sig = .ok s2 ↔
      ∃ saltVersion body, sig.bytes = sigCtHeader :: saltVersion :: body ∧ s2.length = 2 ^ 10 ∧
        encodeValue true body.length 10 s2 = some body := by
  have hlength := sig.length_eq
  unfold s2Coeffs
  match hsig : sig.bytes, hlength with
  | header :: saltVersion :: body, hlength =>
    have hbody : body.length = detSigCtSize - 2 := by simpa [detSigCtSize] using hlength
    have hdecode : Codec.trimI16Decode 10 (Verify.maxSigBits.getD 10 0) body =
        some (s2, detSigCtSize - 2) ↔
          s2.length = 2 ^ 10 ∧ encodeValue true body.length 10 s2 = some body := by
      show Verify.decodeValue true 10 body = _ ↔ _
      rw [Verify.decodeValue_iff (by omega) (le_refl _), ← hbody, List.take_length]
      simp
    rw [List.head?_cons, List.drop_succ_cons, List.drop_succ_cons, List.drop_zero]
    by_cases hheader : header = sigCtHeader
    · subst hheader
      rw [if_neg (not_not.mpr rfl)]
      constructor
      · intro hret
        cases htrim : Codec.trimI16Decode 10 (Verify.maxSigBits.getD 10 0) body with
        | none =>
          rw [htrim] at hret
          cases hret
        | some t =>
          rw [htrim] at hret
          dsimp only at hret
          split_ifs at hret with hv
          refine ⟨saltVersion, body, rfl, hdecode.mp ?_⟩
          rw [htrim, ← not_not.mp hv, ← Except.ok.inj hret]
      · intro ⟨_, _, heq, hvalue⟩
        cases heq
        rw [hdecode.mpr hvalue]
        exact if_neg (not_not.mpr rfl)
    · rw [if_pos fun h => hheader (Option.some.inj h)]
      constructor
      · intro hret
        cases hret
      · intro ⟨_, _, heq, _⟩
        exact absurd (List.cons_eq_cons.mp heq).1 hheader

/-- The functions that return coefficients check what `falcon_det1024_verify_ct` checks, all but
the header byte of the key. -/
theorem verifyCt_coeffs_iff {xof : Xof} {sig : FixedBytes detSigCtSize} {pubkey : Pubkey}
    {data : Bytes} (henough : EnoughSamples xof (getSaltVersion sig.bytes) data) :
    (∃ fuel, verifyCt xof fuel sig pubkey data = some 0) ↔
      pubkey.bytes.head? = some 0x0A ∧ ∃ h s2 s1, pubkeyCoeffs pubkey = .ok h ∧
        s2Coeffs sig = .ok s2 ∧
        Vrfy.s1Coeffs 10 h (hashToPointCoeffs xof data (getSaltVersion sig.bytes)) s2 =
          some s1 := by
  have hhash : HashesTo (xof (writeSalt (getSaltVersion sig.bytes) ++ data)) 10
      (hashToPointCoeffs xof data (getSaltVersion sig.bytes)) :=
    (HashToPoint.hashToPointCt_eq_iff (le_refl 10) _).mpr henough
  have hs1 := fun (h : List UInt16) (s2 : List Int16) (hkey : EncodesKey 10 pubkey.bytes h)
      (hs : Vrfy.SmallPoly 10 s2) =>
    Vrfy.s1Coeffs_isSome (le_refl 10) hhash.isPoly hs hkey.isPoly
  rw [verifyCt_iff henough]
  constructor
  · intro ⟨saltVersion, body, h, s2, hsig, hgood⟩
    obtain ⟨hheader, hcoeffs⟩ := pubkeyCoeffs_iff.mp hgood.key
    obtain ⟨c, hc, hsolution⟩ := hgood.solves
    have hsalt : getSaltVersion sig.bytes = saltVersion := by rw [hsig, getSaltVersion_cons]
    rw [hsalt] at hhash hs1 ⊢
    rw [hc.eq hhash] at hsolution
    obtain ⟨s1, hsome⟩ := (hs1 h s2 hgood.key (Verify.smallPoly_of_encodeValue (by omega)
      (le_refl 10) hgood.length hgood.encoded)).mpr hsolution
    exact ⟨hheader, h, s2, s1, hcoeffs, s2Coeffs_iff.mpr ⟨saltVersion, body, hsig, hgood.length,
      hgood.encoded⟩, hsome⟩
  · intro ⟨hheader, h, s2, s1, hcoeffs, hs2, hsome⟩
    obtain ⟨saltVersion, body, hsig, hlen, hencoded⟩ := s2Coeffs_iff.mp hs2
    have hkey := pubkeyCoeffs_iff.mpr ⟨hheader, hcoeffs⟩
    have hsolution := (hs1 h s2 hkey (Verify.smallPoly_of_encodeValue (by omega)
      (le_refl 10) hlen hencoded)).mp ⟨s1, hsome⟩
    have hsalt : getSaltVersion sig.bytes = saltVersion := by rw [hsig, getSaltVersion_cons]
    rw [hsalt] at hhash hsolution
    exact ⟨saltVersion, body, h, s2, hsig, hkey, hlen, hencoded, _, hhash, hsolution⟩

theorem verifyCt_coeffs_zero : ∃ (ct : FixedBytes detSigCtSize) (h : List UInt16)
    (s2 : List Int16) (s1 : List Int16), pubkeyCoeffs zeroPubkey = .ok h ∧ s2Coeffs ct = .ok s2 ∧
      Vrfy.s1Coeffs 10 h (hashToPointCoeffs zeroXof [] (getSaltVersion ct.bytes)) s2 =
        some s1 := by
  obtain ⟨sig, -, hsig⟩ := verifies_zero
  obtain ⟨saltVersion, body, h, sv, -, hgood⟩ := verifyCompressed_iff.mp (hsig [])
  obtain ⟨ct, ctBody, hct, -, hgoodCt⟩ := exists_converted hgood []
  have hverify : ∃ fuel, verifyCt zeroXof fuel ct zeroPubkey [] = some 0 :=
    (verifyCt_iff (enoughSamples_zero _ _)).mpr ⟨saltVersion, ctBody, h, sv, hct, hgoodCt⟩
  obtain ⟨-, h', s2, s1, hh, hs2, hs1⟩ := (verifyCt_coeffs_iff (enoughSamples_zero _ _)).mp hverify
  exact ⟨ct, h', s2, s1, hh, hs2, hs1⟩

end Trelyan.Falcon.Deterministic
