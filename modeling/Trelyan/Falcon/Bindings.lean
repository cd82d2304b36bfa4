import Trelyan.Falcon.Deterministic

/-!
# The bindings over the C library

`Reference.ofFalcon` is `deterministic.c` over any `falcon_verify`, and
`Reference.falconVerify` is `falcon_verify` over whatever it does with a decoded key.  Here
is what it does: `verifyCompressed_eq` says that the two levels are the same function.  So
what the verifiers of the Rust crate and of the Python class accept is known down to the
bytes (`rust_verify_iff`, `python_verify_iff`).
-/

namespace Trelyan.Falcon.Deterministic

open Contract (FixedBytes)
open Reference (errFormat errBadsig resalt writeSalt)
open Verify (Xof HashesTo)

variable {xof : Xof} {value : Bytes → List UInt32 → Bytes → Int}
  {falconSign : Privkey → Bytes → Except Int Bytes}

/-- `value` is the code that `falcon_verify_finish` returns for a decoded key: its loop over
the samples ends. -/
def Returns (xof : Xof) (value : Bytes → List UInt32 → Bytes → Int) : Prop :=
  ∀ sig h data, ∃ fuel, Verify.verifyValue xof fuel Verify.sigCompressed false 10 sig
    (h.map (·.toUInt16)) ((sig.drop 1).take 40 ++ data) = some (value sig h data)

/-! ## One function -/

/-- More fuel does not change the code. -/
theorem verifyValue_unique {fuel fuel' : Nat} {sigType : Int} {ct : Bool} {logn : Nat}
    {sig : Bytes} {h : List UInt16} {hashData : Bytes} {r r' : Int}
    (hr : Verify.verifyValue xof fuel sigType ct logn sig h hashData = some r)
    (hr' : Verify.verifyValue xof fuel' sigType ct logn sig h hashData = some r') : r = r' := by
  have hpoint : ∀ {c c' : List UInt16}, Verify.hashToPoint fuel ct logn (xof hashData) = some c →
      Verify.hashToPoint fuel' ct logn (xof hashData) = some c' → c = c' := by
    intro c c' hc hc'
    cases ct with
    | true => exact Option.some.inj (hc.symm.trans hc')
    | false => exact HashesTo.eq ⟨fuel, hc⟩ ⟨fuel', hc'⟩
  unfold Verify.verifyValue Verify.verifyValueBy at hr hr'
  cases hvalue : Verify.decodeValue ct logn (sig.drop 41) with
  | none =>
    rw [hvalue] at hr hr'
    exact Option.some.inj (hr.symm.trans hr')
  | some t =>
    rw [hvalue] at hr hr'
    dsimp only at hr hr'
    split_ifs at hr hr' with hend
    · exact Option.some.inj (hr.symm.trans hr')
    · obtain ⟨c, hc, hcode⟩ := Option.map_eq_some_iff.mp hr
      obtain ⟨c', hc', hcode'⟩ := Option.map_eq_some_iff.mp hr'
      rw [hpoint hc hc'] at hcode
      exact hcode.symm.trans hcode'

/-- A key of the right size is decoded by `modq_decode` to the last byte. -/
theorem modqDecode_eq {logn : Nat} {bytes : Bytes} (hlen : bytes.length = Codec.fixedLen logn 14) :
    Codec.modqDecode logn bytes =
      (Reference.modqDecode logn bytes).map fun x => (x.map (·.toUInt16), bytes.length) := by
  unfold Codec.modqDecode
  rw [if_neg (by omega), ← hlen, List.take_length]

theorem pubkeySizeOf_eq : ∀ logn ≤ 10, 1 ≤ logn →
    Reference.pubkeySizeOf logn = Codec.fixedLen logn 14 + 1 ∧
      Verify.tmpsizeVerify logn ≤ Verify.tmpsizeVerify 10 := by
  decide

theorem degree_of_size : ∀ logn ≤ 10, 1 ≤ logn →
    pubkeySize = Reference.pubkeySizeOf logn → logn = 10 := by
  decide

/-- Either a check fails in both models, or both go on with the same decoded key. -/
theorem falconVerify_cases (xof : Xof) (value : Bytes → List UInt32 → Bytes → Int) (sig : Bytes)
    (pubkey : Pubkey) (data : Bytes) :
    (∀ fuel, Verify.falconVerify xof fuel sig Verify.sigCompressed pubkey.bytes data
        (Verify.tmpsizeVerify 10) = some (Reference.falconVerify value sig pubkey data)) ∨
      ∃ h : List UInt32, Reference.falconVerify value sig pubkey data = value sig h data ∧
        ∀ fuel, Verify.falconVerify xof fuel sig Verify.sigCompressed pubkey.bytes data
          (Verify.tmpsizeVerify 10) = Verify.verifyValue xof fuel Verify.sigCompressed false 10 sig
            (h.map (·.toUInt16)) ((sig.drop 1).take 40 ++ data) := by
  have hlength := pubkey.length_eq
  have hne : pubkey.bytes.length ≠ 0 := by
    rw [hlength]
    decide
  have hformat : ∀ {logn sigLen},
      Verify.checkFormat Verify.sigCompressed logn (sig.headD 0) sigLen =
      if sig.headD 0 &&& 0xF0 ≠ 0x30 then .error errFormat else .ok false := rfl
  unfold Verify.falconVerify Verify.falconVerifyFinish Verify.finishBy Reference.falconVerify
  dsimp only
  generalize (pubkey.bytes.headD 0 &&& 0x0F).toNat = logn
  by_cases h1 : sig.length < 41
  · exact Or.inl fun _ => by rw [if_pos h1, if_pos h1]
  have h1' : ¬ (sig.length < 41 ∨ pubkey.bytes.length = 0) := by omega
  simp only [if_neg h1, if_neg h1']
  by_cases h2 : pubkey.bytes.headD 0 &&& 0xF0 ≠ 0
  · exact Or.inl fun _ => by rw [if_pos h2, if_pos h2]
  simp only [if_neg h2]
  by_cases h3 : logn < 1 ∨ logn > 10
  · exact Or.inl fun _ => by rw [if_pos h3, if_pos h3]
  simp only [if_neg h3]
  by_cases h4 : (sig.headD 0 &&& 0x0F).toNat ≠ logn
  · exact Or.inl fun _ => by rw [if_pos h4, if_pos h4]
  simp only [if_neg h4, hformat]
  by_cases h5 : sig.headD 0 &&& 0xF0 ≠ 0x30
  · exact Or.inl fun _ => by rw [if_pos h5, if_pos h5]
  simp only [if_neg h5]
  by_cases h6 : pubkeySize ≠ Reference.pubkeySizeOf logn
  · exact Or.inl fun _ => by rw [if_pos (by rwa [hlength]), if_pos h6]
  have h6' : ¬ pubkey.bytes.length ≠ Reference.pubkeySizeOf logn := by rwa [hlength]
  obtain ⟨hsize, htmp⟩ := pubkeySizeOf_eq logn (by omega) (by omega)
  have hten := degree_of_size logn (by omega) (by omega) (not_not.mp h6)
  have htail : pubkey.bytes.tail.length = Codec.fixedLen logn 14 := by
    rw [List.length_tail]
    omega
  simp only [if_neg h6, if_neg h6', if_neg (show ¬ Verify.tmpsizeVerify 10 <
    Verify.tmpsizeVerify logn by omega), modqDecode_eq htail]
  cases hdecode : Reference.modqDecode logn pubkey.bytes.tail with
  | none => exact Or.inl fun _ => rfl
  | some h =>
    refine Or.inr ⟨h, rfl, fun _ => ?_⟩
    dsimp only [Option.map_some]
    rw [if_neg (not_not.mpr (List.length_tail)), hten]
    rfl

/-- `falcon_verify` for the compressed format returns what the model over a decoded key says. -/
theorem falconVerify_eq (hvalue : Returns xof value) {sig : Bytes} {pubkey : Pubkey}
    {data : Bytes} {r : Int} :
    (∃ fuel, Verify.falconVerify xof fuel sig Verify.sigCompressed pubkey.bytes data
        (Verify.tmpsizeVerify 10) = some r) ↔
      Reference.falconVerify value sig pubkey data = r := by
  rcases falconVerify_cases xof value sig pubkey data with hall | ⟨h, hcode, hall⟩
  · simp only [hall, exists_const, Option.some.injEq]
  · simp only [hall, hcode]
    obtain ⟨fuel, hret⟩ := hvalue sig h data
    constructor
    · intro ⟨fuel', hret'⟩
      exact verifyValue_unique hret hret'
    · intro hr
      exact ⟨fuel, hr ▸ hret⟩

/-- `falcon_det1024_verify_compressed` returns what `deterministic.c` over that model says. -/
theorem verifyCompressed_eq (hvalue : Returns xof value) {sig : Bytes} {pubkey : Pubkey}
    {data : Bytes} {r : Int} :
    (∃ fuel, verifyCompressed xof fuel sig pubkey data = some r) ↔
      (Core.cLibrary value falconSign).verifyCompressed sig pubkey data = r := by
  show _ ↔ Reference.verifyOf (Reference.falconVerify value) sig pubkey data = r
  unfold verifyCompressed Reference.verifyOf
  split_ifs
  · simp only [exists_const, Option.some.injEq]
  · simp only [exists_const, Option.some.injEq]
  · simp only [exists_const, Option.some.injEq]
  · exact falconVerify_eq hvalue

/-! ## What the bindings accept -/

/-- `verify_bytes` of the Rust crate. -/
theorem rust_verify_iff (hvalue : Returns xof value) {pk : Pubkey} {message sig : Bytes} :
    Core.verifyBytes (Core.cLibrary value falconSign) pk message sig = .ok () ↔
      ∃ body h sv, sig = sigCompressedHeader :: currentSaltVersion :: body ∧
        GoodBody xof false pk.bytes message currentSaltVersion body h sv := by
  rw [Core.verifyBytes_eq_ok_iff, ← verifyCompressed_eq hvalue, verifyCompressed_iff]
  constructor
  · intro ⟨hwell, saltVersion, body, h, sv, hsig, hgood⟩
    have hsalt := hwell.2.2.2
    rw [hsig] at hsalt
    obtain rfl := Option.some.inj hsalt
    exact ⟨body, h, sv, hsig, hgood⟩
  · intro ⟨body, h, sv, hsig, hgood⟩
    obtain ⟨fuel, hret⟩ := (verifyCompressed_iff).mpr
      ⟨currentSaltVersion, body, h, sv, hsig, hgood⟩
    have hlen := (Core.cLibrary value falconSign).verify_length sig pk message
      ((verifyCompressed_eq hvalue).mp ⟨fuel, hret⟩)
    exact ⟨⟨hlen.1, hlen.2, by rw [hsig]; rfl, by rw [hsig]; rfl⟩, _, body, h, sv, hsig, hgood⟩

/-- `FalconDet1024.verify` of the Python class, which takes any salt version. -/
theorem python_verify_iff (hvalue : Returns xof value) {pk : Pubkey} {message sig : Bytes} :
    Falcon.verify (Core.cLibrary value falconSign) sig pk.bytes message = .ok true ↔
      ∃ saltVersion body h sv, sig = sigCompressedHeader :: saltVersion :: body ∧
        GoodBody xof false pk.bytes message saltVersion body h sv := by
  rw [Falcon.verify_eq_ok_true_iff, ← verifyCompressed_eq hvalue, verifyCompressed_iff]

end Trelyan.Falcon.Deterministic
