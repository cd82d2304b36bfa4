import Trelyan.Falcon.Bindings
import Trelyan.Falcon.Sign

/-!
# Deterministic signing

`falcon_det1024_sign_compressed` over `falcon_sign_dyn_finish` as it is, and the way of a
signature from the private key to the verifiers of the two bindings.

The signer returns the first short attempt, and what it returns the verifier accepts.  The
buffer is never too small: `FALCON_ERR_SIZE` comes from a coefficient beyond 2047, which the
compressed format cannot hold (`signCompressed_returns`).
-/

namespace Trelyan.Falcon.Deterministic

open Trelyan.Falcon.Core (errSize)
open Reference (errFormat resalt writeSalt writeBuffer saltedSigMaxsize)
open Sign (Sampler Sound doSignDyn encodeSig signDyn signLoop falconSignDynFinish)
open Verify (Xof sigCompressed hashToPoint HashesTo)

/-! ## The function -/

/-- `falcon_get_logn`. -/
def falconGetLogn (obj : Bytes) : Int :=
  let logn := (obj.headD 0 &&& 0x0F).toNat
  if obj.length = 0 then errFormat
  else if logn < 1 ∨ logn > 10 then errFormat
  else logn

theorem falconGetLogn_cons (b : UInt8) (rest : Bytes) :
    falconGetLogn (b :: rest) = 10 ↔ (b &&& 0x0F).toNat = 10 := by
  unfold falconGetLogn errFormat
  dsimp only
  rw [List.headD_cons, if_neg (by simp)]
  generalize (b &&& 0x0F).toNat = logn
  split_ifs with h
  · constructor
    · intro hcode
      exact absurd hcode (by decide)
    · omega
  · omega

/-- The call of `falcon_sign_dyn_finish`. -/
def signSalted (xof : Xof) (sampler : Sampler) (fuel : Nat) (privkey : Privkey) (data : Bytes) :
    Option (Except Int Bytes) :=
  falconSignDynFinish xof sampler fuel (10 :: privkey.bytes ++ data) saltedSigMaxsize sigCompressed
    privkey.bytes (writeSalt currentSaltVersion ++ data) (writeSalt currentSaltVersion)
    (Sign.tmpsizeSigndyn 10)

/-- "Transform the salted signature to unsalted format", or the code. -/
def unsalted : Except Int Bytes → SignOutput
  | .error r => ⟨r, sigCompressedMaxsize, writeBuffer []⟩
  | .ok saltedsig =>
    ⟨0, saltedsig.length - 40 + 1,
      writeBuffer ((saltedsig.headD 0 ||| 0x80) :: currentSaltVersion :: saltedsig.drop 41)⟩

/-- `falcon_det1024_sign_compressed`. -/
def signCompressed (xof : Xof) (sampler : Sampler) (fuel : Nat) (privkey : Privkey)
    (data : Bytes) : Option SignOutput :=
  if falconGetLogn privkey.bytes ≠ 10 then some (unsalted (.error errFormat))
  else (signSalted xof sampler fuel privkey data).map unsalted

/-! ## What it returns -/

variable {xof : Xof} {sampler : Sampler} {privkey : Privkey} {data : Bytes} {o : SignOutput}

/-- The compressed format: the header, the nonce and the encoding. -/
theorem encodeSig_compressed {logn sigLen : Nat} {nonce : Bytes} {sv : List Int16}
    {r : Except Int Bytes} (h : encodeSig sigCompressed logn sigLen nonce sv = some r) :
    (Codec.compEncode (sigLen - 41) sv = none ∧ r = .error errSize) ∨
      ∃ out, Codec.compEncode (sigLen - 41) sv = some out ∧
        r = .ok (UInt8.ofNat (0x30 + logn) :: nonce ++ out) := by
  unfold encodeSig at h
  rw [if_neg (by decide), if_neg (by decide)] at h
  cases hout : Codec.compEncode (sigLen - 41) sv with
  | none =>
    rw [hout] at h
    exact Or.inl ⟨rfl, (Option.some.inj h).symm⟩
  | some out =>
    rw [hout] at h
    exact Or.inr ⟨out, rfl, (Option.some.inj h).symm⟩

/-- The reported bytes of a signature that fits. -/
theorem unsalted_out {body : Bytes} (hfits : body.length + 2 ≤ sigCompressedMaxsize) :
    (unsalted (.ok (0x3A :: writeSalt currentSaltVersion ++ body))).out =
      sigCompressedHeader :: currentSaltVersion :: body := by
  obtain ⟨hlength, hhead, -, hdrop⟩ :=
    Verify.salted_parts 0x3A (length_writeSalt currentSaltVersion) body
  unfold unsalted SignOutput.out
  dsimp only
  rw [hlength, hhead, hdrop, show 41 + body.length - 40 + 1 = body.length + 2 by omega]
  unfold writeBuffer
  dsimp only
  rw [List.take_take, Nat.min_eq_left hfits]
  exact List.take_left' (by simp)

theorem degree_of_privkeySize : ∀ logn ≤ 10, 1 ≤ logn →
    privkeySize = PrivateKey.privkeySizeOf logn → logn = 10 := by
  decide

/-- A salted signature is the header, the salt and the encoding of the first short attempt. -/
theorem signSalted_ok {fuel : Nat} {saltedsig : Bytes}
    (h : signSalted xof sampler fuel privkey data = some (.ok saltedsig)) :
    ∃ body, saltedsig = 0x3A :: writeSalt currentSaltVersion ++ body ∧
      body.length + 2 ≤ sigCompressedMaxsize := by
  obtain ⟨logn, key, hdegree, -, -, -, -, hloop⟩ := Sign.falconSignDynFinish_ok.mp h
  obtain ⟨hpos, hlogn, -, hsize⟩ := PrivateKey.privkeyDegree_iff.mp hdegree
  rw [privkey.length_eq] at hsize
  obtain rfl := degree_of_privkeySize logn hlogn hpos hsize
  obtain ⟨_, sv, _, _, _, hencode⟩ := Sign.signLoop_spec hloop
  rcases encodeSig_compressed hencode with ⟨_, hr⟩ | ⟨out, hout, hr⟩
  · cases hr
  · have hmax := (Codec.compEncode_eq_some.mp hout).2.1
    unfold saltedSigMaxsize at hmax
    unfold sigCompressedMaxsize
    exact ⟨out, Except.ok.inj hr, by omega⟩

/-- With code 0 the reported bytes are those of a salted signature, without the salt. -/
theorem signCompressed_ok {fuel : Nat} (h : signCompressed xof sampler fuel privkey data = some o)
    (hrc : o.rc = 0) :
    ∃ body, signSalted xof sampler fuel privkey data =
        some (.ok (0x3A :: writeSalt currentSaltVersion ++ body)) ∧
      body.length + 2 ≤ sigCompressedMaxsize ∧
      o.out = sigCompressedHeader :: currentSaltVersion :: body := by
  unfold signCompressed at h
  split_ifs at h with hdegree
  · cases h
    cases hrc
  · obtain ⟨r, hr, ho⟩ := Option.map_eq_some_iff.mp h
    cases r with
    | error r =>
      rw [← ho] at hrc
      exact absurd hrc (Sign.falconSignDynFinish_error hr)
    | ok saltedsig =>
      obtain ⟨body, hsalted, hfits⟩ := signSalted_ok hr
      rw [hsalted] at ho hr
      exact ⟨body, hr, hfits, by rw [← ho, unsalted_out hfits]⟩

/-- The loop in the compressed format ends with the first short attempt. -/
theorem signLoop_compressed_iff {s : Nat → UInt8}
    {attempts : (hm : List UInt16) → Nat → Sign.Attempt hm.length} {logn sigLen : Nat}
    {nonce : Bytes} {r : Except Int Bytes} :
    (∃ fuel, signLoop s attempts sigCompressed logn sigLen nonce fuel 0 = some r) ↔
      ∃ hm sv j, HashesTo s logn hm ∧ doSignDyn logn hm (attempts hm j) = some sv ∧
        (∀ i < j, doSignDyn logn hm (attempts hm i) = none) ∧
        encodeSig sigCompressed logn sigLen nonce sv = some r := by
  have hsome : ∀ sv, encodeSig sigCompressed logn sigLen nonce sv ≠ none := by
    intro sv hnone
    unfold encodeSig at hnone
    rw [if_neg (by decide), if_neg (by decide)] at hnone
    split at hnone <;> cases hnone
  constructor
  · rintro ⟨fuel, h⟩
    cases fuel with
    | zero => cases h
    | succ fuel =>
      rw [signLoop] at h
      obtain ⟨hm, hpoint, hrest⟩ := Option.bind_eq_some_iff.mp h
      obtain ⟨t, ht, hcode⟩ := Option.bind_eq_some_iff.mp hrest
      obtain ⟨j, _, hsv, hbefore⟩ := Sign.signDyn_iff.mp ⟨fuel, ht⟩
      rw [Nat.zero_add] at hsv
      cases hencode : encodeSig sigCompressed logn sigLen nonce t.1 with
      | none => exact absurd hencode (hsome _)
      | some r' =>
        rw [hencode] at hcode
        refine ⟨hm, t.1, j, ⟨fuel, hpoint⟩, hsv, fun i hi => ?_, hencode.trans hcode⟩
        have hnone := hbefore i hi
        rwa [Nat.zero_add] at hnone
  · rintro ⟨hm, sv, j, ⟨fuel, hpoint⟩, hsv, hbefore, hencode⟩
    obtain ⟨fuel', hsign⟩ := Sign.signDyn_iff.mpr ⟨j, rfl, by rwa [Nat.zero_add],
      fun i hi => by rw [Nat.zero_add]; exact hbefore i hi⟩
    refine ⟨fuel + fuel' + 1, ?_⟩
    have hpoint' : hashToPoint (fuel + fuel') (sigCompressed = Verify.sigCt) logn s = some hm :=
      Verify.hashToPointVartime_mono fuel' hpoint
    have hsign' := Sign.signDyn_mono fuel hsign
    rw [Nat.add_comm fuel' fuel] at hsign'
    rw [signLoop, hpoint', Option.bind_some, hsign', Option.bind_some, hencode]

/-- The norm bound leaves room for every value that the compressed format can hold. -/
theorem encodeSig_short {nonce : Bytes} {sv : List Int16} {r : Except Int Bytes}
    (hlen : sv.length = 2 ^ 10)
    (hshort : ∑ k ∈ Finset.range (2 ^ 10), Vrfy.ints sv k ^ 2 ≤ (Vrfy.l2bound.getD 10 0).toNat)
    (h : encodeSig sigCompressed 10 saltedSigMaxsize nonce sv = some r) :
    ((unsalted r).rc = 0 ↔ ∀ z ∈ sv, -2047 ≤ z.toInt ∧ z.toInt ≤ 2047) ∧
      ((unsalted r).rc ≠ 0 → (unsalted r).rc = errSize) := by
  rcases encodeSig_compressed h with ⟨hnone, hr⟩ | ⟨out, hout, hr⟩
  · subst hr
    refine ⟨⟨fun hrc => absurd hrc (by decide), fun hvalid => ?_⟩, fun _ => rfl⟩
    obtain ⟨out, hout⟩ := Verify.compEncode_fits (by omega) (le_refl 10) hlen hvalid hshort
    exact absurd (hnone.symm.trans hout) (by simp)
  · subst hr
    exact ⟨⟨fun _ => (Codec.compEncode_eq_some.mp hout).1, fun _ => rfl⟩, fun hrc => absurd rfl hrc⟩

/-! ## A signer of zeros -/

/-- Attempts that leave the lattice point zero. -/
def zeroSampler : Sampler := fun _ _ hm _ =>
  ⟨List.replicate hm.length 0, List.replicate hm.length 0, List.length_replicate,
    List.length_replicate⟩

theorem longs_zero (n : Nat) : Sign.longs (List.replicate n 0) = fun _ => 0 := by
  funext k
  rw [Sign.longs, getD_zero]
  rfl

theorem mulMod_zero {R : Type} [CommRing R] [Nontrivial R] {n : Nat} (hn : n ≠ 0) (h : Nat → R)
    {k : Nat} (hk : k < n) : Ntt.mulMod n (fun _ => 0) h k = 0 := by
  rw [Ntt.mulMod_eq hn hk]
  simp

section ZeroSampler

variable {logn : Nat} {hm : List UInt16}

theorem inRange_zero (hlen : hm.length = 2 ^ logn) (hm_lt : ∀ w ∈ hm, Vrfy.Reduced w)
    (rng : Bytes) (key : List Int8 × List Int8 × List Int8 × List Int8) (j : Nat) :
    Sign.InRange (2 ^ logn) hm (zeroSampler rng key hm j) := by
  refine ⟨hlen, fun k hk => ?_, fun k _ => ?_⟩
  · unfold zeroSampler
    rw [Sign.first, longs_zero, List.getD_eq_getElem _ _ (by omega)]
    have hlt : hm[k].toNat < 12289 := hm_lt _ (List.getElem_mem _)
    dsimp only
    omega
  · unfold zeroSampler
    rw [longs_zero]
    dsimp only
    omega

theorem sound_zero (privkey : Bytes) : Sound zeroSampler privkey := by
  intro logn f g F G _ _ rng hm k hlen hlt
  refine ⟨⟨fun _ => 0, fun _ => 0, fun k hk => ?_⟩, inRange_zero hlen hlt rng _ _⟩
  have hn : 2 ^ logn ≠ 0 := (Nat.two_pow_pos logn).ne'
  rw [mulMod_zero hn _ hk, mulMod_zero hn _ hk, mulMod_zero hn _ hk, mulMod_zero hn _ hk]
  show Sign.longs (List.replicate hm.length 0) k = _ ∧ Sign.longs (List.replicate hm.length 0) k = _
  rw [longs_zero]
  exact ⟨rfl, rfl⟩

theorem doSignDyn_zero (logn : Nat) (rng : Bytes)
    (key : List Int8 × List Int8 × List Int8 × List Int8) (j : Nat) :
    doSignDyn logn (List.replicate (2 ^ logn) 0)
      (zeroSampler rng key (List.replicate (2 ^ logn) 0) j) =
        some (List.replicate (2 ^ logn) 0) := by
  have hrange : Sign.InRange (2 ^ logn) (List.replicate (2 ^ logn) 0)
      (zeroSampler rng key (List.replicate (2 ^ logn) 0) j) := by
    refine inRange_zero List.length_replicate (fun w hw => ?_) rng key j
    rw [List.eq_of_mem_replicate hw]
    show 0 < 12289
    omega
  rw [Sign.doSignDyn_iff hrange]
  unfold zeroSampler
  dsimp only
  refine ⟨List.length_replicate, fun k _ => ?_, ?_⟩
  · rw [ints_zero, longs_zero]
    rfl
  · have hfirst : ∀ n k,
        Sign.first (List.replicate (2 ^ logn) 0) (List.replicate n 0) k = 0 := by
      intro n k
      rw [Sign.first, longs_zero, getD_zero]
      rfl
    simp [hfirst, ints_zero]

end ZeroSampler

/-- `f = 1`. -/
def zeroF : List Int8 := 1 :: List.replicate 1023 0

def zeroG : List Int8 := List.replicate 1024 0

theorem exists_encodes {bits : Nat} (hpos : 0 < bits) (hbits : bits ≤ 8) (htwo : 2 ≤ bits)
    {x : List Int8} (hlen : x.length = 1024) (hx : ∀ c ∈ x, c = 0 ∨ c = 1) :
    ∃ a, PrivateKey.Encodes 10 bits x a := by
  have hvalid : ∀ c ∈ x, (Codec.trimField Codec.int8 bits hpos hbits).Valid c := by
    intro c hc
    show -2 ^ (bits - 1) < c.toInt ∧ c.toInt < 2 ^ (bits - 1)
    have hpow : (2 : Int) ^ 1 ≤ 2 ^ (bits - 1) := by
      exact_mod_cast Nat.pow_le_pow_right (by omega) (by omega : 1 ≤ bits - 1)
    rcases hx c hc with rfl | rfl
    · show _ < (0 : Int) ∧ (0 : Int) < _
      omega
    · show _ < (1 : Int) ∧ (1 : Int) < _
      omega
  have hpacks := Bits.Field.packs_encode (Codec.trimField Codec.int8 bits hpos hbits)
    (by omega) hvalid
  refine ⟨_, hlen, (Codec.trimEncode_eq_some hpos hbits).mpr ⟨hvalid, ?_, hpacks⟩⟩
  rw [hpacks.length, Bits.Field.length_flatMap_bitsOf, hlen]
  exact le_refl _

theorem residues_zeroG : Vrfy.residues zeroG = fun _ => 0 := by
  funext k
  rw [Vrfy.residues, zeroG, getD_zero]
  decide

theorem residues_zeroF (k : Nat) : Vrfy.residues zeroF k = Vrfy.one k := by
  cases k with
  | zero => decide
  | succ k =>
    rw [Vrfy.residues, zeroF, List.getD_cons_succ, getD_zero]
    rfl

theorem ringMul_zero {h : Nat → Vrfy.Zq} {k : Nat} (hk : k < 2 ^ 10) :
    Vrfy.ringMul 10 (fun _ => 0) h k = 0 :=
  mulMod_zero (by omega) h hk

theorem invertible_zeroF : Vrfy.Invertible 10 (Vrfy.residues zeroF) := by
  rw [Vrfy.invertible_iff (le_refl _)]
  intro p hp
  rw [Vrfy.hat_congr (fun k _ => residues_zeroF k) hp, Vrfy.hat_one (le_refl _) hp]
  exact one_ne_zero

theorem completes_zero : PrivateKey.Completes 10 zeroF zeroG zeroG zeroG where
  invertible := invertible_zeroF
  length := List.length_replicate
  low := fun z hz => by
    rw [List.eq_of_mem_replicate hz]
    decide
  equation := fun k hk => by
    rw [residues_zeroG, ringMul_zero hk, ringMul_zero hk]

theorem publicOf_zero :
    PrivateKey.PublicOf 10 zeroF zeroG zeroPubkey.bytes (List.replicate (2 ^ 10) 0) where
  invertible := invertible_zeroF
  key := encodesKey_zero
  equation := fun k hk => by
    have hcoeff : Vrfy.coeff (List.replicate (2 ^ 10) 0) = fun _ => 0 := by
      funext k
      rw [Vrfy.coeff, getD_zero]
      decide
    rw [hcoeff, ringMul_zero hk, residues_zeroG]

/-- A private key with the public key `zeroPubkey`. -/
theorem exists_privkey : ∃ privkey : Privkey,
    (PrivateKey.privkeyDegree privkey.bytes = .ok 10 ∧
      PrivateKey.completeElements 10 privkey.bytes = .ok (zeroF, zeroG, zeroG, zeroG)) ∧
        PrivateKey.makePublic privkey.bytes pubkeySize (PrivateKey.tmpsizeMakepub 10) =
          .ok zeroPubkey.bytes := by
  have hlenF : zeroF.length = 1024 := by rw [zeroF, List.length_cons, List.length_replicate]
  have hlenG : zeroG.length = 1024 := List.length_replicate
  have hf : ∀ c ∈ zeroF, c = 0 ∨ c = 1 := by
    intro c hc
    rw [zeroF, List.mem_cons] at hc
    exact hc.elim Or.inr fun h => Or.inl (List.eq_of_mem_replicate h)
  have hg : ∀ c ∈ zeroG, c = 0 ∨ c = 1 := fun c hc => Or.inl (List.eq_of_mem_replicate hc)
  obtain ⟨bf, hbf⟩ := exists_encodes (by omega) (by omega) (by omega : 2 ≤ 5) hlenF hf
  obtain ⟨bg, hbg⟩ := exists_encodes (by omega) (by omega) (by omega : 2 ≤ 5) hlenG hg
  obtain ⟨bF, hbF⟩ := exists_encodes (by omega) (by omega) (by omega : 2 ≤ 8) hlenG hg
  have hlength : (UInt8.ofNat (0x50 + 10) :: (bf ++ (bg ++ bF))).length = privkeySize := by
    rw [List.length_cons, List.length_append, List.length_append,
      hbf.length (by omega) (by omega), hbg.length (by omega) (by omega),
      hbF.length (by omega) (by omega)]
    decide
  refine ⟨⟨_, hlength⟩, ?_, ?_⟩
  · exact PrivateKey.loadPrivkey_iff.mpr ⟨by omega, le_refl _, ⟨bf, bg, bF, rfl, hbf, hbg, hbF⟩,
      completes_zero⟩
  · exact PrivateKey.makePublic_iff.mpr ⟨10, bf, bg, bF, zeroF, zeroG, List.replicate (2 ^ 10) 0,
      by omega, le_refl _, hlength.trans (by decide), rfl, hbf, hbg, by decide, le_refl _,
      publicOf_zero⟩

/-! ## When it returns -/

/-- With a key that loads, the signer returns as soon as an attempt is short.  The code is 0, or
`FALCON_ERR_SIZE` if the compressed format cannot hold a coefficient. -/
theorem signCompressed_returns {f g F G : List Int8}
    (hdegree : PrivateKey.privkeyDegree privkey.bytes = .ok 10)
    (hkey : PrivateKey.completeElements 10 privkey.bytes = .ok (f, g, F, G)) {hm : List UInt16}
    (hpoint : HashesTo (xof (writeSalt currentSaltVersion ++ data)) 10 hm) {j : Nat}
    {sv : List Int16}
    (hsv : doSignDyn 10 hm (sampler (10 :: privkey.bytes ++ data) (f, g, F, G) hm j) = some sv)
    (hbefore : ∀ i < j,
      doSignDyn 10 hm (sampler (10 :: privkey.bytes ++ data) (f, g, F, G) hm i) = none) :
    ∃ fuel o, signCompressed xof sampler fuel privkey data = some o ∧
      (o.rc = 0 ↔ ∀ z ∈ sv, -2047 ≤ z.toInt ∧ z.toInt ≤ 2047) ∧ (o.rc ≠ 0 → o.rc = errSize) := by
  obtain ⟨-, -, hheader, -⟩ := PrivateKey.privkeyDegree_iff.mp hdegree
  have hlogn : falconGetLogn privkey.bytes = 10 := by
    obtain ⟨rest, hbytes⟩ := List.head?_eq_some_iff.mp hheader
    rw [hbytes, falconGetLogn_cons]
    rfl
  obtain ⟨hlen, hnorm⟩ := Sign.doSignDyn_short hsv
  rw [hpoint.isPoly.length] at hlen hnorm
  obtain ⟨r, hencode⟩ : ∃ r, encodeSig sigCompressed 10 saltedSigMaxsize
      (writeSalt currentSaltVersion) sv = some r := by
    unfold encodeSig
    rw [if_neg (by decide), if_neg (by decide)]
    split
    · exact ⟨_, rfl⟩
    · exact ⟨_, rfl⟩
  obtain ⟨fuel, hloop⟩ := signLoop_compressed_iff.mpr ⟨hm, sv, j, hpoint, hsv, hbefore, hencode⟩
  have hsalted : signSalted xof sampler fuel privkey data = some r := by
    unfold signSalted falconSignDynFinish
    rw [hdegree]
    dsimp only
    rw [if_neg (lt_irrefl _), if_neg (by decide), show Sign.checkSigLen sigCompressed 10
      saltedSigMaxsize = .ok () from rfl]
    dsimp only
    rw [hkey]
    exact hloop
  refine ⟨fuel, unsalted r, ?_, encodeSig_short hlen hnorm hencode⟩
  unfold signCompressed
  rw [if_neg (not_not.mpr hlogn), hsalted]
  rfl

theorem signCompressed_returns_zero : ∃ (privkey : Privkey) (fuel : Nat) (o : SignOutput),
    signCompressed zeroXof zeroSampler fuel privkey [] = some o ∧ o.rc = 0 := by
  obtain ⟨privkey, ⟨hdegree, hkey⟩, -⟩ := exists_privkey
  have hsv : doSignDyn 10 (List.replicate (2 ^ 10) 0) (zeroSampler (10 :: privkey.bytes ++ [])
      (zeroF, zeroG, zeroG, zeroG) (List.replicate (2 ^ 10) 0) 0) =
        some (List.replicate (2 ^ 10) 0) := doSignDyn_zero 10 _ _ _
  obtain ⟨fuel, o, hsigned, hrc, -⟩ := signCompressed_returns hdegree hkey
    (hashesTo_zero _ 10) hsv (fun i hi => absurd hi (Nat.not_lt_zero i))
  refine ⟨privkey, fuel, o, hsigned, hrc.mpr fun z hz => ?_⟩
  rw [List.eq_of_mem_replicate hz]
  decide

/-! ## The bindings -/

section Bindings

variable {value : Bytes → List UInt32 → Bytes → Int}
  {falconSign : Privkey → Bytes → Except Int Bytes}

/-- On this key and message the loops of `falcon_sign_dyn_finish` end, and `falconSign` is what
it returns. -/
def SignReturns (xof : Xof) (sampler : Sampler)
    (falconSign : Privkey → Bytes → Except Int Bytes) (privkey : Privkey) (data : Bytes) : Prop :=
  ∃ fuel, signSalted xof sampler fuel privkey data = some (falconSign privkey data)

/-- `falcon_det1024_sign_compressed` returns what `deterministic.c` over that function says. -/
theorem signCompressed_eq (hsigner : SignReturns xof sampler falconSign privkey data) :
    ∃ fuel, signCompressed xof sampler fuel privkey data =
      some ((Core.cLibrary value falconSign).signCompressed privkey data) := by
  obtain ⟨fuel, hsalted⟩ := hsigner
  refine ⟨fuel, ?_⟩
  show _ = some (Reference.signOf falconSign privkey data)
  have hlength := privkey.length_eq
  unfold privkeySize at hlength
  obtain ⟨b, rest, hbytes⟩ := List.exists_cons_of_length_pos (l := privkey.bytes) (by omega)
  unfold signCompressed Reference.signOf
  by_cases hb : b = 0x5A
  · have hlogn : falconGetLogn privkey.bytes = 10 := by
      rw [hbytes, falconGetLogn_cons, hb]
      rfl
    rw [if_neg (not_not.mpr hlogn), hbytes, if_neg (by simp [hb]), hsalted]
    cases falconSign privkey data with
    | error r => rfl
    | ok saltedsig => rfl
  · rw [if_pos (show privkey.bytes.head? ≠ some 0x5A by simp [hbytes, hb])]
    by_cases hlogn : falconGetLogn privkey.bytes = 10
    · -- the other nibble is wrong, which `falcon_sign_dyn_finish` finds
      have hlow := hlogn
      rw [hbytes, falconGetLogn_cons] at hlow
      have hhigh : b &&& 0xF0 ≠ 0x50 := by
        intro hhigh
        have hbyte := PrivateKey.privkey_byte b hhigh
        rw [hlow] at hbyte
        exact hb hbyte
      have hdegree : PrivateKey.privkeyDegree privkey.bytes = .error errFormat := by
        unfold PrivateKey.privkeyDegree
        rw [hbytes]
        dsimp only
        rw [if_neg (by simp), List.headD_cons, if_pos hhigh]
      have herror : signSalted xof sampler fuel privkey data = some (.error errFormat) := by
        unfold signSalted falconSignDynFinish
        rw [hdegree]
      rw [if_neg (not_not.mpr hlogn), herror]
      rfl
    · rw [if_pos hlogn]
      rfl

end Bindings

/-! ## The library that signs with zeros -/

/-- The signer always returns, and with a key that loads it signs. -/
theorem signSalted_zero (privkey : Privkey) (data : Bytes) :
    ∃ fuel r, signSalted zeroXof zeroSampler fuel privkey data = some r ∧
      ∀ key, PrivateKey.privkeyDegree privkey.bytes = .ok 10 →
        PrivateKey.completeElements 10 privkey.bytes = .ok key → (unsalted r).rc = 0 := by
  unfold signSalted falconSignDynFinish
  cases hdegree : PrivateKey.privkeyDegree privkey.bytes with
  | error r => exact ⟨0, _, rfl, fun _ h => by cases h⟩
  | ok logn =>
    have hlogn := (PrivateKey.privkeyDegree_iff.mp hdegree).2.1
    have hpow : 2 ^ logn ≤ 2 ^ 10 := Nat.pow_le_pow_right (by omega) hlogn
    have htmp : ¬ Sign.tmpsizeSigndyn 10 < Sign.tmpsizeSigndyn logn := by
      unfold Sign.tmpsizeSigndyn
      omega
    have hroom : ¬ saltedSigMaxsize < 41 := by decide
    simp only [if_neg htmp, if_neg hroom,
      show Sign.checkSigLen sigCompressed logn saltedSigMaxsize = .ok () from rfl]
    cases hkey : PrivateKey.completeElements logn privkey.bytes with
    | error r =>
      refine ⟨0, _, rfl, fun key hten hload => ?_⟩
      obtain rfl := Except.ok.inj hten
      rw [hkey] at hload
      cases hload
    | ok key =>
      dsimp only
      obtain ⟨r, hencode⟩ : ∃ r, encodeSig sigCompressed logn saltedSigMaxsize
          (writeSalt currentSaltVersion) (List.replicate (2 ^ logn) 0) = some r := by
        unfold encodeSig
        rw [if_neg (by decide), if_neg (by decide)]
        split
        · exact ⟨_, rfl⟩
        · exact ⟨_, rfl⟩
      obtain ⟨fuel, hloop⟩ := (@signLoop_compressed_iff
        (zeroXof (writeSalt currentSaltVersion ++ data))
        (zeroSampler (10 :: privkey.bytes ++ data) key) logn saltedSigMaxsize _ r).mpr
        ⟨_, _, 0, hashesTo_zero _ logn, doSignDyn_zero logn _ _ _,
          fun i hi => absurd hi (Nat.not_lt_zero i), hencode⟩
      refine ⟨fuel, r, hloop, fun _ hten _ => ?_⟩
      obtain rfl := Except.ok.inj hten
      refine (encodeSig_short List.length_replicate ?_ hencode).1.mpr fun z hz => ?_
      · rw [ints_zero]
        simp
      · rw [List.eq_of_mem_replicate hz]
        decide

theorem exists_signReturns : ∃ falconSign,
    (∀ privkey data, SignReturns zeroXof zeroSampler falconSign privkey data) ∧
    ∀ privkey data key, PrivateKey.privkeyDegree privkey.bytes = .ok 10 →
      PrivateKey.completeElements 10 privkey.bytes = .ok key →
        (unsalted (falconSign privkey data)).rc = 0 := by
  choose fuel falconSign hsign hok using signSalted_zero
  exact ⟨falconSign, fun privkey data => ⟨fuel privkey data, hsign privkey data⟩,
    fun privkey data => hok privkey data⟩

theorem exists_returns : ∃ value, Returns zeroXof value := by
  have h : ∀ sig (h : List UInt32) data, ∃ fuel r, Verify.verifyValue zeroXof fuel
      Verify.sigCompressed false 10 sig (h.map (·.toUInt16)) ((sig.drop 1).take 40 ++ data) =
        some r := by
    intro sig h data
    obtain ⟨fuel, hpoint⟩ := hashesTo_zero ((sig.drop 1).take 40 ++ data) 10
    refine ⟨fuel, ?_⟩
    unfold Verify.verifyValue Verify.verifyValueBy
    cases Verify.decodeValue false 10 (sig.drop 41) with
    | none => exact ⟨_, rfl⟩
    | some t =>
      dsimp only
      split_ifs
      · exact ⟨_, rfl⟩
      · rw [show hashToPoint fuel false 10 _ = some (List.replicate (2 ^ 10) 0) from hpoint]
        exact ⟨_, rfl⟩
  choose fuel value hvalue using h
  exact ⟨value, fun sig h data => ⟨fuel sig h data, hvalue sig h data⟩⟩

/-- The library with this signer, and a key pair. -/
theorem exists_signer : ∃ value falconSign, ∃ privkey : Privkey, Returns zeroXof value ∧
    (∀ data, SignReturns zeroXof zeroSampler falconSign privkey data) ∧
      PrivateKey.makePublic privkey.bytes pubkeySize (PrivateKey.tmpsizeMakepub 10) =
        .ok zeroPubkey.bytes ∧
      ∀ message, ∃ sig, Falcon.sign (Core.cLibrary value falconSign) privkey.bytes message =
        .ok sig := by
  obtain ⟨value, hvalue⟩ := exists_returns
  obtain ⟨falconSign, hsigner, hok⟩ := exists_signReturns
  obtain ⟨privkey, ⟨hdegree, hkey⟩, hpubkey⟩ := exists_privkey
  refine ⟨value, falconSign, privkey, hvalue, hsigner privkey, hpubkey, fun message => ?_⟩
  have hhead : privkey.bytes.head? = some 0x5A := (PrivateKey.privkeyDegree_iff.mp hdegree).2.2.1
  have hrc : ((Core.cLibrary value falconSign).signCompressed privkey message).rc = 0 := by
    have hzero := hok privkey message _ hdegree hkey
    show (Reference.signOf falconSign privkey message).rc = 0
    unfold Reference.signOf
    rw [if_neg (not_not.mpr hhead)]
    cases hr : falconSign privkey message with
    | error r =>
      rw [hr] at hzero
      exact hzero
    | ok s => rfl
  obtain ⟨fuel, hsigned⟩ := signCompressed_eq (hsigner privkey message)
  obtain ⟨body, -, -, hout⟩ := signCompressed_ok hsigned hrc
  exact ⟨_, Falcon.sign_eq_ok_iff.mpr ⟨hrc, rfl, by rw [hout]; rfl⟩⟩

end Trelyan.Falcon.Deterministic
