import Trelyan.Falcon.DetSign
import Trelyan.Falcon.Shake

/-!
# Verification on a SHAKE256 context

`falcon_verify_start` absorbs the nonce, the caller injects the message in as many pieces as
there are, and `falcon_verify_finish` flips the context and takes the samples of
`hash_to_point` from it, two bytes at a time.

The result is `falcon_verify` on the whole message, with SHAKE256 for the stream
(`verifyStreamed_eq`).  So a signature of `falcon_sign_dyn_finish` is accepted in whatever pieces
the message comes (`verifyStreamed_of_sign`).
-/

namespace Trelyan.Falcon.Streaming

open Reference (errFormat)
open Sponge (Ops Ctx Squeezed)
open Shake (inject injectAll extract flip wordOps byteOps zeroWords zeroBytes)

/-! ## The functions -/

variable {σ : Type} (O : Ops σ)

/-- `inner_shake256_extract(sc, buf, sizeof buf)`, and `(buf[0] << 8) | buf[1]`. -/
def nextSample (c : Ctx σ) : Option (UInt32 × Ctx σ) :=
  match extract O 2 2 c with
  | some (buf, c) => some (((buf.getD 0 0).toUInt32 <<< 8) ||| (buf.getD 1 0).toUInt32, c)
  | none => none

/-- The loop of `Zf(hash_to_point_vartime)`, for at most `fuel` samples. -/
def vartimeFrom : Nat → Nat → Ctx σ → Option (List UInt16)
  | _, 0, _ => some []
  | 0, _ + 1, _ => none
  | fuel + 1, n + 1, c =>
    (nextSample O c).bind fun t =>
      if t.1 < 61445 then
        (vartimeFrom fuel n t.2).map fun x => (HashToPoint.subtractQ 4 t.1).toUInt16 :: x
      else vartimeFrom fuel (n + 1) t.2

/-- The samples of `Zf(hash_to_point_ct)`. -/
def ctSamples : Nat → Ctx σ → Option (List UInt16)
  | 0, _ => some []
  | m + 1, c =>
    (nextSample O c).bind fun t => (ctSamples m t.2).map fun x => HashToPoint.mark t.1 :: x

/-- `Zf(hash_to_point_ct)`. -/
def ctFrom (logn : Nat) (c : Ctx σ) : Option (List UInt16) :=
  let n := 2 ^ logn
  let excess := HashToPoint.overtab.getD logn 0
  (ctSamples O (n + excess) c).map fun tt => (HashToPoint.squeezeLoop excess excess 1 tt).take n

/-- `falcon_verify_start`: `s₀` is the state of zeros. -/
def falconVerifyStart (s₀ : σ) (sig : Bytes) : Except Int (Option (Ctx σ)) :=
  if sig.length < 41 then .error errFormat
  else .ok (inject O 40 ⟨s₀, 0⟩ ((sig.drop 1).take 40))

/-- `falcon_verify_finish`. -/
def falconVerifyFinish (fuel : Nat) (sig : Bytes) (sigType : Int) (pubkey : Bytes)
    (hashData : Ctx σ) (tmpLen : Nat) : Option Int :=
  let hash ct logn :=
    if ct then ctFrom O logn (flip O hashData) else vartimeFrom O fuel (2 ^ logn) (flip O hashData)
  Verify.finishBy hash sig sigType pubkey tmpLen

/-- `falcon_verify_start`, `shake256_inject` for each piece of the message, and
`falcon_verify_finish`. -/
def verifyStreamed (s₀ : σ) (chunks fuel : Nat) (sig : Bytes) (sigType : Int) (pubkey : Bytes)
    (pieces : List Bytes) (tmpLen : Nat) : Option Int :=
  match falconVerifyStart O s₀ sig with
  | .error r => some r
  | .ok start =>
    start.bind fun c =>
      (injectAll O chunks pieces c).bind fun hashData =>
        falconVerifyFinish O fuel sig sigType pubkey hashData tmpLen

/-! ## The samples of a context -/

/-- What is left of the output, when `k` bytes have been taken. -/
def output (s : σ) (j : Nat) : UInt8 := O.byte (O.perm^[j / 136] (O.perm s)) (j % 136)

variable {O} {s : σ}

theorem nextSample_eq {i : Nat} {c : Ctx σ} (h : Squeezed O 136 s (2 * i) c) :
    ∃ c', nextSample O c = some (HashToPoint.sample (output O s) i, c') ∧
      Squeezed O 136 s (2 * (i + 1)) c' := by
  obtain ⟨hbytes, hnext⟩ := h.squeeze (n := 2) (by decide)
  refine ⟨_, ?_, hnext⟩
  unfold nextSample
  rw [Shake.extract_eq (Shake.Squeezed.pos_le h) (le_refl 2)]
  dsimp only
  rw [hbytes]
  rfl

theorem vartimeFrom_eq {fuel n i : Nat} {c : Ctx σ} (h : Squeezed O 136 s (2 * i) c) :
    vartimeFrom O fuel n c = HashToPoint.vartimeLoop (output O s) fuel i n := by
  induction fuel generalizing n i c with
  | zero => cases n <;> rfl
  | succ fuel ih =>
    cases n with
    | zero => rfl
    | succ n =>
      obtain ⟨c', hsample, hnext⟩ := nextSample_eq h
      unfold vartimeFrom HashToPoint.vartimeLoop
      rw [hsample, Option.bind_some]
      dsimp only
      rw [ih hnext, ih hnext]

theorem ctSamples_eq {m i : Nat} {c : Ctx σ} (h : Squeezed O 136 s (2 * i) c) :
    ctSamples O m c =
      some ((List.range' i m).map fun u =>
        HashToPoint.mark (HashToPoint.sample (output O s) u)) := by
  induction m generalizing i c with
  | zero => rfl
  | succ m ih =>
    obtain ⟨c', hsample, hnext⟩ := nextSample_eq h
    unfold ctSamples
    rw [hsample, Option.bind_some, ih hnext, List.range'_succ]
    rfl

/-- Both variants, on a context, are those on its output. -/
theorem hash_eq (fuel : Nat) (ct : Bool) (logn : Nat) {c : Ctx σ} (h : Squeezed O 136 s 0 c) :
    (if ct then ctFrom O logn c else vartimeFrom O fuel (2 ^ logn) c) =
      Verify.hashToPoint fuel ct logn (output O s) := by
  unfold Verify.hashToPoint
  cases ct with
  | false => exact vartimeFrom_eq h
  | true =>
    show ctFrom O logn c = some _
    unfold ctFrom HashToPoint.hashToPointCt
    dsimp only
    rw [ctSamples_eq (i := 0) h, ← List.range_eq_range', Option.map_some]

/-! ## The calls -/

/-- The pieces do not matter, and neither does the machine. -/
theorem verifyStreamed_stream (hO : O.Lawful) {s₀ : σ} {chunks fuel : Nat} {sig : Bytes}
    {sigType : Int} {pubkey : Bytes} {pieces : List Bytes} {tmpLen : Nat}
    (hpieces : ∀ l ∈ pieces, l.length ≤ chunks) :
    verifyStreamed O s₀ chunks fuel sig sigType pubkey pieces tmpLen =
      Verify.falconVerify (Sponge.stream O 136 0x1F s₀) fuel sig sigType pubkey pieces.flatten
        tmpLen := by
  unfold verifyStreamed falconVerifyStart Verify.falconVerify
  by_cases hlen : sig.length < 41
  · rw [if_pos hlen, if_pos hlen]
  rw [if_neg hlen, if_neg hlen]
  have hnonce : ((sig.drop 1).take 40).length ≤ 40 := List.length_take_le ..
  have hflip := Sponge.perm_flip hO (r := 136) (by decide) 0x1F s₀
    ((sig.drop 1).take 40 ++ pieces.flatten)
  dsimp only
  rw [Shake.inject_eq (show 0 < 136 by decide) hnonce, Option.bind_some,
    Shake.injectAll_eq (Shake.pos_foldl (show 0 < 136 by decide) _) hpieces, Option.bind_some,
    ← List.foldl_append]
  unfold falconVerifyFinish Verify.falconVerifyFinish
  dsimp only
  congr 1
  funext ct logn
  refine (hash_eq fuel ct logn (Sponge.squeezed_zero (r := 136) _)).trans ?_
  show Verify.hashToPoint fuel ct logn (output O (Sponge.flip O 136 0x1F _).state) = _
  unfold output
  rw [hflip]
  rfl

/-- On either machine and however the message is cut, the streamed verification returns what
`falcon_verify` returns on the whole message with SHAKE256. -/
theorem verifyStreamed_eq {chunks fuel : Nat} {sig : Bytes} {sigType : Int} {pubkey : Bytes}
    {pieces : List Bytes} {tmpLen : Nat} (hpieces : ∀ l ∈ pieces, l.length ≤ chunks) :
    verifyStreamed wordOps zeroWords chunks fuel sig sigType pubkey pieces tmpLen =
        Verify.falconVerify Sponge.shake256 fuel sig sigType pubkey pieces.flatten tmpLen ∧
      verifyStreamed byteOps zeroBytes chunks fuel sig sigType pubkey pieces tmpLen =
        Verify.falconVerify Sponge.shake256 fuel sig sigType pubkey pieces.flatten tmpLen := by
  refine ⟨?_, ?_⟩
  · rw [verifyStreamed_stream Shake.wordOps_lawful hpieces, funext Shake.stream_words]
  · rw [verifyStreamed_stream Shake.byteOps_lawful hpieces, funext Shake.stream_bytes]

/-- A nonce of zeros and the encoding of 1024 zeros, each of which is `000000001`. -/
def zeroSig : Bytes :=
  0x3A :: List.replicate 40 0 ++
    (List.replicate 128 [0, 0x80, 0x40, 0x20, 0x10, 0x08, 0x04, 0x02, 0x01]).flatten

theorem verifyStreamed_abc :
    verifyStreamed byteOps zeroBytes 3 2000 zeroSig 0 Deterministic.zeroPubkey.bytes
        [[97], [98, 99]] (Verify.tmpsizeVerify 10) =
      Verify.falconVerify Sponge.shake256 2000 zeroSig 0 Deterministic.zeroPubkey.bytes
        [[97], [98, 99]].flatten (Verify.tmpsizeVerify 10) :=
  (verifyStreamed_eq (by decide)).2

/-! ## The two ways of hashing -/

/-- A machine whose state is always zero. -/
def zeroOps : Ops Unit where
  perm _ := ()
  xorByte _ _ _ := ()
  byte _ _ := 0

/-- On a flipped context, `Zf(hash_to_point_ct)` finds the point of
`Zf(hash_to_point_vartime)` exactly if enough of its samples are below `5 q`. -/
theorem ctFrom_eq_vartimeFrom_iff {logn : Nat} (hlogn : logn ≤ 10) (c : Ctx σ) :
    (∃ fuel p, vartimeFrom O fuel (2 ^ logn) (flip O c) = some p ∧
        ctFrom O logn (flip O c) = some p) ↔
      2 ^ logn ≤ ((HashToPoint.samples (output O (flip O c).state) 0
        (HashToPoint.taken logn)).filter HashToPoint.accepted).length := by
  have hct : ctFrom O logn (flip O c) =
      some (HashToPoint.hashToPointCt logn (output O (flip O c).state)) :=
    hash_eq 0 true logn (Sponge.squeezed_zero (r := 136) _)
  have hvartime : ∀ fuel, vartimeFrom O fuel (2 ^ logn) (flip O c) =
      HashToPoint.hashToPointVartime fuel logn (output O (flip O c).state) :=
    fun fuel => hash_eq fuel false logn (Sponge.squeezed_zero (r := 136) _)
  rw [← HashToPoint.hashToPointCt_eq_iff hlogn, hct]
  constructor
  · intro ⟨fuel, p, hp, heq⟩
    rw [hvartime] at hp
    exact ⟨fuel, by rw [hp, heq]⟩
  · intro ⟨fuel, hp⟩
    exact ⟨fuel, _, (hvartime fuel).trans hp, rfl⟩

theorem ctFrom_eq_vartimeFrom_zero : ∃ fuel p,
    vartimeFrom zeroOps fuel (2 ^ 10) (flip zeroOps ⟨(), 0⟩) = some p ∧
      ctFrom zeroOps 10 (flip zeroOps ⟨(), 0⟩) = some p :=
  (ctFrom_eq_vartimeFrom_iff (le_refl 10) _).mpr (Deterministic.enoughSamples_zero 0 [])

/-! ## Signing and streamed verification -/

/-- What `falcon_sign_dyn_finish` returns for a message, the streamed verification accepts, in
whatever pieces it gets the message and with either `sig_type`. -/
theorem verifyStreamed_of_sign (hO : O.Lawful) {s₀ : σ} {sampler : Sign.Sampler}
    {fuel chunks : Nat} {rng : Bytes} {sigLen : Nat} {sigType : Int} {privkey nonce : Bytes}
    {pieces : List Bytes} {tmpLen : Nat} {sig pubkey : Bytes} {pubkeyLen tmpLen' tmpLen'' : Nat}
    (hsound : Sign.Sound sampler privkey) (hnonce : nonce.length = 40)
    (hpubkey : PrivateKey.makePublic privkey pubkeyLen tmpLen' = .ok pubkey)
    (hpieces : ∀ l ∈ pieces, l.length ≤ chunks)
    (hsign : Sign.falconSignDynFinish (Sponge.stream O 136 0x1F s₀) sampler fuel rng sigLen sigType
      privkey (nonce ++ pieces.flatten) nonce tmpLen = some (.ok sig))
    (henough : sigType = Verify.sigCt → ∀ logn ≤ 10, PrivateKey.privkeyDegree privkey = .ok logn →
      2 ^ logn ≤ ((HashToPoint.samples (Sponge.stream O 136 0x1F s₀ (nonce ++ pieces.flatten)) 0
        (HashToPoint.taken logn)).filter HashToPoint.accepted).length)
    {t : Int} (ht : t = 0 ∨ t = sigType) (htmp : Verify.tmpsizeVerify 10 ≤ tmpLen'') :
    ∃ fuel, verifyStreamed O s₀ chunks fuel sig t pubkey pieces tmpLen'' = some 0 := by
  obtain ⟨fuel', hverify⟩ := Sign.falconSign_verifies hsound hnonce hpubkey hsign henough ht htmp
  refine ⟨fuel', ?_⟩
  rw [verifyStreamed_stream hO hpieces]
  exact hverify

theorem stream_zero : Sponge.stream zeroOps 136 0x1F () = Deterministic.zeroXof := rfl

theorem verifyStreamed_of_sign_zero : ∃ (sig : Bytes) (fuel : Nat),
    verifyStreamed zeroOps () 2 fuel sig 0 Deterministic.zeroPubkey.bytes [[97], [98, 99]]
      (Verify.tmpsizeVerify 10) = some 0 := by
  obtain ⟨value, falconSign, privkey, -, hsigner, hpubkey, hsign⟩ := Deterministic.exists_signer
  obtain ⟨_, hsig⟩ := hsign [97, 98, 99]
  obtain ⟨hrc, -, -⟩ := Falcon.sign_eq_ok_iff.mp hsig
  obtain ⟨fuel, hsigned⟩ :=
    @Deterministic.signCompressed_eq _ _ _ _ value _ (hsigner [97, 98, 99])
  obtain ⟨body, hsalted, -, -⟩ := Deterministic.signCompressed_ok hsigned hrc
  unfold Deterministic.signSalted at hsalted
  rw [← stream_zero] at hsalted
  exact ⟨_, verifyStreamed_of_sign ⟨fun _ _ => rfl, fun _ _ _ _ => rfl⟩
    (Deterministic.sound_zero privkey.bytes) (Deterministic.length_writeSalt _) hpubkey
    (by decide) hsalted (fun h => absurd h (by decide)) (Or.inl rfl) (le_refl _)⟩

end Trelyan.Falcon.Streaming
