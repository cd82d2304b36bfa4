import Trelyan.Seal.Contract

/-!
# Bad builds

What `sign` and `keygen_sign_seal` make of a C signer that reports success with
bad bytes.  A wrong header is an `AssertionError` of `sign` and a
`SealVerificationError` of the caller, and so is a signature that the verifier
refuses.  The message of the `AssertionError` reads the first byte, so that an
empty output escapes from both as an `IndexError` (`badBuild_iff`).
-/

namespace Trelyan.Seal

open Contract (FixedBytes)
open Py Faults Falcon

/-! ## The signer -/

/-- A signature with the header, or an `AssertionError` that names the header. -/
def SignReports (r : Except Error Bytes) : Prop :=
  (∃ sig, r = .ok sig ∧ sig.head? = some sigCompressedHeader) ∨ ∃ b, r = .error (headerError b)

theorem signReports_iff {o : SignOutput} (hrc : o.rc = 0) :
    SignReports (signatureOf o) ↔ o.out ≠ [] := by
  rcases signatureOf_cases o with ⟨sig, hsig, hheader, -, hout⟩ | ⟨b, hb, -, hhead, -⟩ |
    ⟨text, ht, -, hout⟩ | ⟨text, -, hne⟩
  · refine iff_of_true (Or.inl ⟨sig, hsig, hheader⟩) ?_
    rw [hout]
    rintro rfl
    cases hheader
  · refine iff_of_true (Or.inr ⟨b, hb⟩) ?_
    intro hnil
    rw [hnil] at hhead
    cases hhead
  · refine iff_of_false ?_ (not_not.mpr hout)
    rw [ht]
    rintro (⟨sig, h, -⟩ | ⟨b, h⟩)
    · cases h
    · cases h
  · exact absurd hrc hne

/-! ## The call in the process -/

section Calls

variable {σ : Type} {limits : Limits} {store : SealStore σ} {Records : Value → σ → Prop}
  {loading : Loading} {args : Arguments} {s : σ} {e : Error}

/-- `keygen_sign_seal` returns a verified result, or it raises `SealVerificationError`.  When it
raises, the cell is not recorded. -/
def Surfaces (limits : Limits) (store : SealStore σ) (signer : Signer) (args : Arguments) (s : σ) :
    Prop :=
  let run := (SealCall.inProcess signer args).run limits store ⟨[], s⟩
  ResultOrRefusal signer args run.1 ∧
    ∀ e, run.1 = .raised e → (store.isSealed args.cellId run.2).1 = .returned false

/-- An exception before the recording surfaces when it is the right one. -/
theorem surfaces_of_raised
    (hsealed : store.isSealed args.cellId ⟨[], s⟩ = (.returned false, ⟨[], s⟩))
    (h : (SealCall.inProcess loading.signer args).verified limits store ⟨[], s⟩ =
      (.raised e, ⟨[], s⟩)) :
    Surfaces limits store loading.signer args s ↔ IsVerificationError e := by
  unfold Surfaces
  rw [SealCall.run_eq, Proc.bind_raised h]
  refine and_iff_left ?_
  intro e' _
  rw [hsealed]

/-- A verified pair surfaces when its cell can be recorded. -/
theorem surfaces_of_verified (hstore : Answering store Records) {out : Bytes × Bytes} {n : Int}
    (hn : intOf limits args.cellId = .ok n)
    (hverified : Verified loading.signer args out.1 out.2)
    (h : (SealCall.inProcess loading.signer args).verified limits store ⟨[], s⟩ =
      (.returned out, ⟨[], s⟩)) :
    Surfaces limits store loading.signer args s ↔ Records args.cellId s := by
  unfold Surfaces
  rw [SealCall.run_eq, Proc.bind_returned h]
  show (ResultOrRefusal _ _ (recordAndReturn limits store args.cellId out ⟨[], s⟩).1 ∧
    ∀ e, (recordAndReturn limits store args.cellId out ⟨[], s⟩).1 = .raised e → _) ↔ _
  unfold recordAndReturn
  by_cases hrecords : Records args.cellId s
  · obtain ⟨s', hrecord⟩ := hstore.returns args.cellId s hrecords
    rw [Proc.bind_returned hrecord, Proc.bind_returned (Proc.call_ok hn s')]
    exact iff_of_true ⟨hverified, nofun⟩ hrecords
  · obtain ⟨e, hrecord, he⟩ := hstore.raises args.cellId s hrecords
    rw [Proc.bind_raised hrecord]
    exact iff_of_false (fun h => he h.1) hrecords

/-- When a bad build surfaces as it should. -/
structure BadBuildIff (limits : Limits) (store : SealStore σ) (Records : Value → σ → Prop) :
    Prop where
  sign : ∀ (lib : Library) (key : Privkey) (msg : Bytes), (lib.signCompressed key msg).rc = 0 →
    (SignReports ((Loading.loaded lib).signer.sign key.bytes msg) ↔
      (lib.signCompressed key msg).out ≠ [])
  keygenSignSeal : ∀ (loading : Loading) (args : Arguments) (lib : Library) (keys : KeygenOutput)
    (msg : Bytes) (s : σ), (store.isSealed args.cellId ⟨[], s⟩).1 = .returned false →
    args.message = .ok msg → loading.keyPair = some (lib, keys) →
    (lib.signCompressed keys.privkey msg).rc = 0 →
    (Surfaces limits store loading.signer args s ↔
      (lib.signCompressed keys.privkey msg).out ≠ [] ∧
        ((lib.signCompressed keys.privkey msg).out.head? = some sigCompressedHeader →
          lib.verifyCompressed (lib.signCompressed keys.privkey msg).out keys.pubkey msg = 0 →
            Records args.cellId s))

/-- A signature with the header goes to the verifier, and what that accepts to the record. -/
theorem surfaces_iff_of_signed {lib : Library} {keys : KeygenOutput} {msg sig : Bytes}
    (hstore : Answering store Records)
    (hsealed : store.isSealed args.cellId ⟨[], s⟩ = (.returned false, ⟨[], s⟩))
    (hmessage : args.message = .ok msg) (hkeys : loading.keyPair = some (lib, keys))
    (hsign : signatureOf (lib.signCompressed keys.privkey msg) = .ok sig)
    (hheader : sig.head? = some sigCompressedHeader) :
    Surfaces limits store loading.signer args s ↔
      (lib.verifyCompressed sig keys.pubkey msg = 0 → Records args.cellId s) := by
  have hverify : loading.signer.verify sig keys.pubkey.bytes msg =
      .ok (decide (lib.verifyCompressed sig keys.pubkey msg = 0)) := by
    rw [(Loading.keygen_returned hkeys KeyMemory.fresh).1]
    exact loaded_verify
  have hbody := fun m hkey => @signAndVerify_signed _ _ _ _ _ m _ hmessage
    ((sign_of_keys hkeys hkey msg).trans hsign) hheader hverify
  by_cases hzero : lib.verifyCompressed sig keys.pubkey msg = 0
  · rw [decide_eq_true hzero] at hbody hverify
    obtain ⟨request, ⟨-, hcell, -⟩, -⟩ := @carries_of_message limits _ false _ hmessage
    rw [surfaces_of_verified hstore hcell ⟨hheader, msg, hmessage, hverify⟩
      (inProcess_returned hsealed hkeys hbody)]
    constructor
    · intro h _
      exact h
    · intro h
      exact h hzero
  · rw [decide_eq_false hzero] at hbody
    rw [surfaces_of_raised hsealed (inProcess_raised hsealed hkeys hbody)]
    exact iff_of_true rfl fun h => absurd h hzero

theorem surfaces_iff {lib : Library} {keys : KeygenOutput} {msg : Bytes}
    (hstore : Answering store Records)
    (hsealed : store.isSealed args.cellId ⟨[], s⟩ = (.returned false, ⟨[], s⟩))
    (hmessage : args.message = .ok msg) (hkeys : loading.keyPair = some (lib, keys))
    (hrc : (lib.signCompressed keys.privkey msg).rc = 0) :
    Surfaces limits store loading.signer args s ↔
      (lib.signCompressed keys.privkey msg).out ≠ [] ∧
        ((lib.signCompressed keys.privkey msg).out.head? = some sigCompressedHeader →
          lib.verifyCompressed (lib.signCompressed keys.privkey msg).out keys.pubkey msg = 0 →
            Records args.cellId s) := by
  have hraised : ∀ e, signatureOf (lib.signCompressed keys.privkey msg) = .error e →
      (Surfaces limits store loading.signer args s ↔ IsVerificationError (badBuild e)) := by
    intro e hsign
    exact surfaces_of_raised hsealed (inProcess_raised hsealed hkeys fun m hkey =>
      signAndVerify_unsigned hmessage ((sign_of_keys hkeys hkey msg).trans hsign))
  rcases signatureOf_cases (lib.signCompressed keys.privkey msg) with
    ⟨sig, hsign, hheader, -, rfl⟩ | ⟨b, hsign, -, hhead, hb⟩ | ⟨text, hsign, -, hout⟩ |
    ⟨text, -, hne⟩
  · rw [surfaces_iff_of_signed hstore hsealed hmessage hkeys hsign hheader]
    have hnil : (lib.signCompressed keys.privkey msg).out ≠ [] := by
      intro hnil
      rw [hnil] at hheader
      cases hheader
    constructor
    · intro h
      exact ⟨hnil, fun _ => h⟩
    · intro h
      exact h.2 hheader
  · rw [hraised _ hsign]
    refine iff_of_true rfl ⟨?_, ?_⟩
    · intro hnil
      rw [hnil] at hhead
      cases hhead
    · intro hheader
      rw [hhead] at hheader
      exact absurd (Option.some.inj hheader) hb
  · rw [hraised _ hsign]
    refine iff_of_false ?_ fun h => h.1 hout
    show ¬ "IndexError" = _
    decide
  · exact absurd hrc hne

theorem badBuildIff_of_answering (hstore : Answering store Records) :
    BadBuildIff limits store Records where
  sign lib key msg hrc := by
    rw [loaded_sign]
    exact signReports_iff hrc
  keygenSignSeal loading args lib keys msg s hsealed hmessage hkeys hrc := by
    obtain ⟨r, hrun⟩ := hstore.isSealed args.cellId s
    rw [hrun] at hsealed
    subst hsealed
    exact surfaces_iff hstore hrun hmessage hkeys hrc

/-- For which outputs of the C signer a bad build surfaces, over either store. -/
theorem badBuild_iff (limits : Limits) (path : String) :
    BadBuildIff limits (inMemorySealStore limits) (InMemoryRecords limits) ∧
      BadBuildIff limits (jsonFileSealStore limits path) (Recordable limits path) :=
  ⟨badBuildIff_of_answering (inMemory_answering limits),
    badBuildIff_of_answering (jsonFile_answering limits path)⟩

end Calls

/-! ## An empty output -/

/-- A library that reports success and no bytes. -/
def emptyLibrary : Library :=
  { headerLibrary with signCompressed := fun _ _ => ⟨0, 0, zeroed sigCompressedMaxsize⟩ }

/-- An empty output is an `IndexError` of both. -/
theorem empty_output_escapes :
    ¬ SignReports ((Loading.loaded emptyLibrary).signer.sign (zeroed privkeySize).bytes []) ∧
      ¬ Surfaces Limits.default (inMemorySealStore Limits.default)
        (Loading.loaded emptyLibrary).signer (cellFive 7) ∅ := by
  have hiff : BadBuildIff Limits.default (inMemorySealStore Limits.default)
      (InMemoryRecords Limits.default) :=
    badBuildIff_of_answering (inMemory_answering Limits.default)
  constructor
  · rw [hiff.sign emptyLibrary (zeroed privkeySize) [] rfl]
    exact fun h => h rfl
  · obtain ⟨msg, hmessage⟩ : ∃ msg, (cellFive 7).message = .ok msg := ⟨_, rfl⟩
    have hkeys : (Loading.loaded emptyLibrary).keyPair =
        some (emptyLibrary, emptyLibrary.keygen (zeroed rngSize)) := by
      unfold Loading.keyPair
      exact if_pos ⟨rfl, rfl⟩
    rw [hiff.keygenSignSeal _ _ _ _ msg _ rfl hmessage hkeys rfl]
    exact fun h => h.1 rfl

end Trelyan.Seal
