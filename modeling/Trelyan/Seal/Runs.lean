import Trelyan.Seal.Once
import Trelyan.Seal.Worker

/-!
# Runs without faults

What the call in the process and the worker do over a given C library, when
nothing comes from outside.  The worker answers with a good signature, or its
answer is a failure (`workerProcess_run`), and the request that it reads
carries the arguments of the caller (`parseRequest_of_request`).
-/

namespace Trelyan.Seal

open Py Faults Falcon

/-! ## In the process -/

section Body

variable {signer : Signer} {args : Arguments} {pubkey sig msg : Bytes} {m : KeyMemory} {e : Error}

theorem signAndVerify_malformed (h : args.message = .error e) :
    signAndVerify signer args pubkey ⟨[], m⟩ = (.raised e, ⟨[], m⟩) := by
  unfold signAndVerify
  rw [Proc.bind_raised (Proc.call_error h m)]

theorem signAndVerify_unsigned (h : args.message = .ok msg)
    (hsign : signer.sign m.key.bytes msg = .error e) :
    signAndVerify signer args pubkey ⟨[], m⟩ = (.raised (badBuild e), ⟨[], m⟩) := by
  have htry : Proc.tryExcept (Proc.call (signer.sign m.key.bytes msg))
      (fun e => Proc.raise (badBuild e)) ⟨[], m⟩ = (.raised (badBuild e), ⟨[], m⟩) := by
    rw [Proc.tryExcept_raised (Proc.call_error hsign m)]
    rfl
  unfold signAndVerify
  rw [Proc.bind_returned (Proc.call_ok h m), Proc.bind_returned (Proc.get_run m),
    Proc.bind_raised htry]

/-- With a signature that has the header, the verifier decides. -/
theorem signAndVerify_signed {b : Bool} (h : args.message = .ok msg)
    (hsign : signer.sign m.key.bytes msg = .ok sig)
    (hheader : sig.head? = some sigCompressedHeader)
    (hverify : signer.verify sig pubkey msg = .ok b) :
    signAndVerify signer args pubkey ⟨[], m⟩ =
      (if b = true then .returned sig else .raised selfVerificationFailed, ⟨[], m⟩) := by
  have htry : Proc.tryExcept (Proc.call (signer.sign m.key.bytes msg))
      (fun e => Proc.raise (badBuild e)) ⟨[], m⟩ = (.returned sig, ⟨[], m⟩) := by
    have hcall := Proc.call_ok hsign m
    exact Proc.tryExcept_returned hcall _
  have hcheck : ∀ describe, checkHeader describe sig = .ok () := fun _ =>
    require_eq_ok.mpr hheader
  have hinscription : args.verifyInscription signer sig pubkey = .ok b :=
    bind_eq_ok.mpr ⟨msg, h, hverify⟩
  unfold signAndVerify
  rw [Proc.bind_returned (Proc.call_ok h m), Proc.bind_returned (Proc.get_run m),
    Proc.bind_returned htry, Proc.bind_returned (Proc.call_ok (hcheck _) m),
    Proc.bind_returned (Proc.call_ok hinscription m)]
  cases b with
  | true => rfl
  | false => rfl

end Body

section Library

variable {lib : Library} {key : Privkey} {pubkey : Pubkey} {sig msg : Bytes}

theorem loaded_sign : (Loading.loaded lib).signer.sign key.bytes msg =
    signatureOf (lib.signCompressed key msg) := by
  show (Loading.loaded lib).sign key.bytes msg = _
  unfold Loading.sign
  rw [dif_pos key.length_eq]
  rfl

theorem loaded_verify : (Loading.loaded lib).signer.verify sig pubkey.bytes msg =
    .ok (decide (lib.verifyCompressed sig pubkey msg = 0)) := by
  show (Loading.loaded lib).verify sig pubkey.bytes msg = _
  unfold Loading.verify
  rw [dif_pos pubkey.length_eq]
  rfl

end Library

section InProcess

theorem wipeAndUnlock_run (m : KeyMemory) :
    wipeAndUnlock ⟨[], m⟩ = (.returned (), ⟨[], m.wipeKey.unlockPages⟩) := rfl

variable {σ : Type} {limits : Limits} {store : SealStore σ} {loading : Loading} {args : Arguments}
  {s s' : σ} {lib : Library} {keys : KeygenOutput} {e : Error} {sig : Bytes}

/-- Without keys. -/
theorem inProcess_keygen
    (hsealed : store.isSealed args.cellId ⟨[], s⟩ = (.returned false, ⟨[], s'⟩))
    (hkeys : loading.keyPair = none) :
    ∃ e, (SealCall.inProcess loading.signer args).verified limits store ⟨[], s⟩ =
      (.raised e, ⟨[], s'⟩) ∧ e.className ∈ ["RuntimeError", "AttributeError"] := by
  obtain ⟨e, m', hrun, hclass⟩ := Loading.keygen_raised hkeys KeyMemory.fresh
  refine ⟨e, ?_, hclass⟩
  have hcall : keygenSignVerify limits store loading.signer args ⟨[], (s, KeyMemory.fresh)⟩ =
      (.raised e, ⟨[], (s', m')⟩) := by
    unfold keygenSignVerify
    rw [Proc.bind_returned (Proc.onFst_run hsealed), if_neg (by decide)]
    exact Proc.bind_raised (Proc.onSnd_run hrun) _
  exact Proc.withLocal_run hcall

/-- With keys the call ends as the body of the `try` does. -/
theorem inProcess_raised
    (hsealed : store.isSealed args.cellId ⟨[], s⟩ = (.returned false, ⟨[], s'⟩))
    (hkeys : loading.keyPair = some (lib, keys))
    (hbody : ∀ m, m.key = keys.privkey →
      signAndVerify loading.signer args keys.pubkey.bytes ⟨[], m⟩ = (.raised e, ⟨[], m⟩)) :
    (SealCall.inProcess loading.signer args).verified limits store ⟨[], s⟩ =
      (.raised e, ⟨[], s'⟩) := by
  obtain ⟨-, m', hrun, hkey⟩ := Loading.keygen_returned hkeys KeyMemory.fresh
  have hrun : loading.signer.keygenIntoBuffer ⟨[], KeyMemory.fresh⟩ =
      (.returned keys.pubkey.bytes, ⟨[], m'⟩) := hrun
  have hcall : keygenSignVerify limits store loading.signer args ⟨[], (s, KeyMemory.fresh)⟩ =
      (.raised e, ⟨[], (s', m'.wipeKey.unlockPages)⟩) := by
    unfold keygenSignVerify
    rw [Proc.bind_returned (Proc.onFst_run hsealed), if_neg (by decide),
      Proc.bind_returned (Proc.onSnd_run hrun)]
    exact Proc.bind_raised
      (Proc.onSnd_run (Proc.tryFinally_raised (hbody m' hkey) (wipeAndUnlock_run m'))) _
  exact Proc.withLocal_run hcall

theorem inProcess_returned
    (hsealed : store.isSealed args.cellId ⟨[], s⟩ = (.returned false, ⟨[], s'⟩))
    (hkeys : loading.keyPair = some (lib, keys))
    (hbody : ∀ m, m.key = keys.privkey →
      signAndVerify loading.signer args keys.pubkey.bytes ⟨[], m⟩ = (.returned sig, ⟨[], m⟩)) :
    (SealCall.inProcess loading.signer args).verified limits store ⟨[], s⟩ =
      (.returned (keys.pubkey.bytes, sig), ⟨[], s'⟩) := by
  obtain ⟨-, m', hrun, hkey⟩ := Loading.keygen_returned hkeys KeyMemory.fresh
  have hrun : loading.signer.keygenIntoBuffer ⟨[], KeyMemory.fresh⟩ =
      (.returned keys.pubkey.bytes, ⟨[], m'⟩) := hrun
  have hcall : keygenSignVerify limits store loading.signer args ⟨[], (s, KeyMemory.fresh)⟩ =
      (.returned (keys.pubkey.bytes, sig), ⟨[], (s', m'.wipeKey.unlockPages)⟩) := by
    unfold keygenSignVerify
    rw [Proc.bind_returned (Proc.onFst_run hsealed), if_neg (by decide),
      Proc.bind_returned (Proc.onSnd_run hrun),
      Proc.bind_returned
        (Proc.onSnd_run (Proc.tryFinally_returned (hbody m' hkey) (wipeAndUnlock_run m')))]
    rfl
  exact Proc.withLocal_run hcall

end InProcess

/-! ## The answer of the worker -/

section Answers

variable {limits : Limits} {answer : Completed}

/-- What is dumped is decoded. -/
theorem decodeOutput_dumps {doc : Doc} (hfits : doc.fits limits = true)
    (hdepth : doc.depth ≤ limits.maxDepth) :
    decodeOutput limits (Json.encodeUtf8 doc.print) = .ok doc.toJson := by
  have hloads : Json.loads limits doc.print = .ok doc.toJson := by
    refine Doc.loads_dumps ?_ hdepth
    unfold Doc.dumps
    rw [if_pos hfits]
  have hne : doc.print ≠ [] := by
    intro hnil
    obtain ⟨msg, herror⟩ := Json.loads_nil limits
    rw [hnil, herror] at hloads
    cases hloads
  have hparse : parseOutput limits (Json.encodeUtf8 doc.print) = .ok doc.toJson := by
    unfold parseOutput
    rw [Json.decodeUtf8_encodeUtf8]
    show Json.loads limits (if doc.print = [] then _ else doc.print) = _
    rw [if_neg hne, hloads]
  unfold decodeOutput
  rw [hparse]

/-- No output is an empty object. -/
theorem decodeOutput_nil : decodeOutput limits [] = .ok (.dict []) := by
  have hloads : Json.loads limits ['{', '}'] = .ok (.dict []) := by
    have hdepth := limits.two_le_maxDepth
    refine Doc.loads_dumps (d := .dict []) rfl ?_
    show 1 ≤ limits.maxDepth
    omega
  have hparse : parseOutput limits [] = .ok (.dict []) := by
    unfold parseOutput
    rw [show Json.decodeUtf8 [] = .ok [] from Json.decodeUtf8_encodeUtf8 []]
    exact hloads
  unfold decodeOutput
  rw [hparse]

/-- The worker says that it failed. -/
def IsFailure (limits : Limits) (answer : Completed) : Prop :=
  answer.returncode ≠ 0 ∧ ∃ entries, decodeOutput limits answer.stdout = .ok (.dict entries)

theorem readAnswer_failure (h : IsFailure limits answer) :
    ∃ text, readAnswer limits answer = .error (sealVerificationError text) := by
  obtain ⟨hrc, entries, hdecode⟩ := h
  refine ⟨"isolated signer failed (rc=" ++ toString answer.returncode ++ ")", ?_⟩
  unfold readAnswer
  rw [hdecode]
  show (workerFailed answer.returncode (.dict entries) >>= _) = _
  unfold workerFailed
  rw [if_pos hrc]
  rfl

theorem failureDoc_isFailure {returncode : Int} (hrc : returncode ≠ 0) (error : String) :
    IsFailure limits ⟨returncode, Json.encodeUtf8 (failureDoc error).print⟩ := by
  refine ⟨hrc, _, decodeOutput_dumps rfl ?_⟩
  have hdepth := limits.two_le_maxDepth
  show 1 ≤ limits.maxDepth
  omega

/-- A process that dies of an exception. -/
theorem traceback_isFailure : IsFailure limits ⟨1, []⟩ :=
  ⟨by decide, [], decodeOutput_nil⟩

/-- The outputs come back. -/
theorem readAnswer_success (pubkey sig : Bytes) (protections : Protections) :
    readAnswer limits ⟨0, Json.encodeUtf8 (successDoc pubkey sig protections).print⟩ =
      .ok (pubkey, sig) := by
  have hdecode : decodeOutput limits
      (Json.encodeUtf8 (successDoc pubkey sig protections).print) =
      .ok (successDoc pubkey sig protections).toJson :=
    decodeOutput_dumps rfl limits.two_le_maxDepth
  have hpubkey : fromHex (.str (Text.ofString (Hex.ofBytes pubkey))) = .ok pubkey :=
    Hex.toBytes_ofBytes pubkey
  have hsig : fromHex (.str (Text.ofString (Hex.ofBytes sig))) = .ok sig :=
    Hex.toBytes_ofBytes sig
  unfold readAnswer
  rw [hdecode]
  show ((fromHex (.str (Text.ofString (Hex.ofBytes pubkey)))) >>= _) = _
  rw [hpubkey]
  show ((fromHex (.str (Text.ofString (Hex.ofBytes sig)))) >>= _) = _
  rw [hsig]
  rfl

theorem respond_run {doc : Doc} (hfits : doc.fits limits = true) (returncode : Int)
    (m : KeyMemory) :
    respond limits returncode doc ⟨[], m⟩ =
      (.returned ⟨returncode, Json.encodeUtf8 doc.print⟩, ⟨[], m⟩) := by
  have hdumps : Doc.dumps limits doc = .ok doc.print := by
    unfold Doc.dumps
    rw [if_pos hfits]
  unfold respond
  rw [Proc.bind_returned (Proc.call_ok hdumps m)]
  rfl

end Answers

/-! ## The worker -/

section Worker

variable {limits : Limits} {loading : Loading} {args : Arguments} {lib : Library}
  {keys : KeygenOutput} {sig msg : Bytes} {m : KeyMemory} {e : Error}

/-- With these keys the library signs the message of the arguments, and accepts its
signature. -/
def GoodSignature (lib : Library) (keys : KeygenOutput) (args : Arguments) (sig : Bytes) : Prop :=
  ∃ msg, args.message = .ok msg ∧ signatureOf (lib.signCompressed keys.privkey msg) = .ok sig ∧
    lib.verifyCompressed sig keys.pubkey msg = 0

/-- The library makes keys, and a good signature with them. -/
def Genuine (loading : Loading) (args : Arguments) (pubkey sig : Bytes) : Prop :=
  ∃ lib keys, loading.keyPair = some (lib, keys) ∧ pubkey = keys.pubkey.bytes ∧
    GoodSignature lib keys args sig

/-- What `sign` returns has the header. -/
theorem header_of_signatureOf {o : SignOutput} (h : signatureOf o = .ok sig) :
    sig.head? = some sigCompressedHeader := by
  rcases signatureOf_cases o with ⟨sig', hsig', hheader, -⟩ | ⟨b, hb, -⟩ | ⟨text, ht, -⟩ |
    ⟨text, ht, -⟩
  · rw [h] at hsig'
    cases hsig'
    exact hheader
  · rw [h] at hb
    cases hb
  · rw [h] at ht
    cases ht
  · rw [h] at ht
    cases ht

/-- A run of a part of the worker that ends in a failure of the process. -/
def Spoils (limits : Limits) {α : Type} : Ending Error (Completed ⊕ α) → Prop
  | .returned (.inl answer) => IsFailure limits answer
  | .returned (.inr _) => False
  | .raised _ => True
  | .killed => False

theorem workerKeygen_of_returned {signer : Signer} {pubkey : Bytes} {m m' : KeyMemory}
    (hrun : signer.keygenIntoBuffer ⟨[], m⟩ = (.returned pubkey, ⟨[], m'⟩)) :
    workerKeygen limits signer ⟨[], m⟩ = (.returned (.inr pubkey), ⟨[], m'⟩) := by
  have hbody : (do
      let pubkey ← signer.keygenIntoBuffer
      pure (.inr pubkey) : Proc Error KeyMemory (Completed ⊕ Bytes)) ⟨[], m⟩ =
      (.returned (.inr pubkey), ⟨[], m'⟩) := by
    rw [Proc.bind_returned hrun]
    rfl
  unfold workerKeygen
  exact Proc.tryExcept_returned hbody _

theorem workerKeygen_returned (hkeys : loading.keyPair = some (lib, keys)) (m : KeyMemory) :
    ∃ m', workerKeygen limits loading.signer ⟨[], m⟩ =
      (.returned (.inr keys.pubkey.bytes), ⟨[], m'⟩) ∧ m'.key = keys.privkey := by
  obtain ⟨-, m', hrun, hkey⟩ := Loading.keygen_returned hkeys m
  have hrun : loading.signer.keygenIntoBuffer ⟨[], m⟩ =
      (.returned keys.pubkey.bytes, ⟨[], m'⟩) := hrun
  exact ⟨m', workerKeygen_of_returned hrun, hkey⟩

theorem workerKeygen_spoils (hkeys : loading.keyPair = none) (m : KeyMemory) :
    ∃ answer m', workerKeygen limits loading.signer ⟨[], m⟩ =
      (.returned (.inl answer), ⟨[], m'⟩) ∧ IsFailure limits answer := by
  obtain ⟨e, m', hrun, hclass⟩ := Loading.keygen_raised hkeys m
  have hrun : loading.signer.keygenIntoBuffer ⟨[], m⟩ = (.raised e, ⟨[], m'⟩) := hrun
  have hbody : (do
      let pubkey ← loading.signer.keygenIntoBuffer
      pure (.inr pubkey) : Proc Error KeyMemory (Completed ⊕ Bytes)) ⟨[], m⟩ =
      (.raised e, ⟨[], m'⟩) := Proc.bind_raised hrun _
  have hexception : e.isException = true := by
    simp only [List.mem_cons, List.not_mem_nil, or_false] at hclass
    unfold Error.isException
    rcases hclass with h | h <;> rw [h] <;> rfl
  refine ⟨_, m', ?_, failureDoc_isFailure (show (3 : Int) ≠ 0 by decide)
    ("keygen failed: " ++ reprError e)⟩
  unfold workerKeygen
  rw [Proc.tryExcept_raised hbody, if_pos hexception, Proc.bind_returned (respond_run rfl 3 m')]
  rfl

theorem workerSign_returned {signer : Signer} {key : Bytes} (h : signer.sign key msg = .ok sig) :
    workerSign limits signer key msg ⟨[], m⟩ = (.returned (.inr sig), ⟨[], m⟩) := by
  have hbody : (do
      let sig ← Proc.call (signer.sign key msg)
      pure (.inr sig) : Proc Error KeyMemory (Completed ⊕ Bytes)) ⟨[], m⟩ =
      (.returned (.inr sig), ⟨[], m⟩) := by
    rw [Proc.bind_returned (Proc.call_ok h m)]
    rfl
  unfold workerSign
  exact Proc.tryExcept_returned hbody _

theorem workerSign_spoils {signer : Signer} {key : Bytes} (h : signer.sign key msg = .error e) :
    ∃ ending, workerSign limits signer key msg ⟨[], m⟩ = (ending, ⟨[], m⟩) ∧
      Spoils limits ending := by
  have hbody : (do
      let sig ← Proc.call (signer.sign key msg)
      pure (.inr sig) : Proc Error KeyMemory (Completed ⊕ Bytes)) ⟨[], m⟩ =
      (.raised e, ⟨[], m⟩) := Proc.bind_raised (Proc.call_error h m) _
  unfold workerSign
  rw [Proc.tryExcept_raised hbody]
  split
  · refine ⟨_, Proc.bind_returned (respond_run rfl 4 m) _, ?_⟩
    exact failureDoc_isFailure (by decide) ("bad signature header: " ++ e.message)
  · exact ⟨_, rfl, trivial⟩

theorem workerSignAndVerify_unsigned {signer : Signer} {pubkey : Bytes}
    (hm : args.message = .ok msg) (hsign : signer.sign m.key.bytes msg = .error e) :
    ∃ ending, workerSignAndVerify limits signer args pubkey ⟨[], m⟩ = (ending, ⟨[], m⟩) ∧
      Spoils limits ending := by
  unfold workerSignAndVerify
  rw [Proc.bind_returned (Proc.call_ok hm m), Proc.bind_returned (Proc.get_run m)]
  obtain ⟨ending, hrun, hspoils⟩ := workerSign_spoils (m := m) hsign
  cases ending with
  | returned a =>
    cases a with
    | inl answer => exact ⟨_, Proc.bind_returned hrun _, hspoils⟩
    | inr sig => exact hspoils.elim
  | raised e => exact ⟨_, Proc.bind_raised hrun _, trivial⟩
  | killed => exact hspoils.elim

/-- With a signature that has the header, the verifier decides. -/
theorem workerSignAndVerify_signed {signer : Signer} {pubkey : Bytes} {b : Bool}
    (hm : args.message = .ok msg) (hsign : signer.sign m.key.bytes msg = .ok sig)
    (hheader : sig.head? = some sigCompressedHeader)
    (hverify : signer.verify sig pubkey msg = .ok b) :
    workerSignAndVerify limits signer args pubkey ⟨[], m⟩ =
      (if b = true then .returned (.inr sig) else .returned (.inl ⟨5, Json.encodeUtf8
        (failureDoc "self-verify failed (do not broadcast)").print⟩), ⟨[], m⟩) := by
  have hfails : selfVerifyFails signer args pubkey sig = .ok (!b) := by
    have hinscription : args.verifyInscription signer sig pubkey = .ok b :=
      bind_eq_ok.mpr ⟨msg, hm, hverify⟩
    unfold selfVerifyFails
    rw [if_pos hheader, hinscription]
    rfl
  unfold workerSignAndVerify
  rw [Proc.bind_returned (Proc.call_ok hm m), Proc.bind_returned (Proc.get_run m),
    Proc.bind_returned (workerSign_returned hsign)]
  show ((Proc.call (selfVerifyFails signer args pubkey sig) >>= _) ⟨[], m⟩) = _
  rw [Proc.bind_returned (Proc.call_ok hfails m)]
  cases b with
  | true => rfl
  | false => exact Proc.bind_returned (respond_run rfl 5 m) _

theorem not_good_of_malformed (hm : args.message = .error e) :
    ¬ ∃ sig, GoodSignature lib keys args sig := by
  rintro ⟨sig, msg, hmsg, -⟩
  rw [hm] at hmsg
  cases hmsg

theorem not_good_of_unsigned (hm : args.message = .ok msg)
    (hsign : signatureOf (lib.signCompressed keys.privkey msg) = .error e) :
    ¬ ∃ sig, GoodSignature lib keys args sig := by
  rintro ⟨sig, msg', hmsg', hsig, -⟩
  rw [hm] at hmsg'
  cases hmsg'
  rw [hsign] at hsig
  cases hsig

theorem not_good_of_rejected (hm : args.message = .ok msg)
    (hsign : signatureOf (lib.signCompressed keys.privkey msg) = .ok sig)
    (hverify : lib.verifyCompressed sig keys.pubkey msg ≠ 0) :
    ¬ ∃ sig, GoodSignature lib keys args sig := by
  rintro ⟨sig', msg', hmsg', hsig', hzero⟩
  rw [hm] at hmsg'
  cases hmsg'
  rw [hsign] at hsig'
  cases hsig'
  exact hverify hzero

/-- The body of the `try` gives a good signature, or it spoils the answer. -/
theorem workerSignAndVerify_run (hkey : m.key = keys.privkey) :
    (∃ sig, GoodSignature lib keys args sig ∧
      workerSignAndVerify limits (Loading.loaded lib).signer args keys.pubkey.bytes ⟨[], m⟩ =
        (.returned (.inr sig), ⟨[], m⟩)) ∨
    (¬ ∃ sig, GoodSignature lib keys args sig) ∧ ∃ ending,
      workerSignAndVerify limits (Loading.loaded lib).signer args keys.pubkey.bytes ⟨[], m⟩ =
        (ending, ⟨[], m⟩) ∧ Spoils limits ending := by
  have hlib : ∀ msg, (Loading.loaded lib).signer.sign m.key.bytes msg =
      signatureOf (lib.signCompressed keys.privkey msg) := by
    intro msg
    rw [hkey]
    exact loaded_sign
  cases hm : args.message with
  | error e =>
    exact Or.inr ⟨not_good_of_malformed hm, _, Proc.bind_raised (Proc.call_error hm m) _, trivial⟩
  | ok msg =>
    cases hsign : signatureOf (lib.signCompressed keys.privkey msg) with
    | error e =>
      exact Or.inr ⟨not_good_of_unsigned hm hsign,
        workerSignAndVerify_unsigned hm ((hlib msg).trans hsign)⟩
    | ok sig =>
      have hverify : (Loading.loaded lib).signer.verify sig keys.pubkey.bytes msg =
          .ok (decide (lib.verifyCompressed sig keys.pubkey msg = 0)) := loaded_verify
      have hrun := @workerSignAndVerify_signed limits _ _ _ _ _ _ _ hm ((hlib msg).trans hsign)
        (header_of_signatureOf hsign) hverify
      by_cases hzero : lib.verifyCompressed sig keys.pubkey msg = 0
      · rw [if_pos (decide_eq_true hzero)] at hrun
        exact Or.inl ⟨sig, ⟨msg, hm, hsign, hzero⟩, hrun⟩
      · rw [if_neg (by rw [decide_eq_false hzero]; decide)] at hrun
        exact Or.inr ⟨not_good_of_rejected hm hsign hzero, _, hrun,
          failureDoc_isFailure (by decide) _⟩

/-- From the key generation on, the worker answers with a good signature, or it
fails. -/
theorem workerSeal_run (protections : Protections) :
    (∃ pubkey sig, Genuine loading args pubkey sig ∧ ∃ m',
      workerSeal limits protections loading.signer args ⟨[], m⟩ =
        (.returned ⟨0, Json.encodeUtf8 (successDoc pubkey sig protections).print⟩, ⟨[], m'⟩)) ∨
    (¬ ∃ pubkey sig, Genuine loading args pubkey sig) ∧ ∃ ending m',
      workerSeal limits protections loading.signer args ⟨[], m⟩ = (ending, ⟨[], m'⟩) ∧
        ((∃ answer, ending = .returned answer ∧ IsFailure limits answer) ∨
          ∃ e, ending = .raised e) := by
  unfold workerSeal
  cases hkeys : loading.keyPair with
  | none =>
    obtain ⟨answer, m', hrun, hfailure⟩ := @workerKeygen_spoils limits _ hkeys m
    refine Or.inr ⟨?_, _, _, Proc.bind_returned hrun _, Or.inl ⟨answer, rfl, hfailure⟩⟩
    rintro ⟨pubkey, sig, lib, keys, hsome, -⟩
    rw [hkeys] at hsome
    cases hsome
  | some pair =>
    obtain ⟨lib, keys⟩ := pair
    obtain ⟨m', hrun, hkey⟩ := @workerKeygen_returned limits _ _ _ hkeys m
    obtain ⟨hloaded, -⟩ := Loading.keygen_returned hkeys m
    rw [Proc.bind_returned hrun]
    subst hloaded
    rcases @workerSignAndVerify_run limits args lib _ _ hkey with
      ⟨sig, hgood, hbody⟩ | ⟨hbad, ending, hbody, hspoils⟩
    · refine Or.inl ⟨keys.pubkey.bytes, sig, ⟨lib, keys, hkeys, rfl, hgood⟩,
        m'.wipeKey.unlockPages, ?_⟩
      dsimp only
      rw [Proc.bind_returned (Proc.tryFinally_returned hbody (wipeAndUnlock_run m'))]
      exact respond_run rfl 0 _
    · refine Or.inr ⟨?_, ?_⟩
      · rintro ⟨pubkey, sig, lib', keys', hsome, -, hgood⟩
        rw [hkeys] at hsome
        cases hsome
        exact hbad ⟨sig, hgood⟩
      · cases ending with
        | returned a =>
          cases a with
          | inl answer =>
            exact ⟨_, _, Proc.bind_returned
              (Proc.tryFinally_returned hbody (wipeAndUnlock_run m')) _,
              Or.inl ⟨answer, rfl, hspoils⟩⟩
          | inr sig => exact hspoils.elim
        | raised e =>
          exact ⟨_, _, Proc.bind_raised
            (Proc.tryFinally_raised hbody (wipeAndUnlock_run m')) _, Or.inr ⟨e, rfl⟩⟩
        | killed => exact hspoils.elim

/-- The process answers with a good signature, or it fails. -/
theorem workerProcess_run {stdin : Bytes} {request : Request} (protections : Protections)
    (hparse : parseRequest limits stdin = .ok request) (hlocked : request.requireLocked = false) :
    (∃ pubkey sig, Genuine loading request.args pubkey sig ∧
      workerProcess limits protections loading.signer stdin =
        .ok ⟨0, Json.encodeUtf8 (successDoc pubkey sig protections).print⟩) ∨
    (¬ ∃ pubkey sig, Genuine loading request.args pubkey sig) ∧ ∃ answer,
      workerProcess limits protections loading.signer stdin = .ok answer ∧
        IsFailure limits answer := by
  have hmain : workerMain limits protections loading.signer stdin =
      workerSeal limits protections loading.signer request.args := by
    unfold workerMain
    rw [hparse]
    dsimp only
    rw [hlocked, if_neg (fun h => by cases h.1)]
  unfold workerProcess
  rw [hmain]
  rcases workerSeal_run (m := KeyMemory.fresh) protections with
    ⟨pubkey, sig, hgenuine, m', hrun⟩ | ⟨hnot, ending, m', hrun, h⟩
  · rw [hrun]
    exact Or.inl ⟨pubkey, sig, hgenuine, rfl⟩
  · rw [hrun]
    rcases h with ⟨answer, rfl, hfailure⟩ | ⟨e, rfl⟩
    · exact Or.inr ⟨hnot, answer, rfl, hfailure⟩
    · exact Or.inr ⟨hnot, _, rfl, traceback_isFailure⟩

end Worker

/-! ## The request -/

section Request

variable {limits : Limits} {args : Arguments} {requireLocked : Bool} {stdin : Bytes}

/-- The request carries the arguments as `int` and `bytes` convert them. -/
def Carries (limits : Limits) (args : Arguments) (request : Request) : Prop :=
  intOf limits args.appId = .ok request.appId ∧ intOf limits args.cellId = .ok request.cellId ∧
    bytesOf args.artifactHash = .ok request.artifactHash ∧
    bytesOf args.genesisHash = .ok request.genesisHash

/-- What the parent writes, the worker reads. -/
theorem parseRequest_of_request (h : isolatedRequest limits args requireLocked = .ok stdin) :
    ∃ request, parseRequest limits stdin = .ok request ∧ Carries limits args request ∧
      request.requireLocked = requireLocked := by
  obtain ⟨appId, happ, h⟩ := bind_eq_ok.mp h
  obtain ⟨cellId, hcell, h⟩ := bind_eq_ok.mp h
  obtain ⟨artifactHash, hart, h⟩ := bind_eq_ok.mp h
  obtain ⟨genesisHash, hgen, h⟩ := bind_eq_ok.mp h
  obtain ⟨text, hdumps, h⟩ := bind_eq_ok.mp h
  cases h
  refine ⟨⟨appId, cellId, artifactHash, genesisHash, requireLocked⟩, ?_,
    ⟨happ, hcell, hart, hgen⟩, rfl⟩
  have hdepth : (requestDoc appId cellId artifactHash genesisHash requireLocked).depth ≤
      limits.maxDepth := by
    have htwo := limits.two_le_maxDepth
    show 1 ≤ limits.maxDepth
    omega
  have hloads := Doc.loads_dumps hdumps hdepth
  have hartifact : fromHex (.str (Text.ofString (Hex.ofBytes artifactHash))) = .ok artifactHash :=
    Hex.toBytes_ofBytes artifactHash
  have hgenesis : fromHex (.str (Text.ofString (Hex.ofBytes genesisHash))) = .ok genesisHash :=
    Hex.toBytes_ofBytes genesisHash
  unfold parseRequest
  rw [Json.decodeUtf8_encodeUtf8]
  show (Json.loads limits text >>= _) = _
  rw [hloads]
  show ((fromHex (.str (Text.ofString (Hex.ofBytes artifactHash)))) >>= _) = _
  rw [hartifact]
  show ((fromHex (.str (Text.ofString (Hex.ofBytes genesisHash)))) >>= _) = _
  rw [hgenesis]
  rfl

/-- Numbers in range can be written. -/
theorem fits_of_inUint64 {n : Int} (h : InUint64 n) : Doc.fits limits (.int n) = true := by
  have hvalid := limits.maxStrDigits_valid
  have hlength : (Nat.toDigits 10 n.natAbs).length ≤ 20 := by
    rw [Nat.length_toDigits_le_iff (by decide) (by decide)]
    have hlow := h.1
    have hhigh := h.2
    omega
  show decide (limits.Allows (Nat.toDigits 10 n.natAbs).length) = true
  rw [decide_eq_true_iff]
  unfold Limits.Allows
  omega

theorem request_of_carries {request : Request} (h : Carries limits args request)
    (happ : InUint64 request.appId) (hcell : InUint64 request.cellId) :
    ∃ stdin, isolatedRequest limits args requireLocked = .ok stdin := by
  have hfits : Doc.fits limits (requestDoc request.appId request.cellId request.artifactHash
      request.genesisHash requireLocked) = true := by
    show (Doc.fits limits (.int request.appId) &&
      (Doc.fits limits (.int request.cellId) && true)) = true
    rw [fits_of_inUint64 happ, fits_of_inUint64 hcell]
    rfl
  refine ⟨Json.encodeUtf8 (requestDoc request.appId request.cellId request.artifactHash
    request.genesisHash requireLocked).print, ?_⟩
  unfold isolatedRequest
  rw [h.1, h.2.1, h.2.2.1, h.2.2.2]
  show (Doc.dumps limits (requestDoc _ _ _ _ requireLocked) >>= _) = _
  unfold Doc.dumps
  rw [if_pos hfits]
  rfl

/-- The message of the request is the message of well-formed arguments. -/
theorem carries_of_message {msg : Bytes} (h : args.message = .ok msg) :
    ∃ request, Carries limits args request ∧ request.args.message = .ok msg ∧
      InUint64 request.appId ∧ InUint64 request.cellId ∧ request.requireLocked = requireLocked := by
  obtain ⟨app, cell, art, gen, happ, hin, hcell, hcin, hartLen, hart, hgenLen, hgen, rfl⟩ :=
    Sdk.buildMessage_eq_ok.mp h
  refine ⟨⟨app, cell, art, gen, requireLocked⟩, ⟨?_, intOf_of_asInt hcell, hart, hgen⟩, ?_,
    hin, hcin, rfl⟩
  · rw [happ]
    rfl
  · refine Sdk.buildMessage_eq_ok.mpr ⟨app, cell, art, gen, rfl, hin, rfl, hcin, ?_, rfl, ?_, rfl,
      rfl⟩
    · exact congrArg Except.ok (bytesOf_length hartLen hart)
    · exact congrArg Except.ok (bytesOf_length hgenLen hgen)

/-- The request is determined by the arguments. -/
theorem Carries.unique {request request' : Request} (h : Carries limits args request)
    (h' : Carries limits args request') : request.args = request'.args := by
  obtain ⟨happ, hcell, hart, hgen⟩ := h
  obtain ⟨happ', hcell', hart', hgen'⟩ := h'
  rw [happ] at happ'
  rw [hcell] at hcell'
  rw [hart] at hart'
  rw [hgen] at hgen'
  unfold Request.args
  rw [Except.ok.inj happ', Except.ok.inj hcell', Except.ok.inj hart', Except.ok.inj hgen']

end Request

end Trelyan.Seal
