import Trelyan.Seal.Runs

/-!
# The two ways to seal

`keygen_sign_seal` and `keygen_sign_seal_isolated` over one C library, without
faults, compared.  `Agreeable` says for which libraries and arguments both end
in the same class and leave the same store.
-/

namespace Trelyan.Seal

open Py Faults Falcon

/-! ## Both calls -/

section Compared

variable {σ : Type} {limits : Limits} {store : SealStore σ} {loading : Loading} {args : Arguments}
  {s s' : σ} {protections : Protections} {e : Error} {pubkey sig msg : Bytes}

/-- The isolated call on the worker with the same library. -/
def isolatedCall (limits : Limits) (loading : Loading) (protections : Protections)
    (args : Arguments) : SealCall :=
  .isolated loading.signer (workerProcess limits protections loading.signer) args false

/-- What the isolated call does when the cell is not sealed. -/
theorem isolated_verified {r : Ending Error (Bytes × Bytes)}
    {worker : Bytes → Except Error Completed} {parent : Signer} {requireLocked : Bool}
    (hsealed : store.isSealed args.cellId ⟨[], s⟩ = (.returned false, ⟨[], s'⟩))
    (h : (do
      let request ← Proc.call (isolatedRequest limits args requireLocked)
      let proc ← Proc.call (worker request)
      Proc.call (verifyAnswer limits parent args proc) : Proc Error σ (Bytes × Bytes)) ⟨[], s'⟩ =
        (r, ⟨[], s'⟩)) :
    (SealCall.isolated parent worker args requireLocked).verified limits store ⟨[], s⟩ =
      (r, ⟨[], s'⟩) := by
  show keygenSignVerifyIsolated limits store parent worker args requireLocked ⟨[], s⟩ = _
  unfold keygenSignVerifyIsolated
  rw [Proc.bind_returned hsealed, if_neg (by decide)]
  exact h

theorem isolated_malformed
    (hsealed : store.isSealed args.cellId ⟨[], s⟩ = (.returned false, ⟨[], s'⟩))
    (hrequest : isolatedRequest limits args false = .error e) :
    (isolatedCall limits loading protections args).verified limits store ⟨[], s⟩ =
      (.raised e, ⟨[], s'⟩) :=
  isolated_verified hsealed (Proc.bind_raised (Proc.call_error hrequest s') _)

/-- The worker answers, and the parent looks at the answer. -/
theorem isolated_answered {parent : Signer} {worker : Bytes → Except Error Completed}
    {requireLocked : Bool} {stdin : Bytes} {answer : Completed}
    (hsealed : store.isSealed args.cellId ⟨[], s⟩ = (.returned false, ⟨[], s'⟩))
    (hrequest : isolatedRequest limits args requireLocked = .ok stdin)
    (hanswer : worker stdin = .ok answer) :
    (SealCall.isolated parent worker args requireLocked).verified limits store ⟨[], s⟩ =
      Proc.call (verifyAnswer limits parent args answer) ⟨[], s'⟩ := by
  have hrun : (do
      let request ← Proc.call (isolatedRequest limits args requireLocked)
      let proc ← Proc.call (worker request)
      Proc.call (verifyAnswer limits parent args proc) : Proc Error σ (Bytes × Bytes)) ⟨[], s'⟩ =
        Proc.call (verifyAnswer limits parent args answer) ⟨[], s'⟩ := by
    rw [Proc.bind_returned (Proc.call_ok hrequest s'), Proc.bind_returned (Proc.call_ok hanswer s')]
  cases hverify : verifyAnswer limits parent args answer with
  | error e =>
    rw [hverify] at hrun
    exact isolated_verified hsealed hrun
  | ok out =>
    rw [hverify] at hrun
    exact isolated_verified hsealed hrun

/-- The parent raises `SealVerificationError` on a failure. -/
theorem verifyAnswer_failure {parent : Signer} {answer : Completed}
    (h : IsFailure limits answer) :
    ∃ text, verifyAnswer limits parent args answer = .error (sealVerificationError text) := by
  obtain ⟨text, hread⟩ := readAnswer_failure h
  refine ⟨text, ?_⟩
  unfold verifyAnswer
  rw [hread]
  rfl

/-- On a genuine answer the parent verifies over its own arguments. -/
theorem verifyAnswer_genuine {args' : Arguments} (hgenuine : Genuine loading args' pubkey sig) :
    (∀ e, args.message = .error e → verifyAnswer limits loading.signer args
      ⟨0, Json.encodeUtf8 (successDoc pubkey sig protections).print⟩ = .error e) ∧
    (args.message = args'.message → verifyAnswer limits loading.signer args
      ⟨0, Json.encodeUtf8 (successDoc pubkey sig protections).print⟩ = .ok (pubkey, sig)) := by
  obtain ⟨lib, keys, hkeys, rfl, msg, hmsg, hsig, hzero⟩ := hgenuine
  obtain ⟨rfl, -⟩ := Loading.keygen_returned hkeys KeyMemory.fresh
  have hcheck : ∀ describe, checkHeader describe sig = .ok () := fun _ =>
    require_eq_ok.mpr (header_of_signatureOf hsig)
  have hverify : (Loading.loaded lib).signer.verify sig keys.pubkey.bytes msg = .ok true := by
    rw [loaded_verify, decide_eq_true hzero]
  unfold verifyAnswer
  rw [readAnswer_success]
  show (∀ e, _ → (checkHeader _ sig >>= _) = _) ∧ (_ → (checkHeader _ sig >>= _) = _)
  rw [hcheck]
  constructor
  · intro e he
    have hinscription : args.verifyInscription (Loading.loaded lib).signer sig keys.pubkey.bytes =
        .error e := by
      show (args.message >>= _) = _
      rw [he]
      rfl
    show (args.verifyInscription _ sig keys.pubkey.bytes >>= _) = _
    rw [hinscription]
    rfl
  · intro heq
    have hinscription : args.verifyInscription (Loading.loaded lib).signer sig keys.pubkey.bytes =
        .ok true := bind_eq_ok.mpr ⟨msg, heq.trans hmsg, hverify⟩
    show (args.verifyInscription _ sig keys.pubkey.bytes >>= _) = _
    rw [hinscription]
    rfl

end Compared

/-! ## The same contract -/

/-- The class in which a call ends. -/
def SameClass {α : Type} : Ending Error α → Ending Error α → Prop
  | .returned _, .returned _ => True
  | .raised e, .raised e' => e.className = e'.className
  | .killed, .killed => True
  | _, _ => False

section Contract

variable {σ : Type} (limits : Limits) (store : SealStore σ) (loading : Loading)
  (protections : Protections) (args : Arguments)

/-- Without faults, both calls end in the same class and leave the same store. -/
def SameContract (s : σ) : Prop :=
  SameClass ((SealCall.inProcess loading.signer args).run limits store ⟨[], s⟩).1
      ((isolatedCall limits loading protections args).run limits store ⟨[], s⟩).1 ∧
    ((SealCall.inProcess loading.signer args).run limits store ⟨[], s⟩).2.state =
      ((isolatedCall limits loading protections args).run limits store ⟨[], s⟩).2.state

/-- A number that `json.dumps` can write. -/
def Writable (n : Int) : Prop := limits.Allows (Nat.toDigits 10 n.natAbs).length

instance (n : Int) : Decidable (Writable limits n) := inferInstanceAs (Decidable (limits.Allows _))

/-- What the conversions of the arguments for the request raise, the first of them
that does. -/
def Rejects (e : Error) : Prop :=
  intOf limits args.appId = .error e ∨ ∃ appId, intOf limits args.appId = .ok appId ∧
    (intOf limits args.cellId = .error e ∨ ∃ cellId, intOf limits args.cellId = .ok cellId ∧
      (bytesOf args.artifactHash = .error e ∨ ∃ a, bytesOf args.artifactHash = .ok a ∧
        (bytesOf args.genesisHash = .error e ∨ ∃ g, bytesOf args.genesisHash = .ok g ∧
          ¬ (Writable limits appId ∧ Writable limits cellId) ∧ e = tooManyDigits)))

/-- The library makes keys.  The arguments are well-formed, and the library
reports a signature, good or not.  Or they are malformed, and the conversions
for the request fail with the same class, or they make the arguments well-formed
and the library signs them. -/
def Agreeable : Prop :=
  ∃ lib keys, loading.keyPair = some (lib, keys) ∧
    ((∃ msg, args.message = .ok msg ∧ (lib.signCompressed keys.privkey msg).rc = 0 ∧
        (lib.signCompressed keys.privkey msg).out ≠ []) ∨
      ∃ e, args.message = .error e ∧
        ((∃ e', Rejects limits args e' ∧ e'.className = e.className) ∨
          ∃ request, Carries limits args request ∧ ∃ sig, GoodSignature lib keys request.args sig))

end Contract

section Agreement

variable {σ : Type} {limits : Limits} {store : SealStore σ} {loading : Loading} {args : Arguments}
  {s s' : σ} {protections : Protections}

theorem sameContract_of_raised {e e' : Error}
    (hin : (SealCall.inProcess loading.signer args).verified limits store ⟨[], s⟩ =
      (.raised e, ⟨[], s'⟩))
    (hiso : (isolatedCall limits loading protections args).verified limits store ⟨[], s⟩ =
      (.raised e', ⟨[], s'⟩)) :
    SameContract limits store loading protections args s ↔ e.className = e'.className := by
  unfold SameContract
  rw [SealCall.run_eq, SealCall.run_eq, Proc.bind_raised hin, Proc.bind_raised hiso]
  exact and_iff_left rfl

theorem sameContract_of_returned {out : Bytes × Bytes}
    (hin : (SealCall.inProcess loading.signer args).verified limits store ⟨[], s⟩ =
      (.returned out, ⟨[], s'⟩))
    (hiso : (isolatedCall limits loading protections args).verified limits store ⟨[], s⟩ =
      (.returned out, ⟨[], s'⟩)) :
    SameContract limits store loading protections args s := by
  unfold SameContract
  rw [SealCall.run_eq, SealCall.run_eq, Proc.bind_returned hin, Proc.bind_returned hiso]
  refine ⟨?_, rfl⟩
  show SameClass (recordAndReturn limits store args.cellId out ⟨[], s'⟩).1
    (recordAndReturn limits store args.cellId out ⟨[], s'⟩).1
  cases (recordAndReturn limits store args.cellId out ⟨[], s'⟩).1 with
  | returned a => trivial
  | raised e => rfl
  | killed => trivial

/-- The request is refused when a conversion fails. -/
theorem isolatedRequest_eq_error {requireLocked : Bool} {e : Error} :
    isolatedRequest limits args requireLocked = .error e ↔ Rejects limits args e := by
  have hdumps : ∀ appId cellId a g, Doc.dumps limits (requestDoc appId cellId a g requireLocked) =
      .error e ↔ ¬ (Writable limits appId ∧ Writable limits cellId) ∧ e = tooManyDigits := by
    intro appId cellId a g
    have hfits : (requestDoc appId cellId a g requireLocked).fits limits = true ↔
        Writable limits appId ∧ Writable limits cellId := by
      show (decide (Writable limits appId) && (decide (Writable limits cellId) && true)) = true ↔ _
      rw [Bool.and_true, Bool.and_eq_true, decide_eq_true_iff, decide_eq_true_iff]
    unfold Doc.dumps
    split
    · rename_i hok
      exact iff_of_false nofun fun h => h.1 (hfits.mp hok)
    · rename_i hnot
      rw [hfits] at hnot
      rw [Except.error.injEq, eq_comm]
      exact (and_iff_right hnot).symm
  have hprint : ∀ {x : Except Error (List Char)},
      (x >>= fun text => (.ok (Json.encodeUtf8 text) : Except Error Bytes)) = .error e ↔
        x = .error e := by
    intro x
    rw [bind_eq_error]
    constructor
    · rintro (h | ⟨text, -, h⟩)
      · exact h
      · cases h
    · exact Or.inl
  unfold isolatedRequest Rejects
  simp only [bind_eq_error, hprint, hdumps]

theorem isolatedRequest_errors (limits : Limits) (args : Arguments) (requireLocked : Bool) :
    Errors Error.IsBuiltin (isolatedRequest limits args requireLocked) := by
  unfold isolatedRequest
  refine (intOf_errors _ _).bind fun _ => (intOf_errors _ _).bind fun _ =>
    (bytesOf_errors _).bind fun _ => (bytesOf_errors _).bind fun _ =>
    Errors.bind ?_ fun _ => errors_ok _
  unfold Doc.dumps
  split
  · exact errors_ok _
  · exact errors_error (Error.isBuiltin_valueError _)

/-- `SealVerificationError` and what the library raises are not of the built-in
classes. -/
theorem ne_of_isBuiltin {e e' : Error} (h : e.IsBuiltin)
    (h' : e'.className ∈ ["SealVerificationError", "RuntimeError", "AttributeError"]) :
    e.className ≠ e'.className := by
  intro heq
  rw [← heq] at h'
  simp only [Error.IsBuiltin, List.mem_cons, List.not_mem_nil, or_false] at h h'
  rcases h with h | h | h | h <;> rw [h] at h' <;> simp at h'

theorem sealVerificationError_class (text : String) :
    (sealVerificationError text).className = "SealVerificationError" := rfl

/-- What the isolated call does when its request can be written. -/
theorem isolated_cases {stdin : Bytes} {request : Request}
    (hsealed : store.isSealed args.cellId ⟨[], s⟩ = (.returned false, ⟨[], s'⟩))
    (hrequest : isolatedRequest limits args false = .ok stdin)
    (hcarries : Carries limits args request) :
    (∃ pubkey sig, Genuine loading request.args pubkey sig ∧
      (∀ e, args.message = .error e →
        (isolatedCall limits loading protections args).verified limits store ⟨[], s⟩ =
          (.raised e, ⟨[], s'⟩)) ∧
      (args.message = request.args.message →
        (isolatedCall limits loading protections args).verified limits store ⟨[], s⟩ =
          (.returned (pubkey, sig), ⟨[], s'⟩))) ∨
    (¬ ∃ pubkey sig, Genuine loading request.args pubkey sig) ∧ ∃ text,
      (isolatedCall limits loading protections args).verified limits store ⟨[], s⟩ =
        (.raised (sealVerificationError text), ⟨[], s'⟩) := by
  obtain ⟨request', hparse, hcarries', hlocked⟩ := parseRequest_of_request hrequest
  have hargs := hcarries.unique hcarries'
  rw [hargs]
  rcases @workerProcess_run limits loading _ _ protections hparse hlocked with
    ⟨pubkey, sig, hgenuine, hanswer⟩ | ⟨hnot, answer, hanswer, hfailure⟩
  · obtain ⟨hraises, hreturns⟩ := @verifyAnswer_genuine limits loading args protections
      pubkey sig _ hgenuine
    refine Or.inl ⟨pubkey, sig, hgenuine, ?_, ?_⟩
    · intro e he
      exact (isolated_answered hsealed hrequest hanswer).trans (Proc.call_error (hraises e he) s')
    · intro hmessage
      exact (isolated_answered hsealed hrequest hanswer).trans
        (Proc.call_ok (hreturns hmessage) s')
  · obtain ⟨text, hverify⟩ := @verifyAnswer_failure limits args loading.signer answer hfailure
    refine Or.inr ⟨hnot, text, ?_⟩
    exact (isolated_answered hsealed hrequest hanswer).trans (Proc.call_error hverify s')

/-- Without keys the classes differ. -/
theorem not_same_of_keyless
    (hsealed : store.isSealed args.cellId ⟨[], s⟩ = (.returned false, ⟨[], s'⟩))
    (hkeys : loading.keyPair = none) :
    ¬ SameContract limits store loading protections args s := by
  obtain ⟨e, hin, hclass⟩ := @inProcess_keygen σ limits _ _ _ _ _ hsealed hkeys
  cases hrequest : isolatedRequest limits args false with
  | error e' =>
    rw [sameContract_of_raised hin (isolated_malformed hsealed hrequest)]
    intro heq
    exact ne_of_isBuiltin (isolatedRequest_errors limits args false e' hrequest)
      (List.mem_cons_of_mem _ hclass) heq.symm
  | ok stdin =>
    obtain ⟨request, -, hcarries, -⟩ := parseRequest_of_request hrequest
    rcases @isolated_cases σ limits store _ _ _ _ protections _ _ hsealed hrequest hcarries with
      ⟨pubkey, sig, ⟨lib, keys, hsome, -⟩, -⟩ | ⟨-, text, hiso⟩
    · rw [hkeys] at hsome
      cases hsome
    · rw [sameContract_of_raised hin hiso, sealVerificationError_class]
      simp only [List.mem_cons, List.not_mem_nil, or_false] at hclass
      rcases hclass with h | h <;> rw [h] <;> decide

section Keys

variable {lib : Library} {keys : KeygenOutput}

/-- The process signs with the keys that it made. -/
theorem sign_of_keys (hkeys : loading.keyPair = some (lib, keys)) {m : KeyMemory}
    (hkey : m.key = keys.privkey) (msg : Bytes) :
    loading.signer.sign m.key.bytes msg = signatureOf (lib.signCompressed keys.privkey msg) := by
  obtain ⟨rfl, -⟩ := Loading.keygen_returned hkeys KeyMemory.fresh
  rw [hkey]
  exact loaded_sign

theorem genuine_iff (hkeys : loading.keyPair = some (lib, keys)) :
    (∃ pubkey sig, Genuine loading args pubkey sig) ↔ ∃ sig, GoodSignature lib keys args sig := by
  constructor
  · rintro ⟨pubkey, sig, lib', keys', hsome, -, hgood⟩
    rw [hkeys] at hsome
    cases hsome
    exact ⟨sig, hgood⟩
  · rintro ⟨sig, hgood⟩
    exact ⟨keys.pubkey.bytes, sig, lib, keys, hkeys, rfl, hgood⟩

/-- On malformed arguments the classes agree when the conversions fail alike, or
make up for it. -/
theorem sameContract_iff_of_malformed {e : Error}
    (hsealed : store.isSealed args.cellId ⟨[], s⟩ = (.returned false, ⟨[], s'⟩))
    (hkeys : loading.keyPair = some (lib, keys)) (hmessage : args.message = .error e) :
    SameContract limits store loading protections args s ↔
      (∃ e', Rejects limits args e' ∧ e'.className = e.className) ∨
        ∃ request, Carries limits args request ∧
          ∃ sig, GoodSignature lib keys request.args sig := by
  simp only [← @isolatedRequest_eq_error limits args false]
  have hbuiltin : e.IsBuiltin := Sdk.buildMessage_errors _ _ _ _ e hmessage
  have hin : (SealCall.inProcess loading.signer args).verified limits store ⟨[], s⟩ =
      (.raised e, ⟨[], s'⟩) :=
    inProcess_raised hsealed hkeys fun m _ => signAndVerify_malformed hmessage
  cases hrequest : isolatedRequest limits args false with
  | error e' =>
    rw [sameContract_of_raised hin (isolated_malformed hsealed hrequest)]
    constructor
    · intro heq
      exact Or.inl ⟨e', rfl, heq.symm⟩
    · rintro (⟨e'', heq, hclass⟩ | ⟨request, hcarries, sig, msg, hmsg, -⟩)
      · cases heq
        exact hclass.symm
      · obtain ⟨app, cell, -, -, happ, hin, hcell, hcin, -⟩ := Sdk.buildMessage_eq_ok.mp hmsg
        cases happ
        cases hcell
        obtain ⟨stdin, hok⟩ := @request_of_carries limits args false _ hcarries hin hcin
        rw [hrequest] at hok
        cases hok
  | ok stdin =>
    obtain ⟨request, -, hcarries, -⟩ := parseRequest_of_request hrequest
    rcases @isolated_cases σ limits store loading args s s' protections stdin request hsealed
      hrequest hcarries with ⟨pubkey, sig, hgenuine, hraises, -⟩ | ⟨hnot, text, hiso⟩
    · rw [sameContract_of_raised hin (hraises e hmessage)]
      refine iff_of_true rfl (Or.inr ⟨request, hcarries, ?_⟩)
      exact (genuine_iff hkeys).mp ⟨pubkey, sig, hgenuine⟩
    · rw [sameContract_of_raised hin hiso]
      refine iff_of_false (ne_of_isBuiltin hbuiltin List.mem_cons_self) ?_
      rintro (⟨e', heq, -⟩ | ⟨request', hcarries', hgood⟩)
      · cases heq
      · rw [hcarries'.unique hcarries] at hgood
        exact hnot ((genuine_iff hkeys).mpr hgood)

section WellFormed

variable {msg : Bytes} (hsealed : store.isSealed args.cellId ⟨[], s⟩ = (.returned false, ⟨[], s'⟩))
  (hkeys : loading.keyPair = some (lib, keys)) (hmessage : args.message = .ok msg)

include hsealed hkeys hmessage

/-- What the isolated call does with well-formed arguments. -/
theorem isolated_of_message :
    (∃ sig, GoodSignature lib keys args sig ∧
      (isolatedCall limits loading protections args).verified limits store ⟨[], s⟩ =
        (.returned (keys.pubkey.bytes, sig), ⟨[], s'⟩)) ∨
    (¬ ∃ sig, GoodSignature lib keys args sig) ∧ ∃ text,
      (isolatedCall limits loading protections args).verified limits store ⟨[], s⟩ =
        (.raised (sealVerificationError text), ⟨[], s'⟩) := by
  obtain ⟨request, hcarries, hrequestMessage, happ, hcell, -⟩ :=
    @carries_of_message limits args false msg hmessage
  obtain ⟨stdin, hrequest⟩ := @request_of_carries limits args false _ hcarries happ hcell
  have hgood : ∀ sig,
      GoodSignature lib keys request.args sig ↔ GoodSignature lib keys args sig := by
    intro sig
    unfold GoodSignature
    rw [hrequestMessage, hmessage]
  rcases @isolated_cases σ limits store loading args s s' protections stdin request hsealed
    hrequest hcarries with
    ⟨pubkey, sig, ⟨lib', keys', hsome, rfl, hsig⟩, -, hreturns⟩ | ⟨hnot, text, hiso⟩
  · rw [hkeys] at hsome
    cases hsome
    exact Or.inl ⟨sig, (hgood sig).mp hsig, hreturns (hmessage.trans hrequestMessage.symm)⟩
  · refine Or.inr ⟨?_, text, hiso⟩
    rintro ⟨sig, hsig⟩
    exact hnot ((genuine_iff hkeys).mpr ⟨sig, (hgood sig).mpr hsig⟩)

/-- Without a signature the classes agree when it was the header that was wrong. -/
theorem sameContract_iff_of_unsigned {e : Error}
    (hsign : signatureOf (lib.signCompressed keys.privkey msg) = .error e) :
    SameContract limits store loading protections args s ↔
      (badBuild e).className = "SealVerificationError" := by
  have hin := @inProcess_raised σ limits _ _ _ _ _ _ _ _ hsealed hkeys fun m hkey =>
    signAndVerify_unsigned hmessage ((sign_of_keys hkeys hkey msg).trans hsign)
  rcases @isolated_of_message σ limits _ _ _ _ _ protections _ _ _ hsealed hkeys hmessage with
    ⟨sig, hgood, -⟩ | ⟨-, text, hiso⟩
  · exact absurd ⟨sig, hgood⟩ (not_good_of_unsigned hmessage hsign)
  · rw [sameContract_of_raised hin hiso, sealVerificationError_class]

/-- A signature is verified by both. -/
theorem sameContract_of_signed {sig : Bytes}
    (hsign : signatureOf (lib.signCompressed keys.privkey msg) = .ok sig) :
    SameContract limits store loading protections args s := by
  have hisolated := @isolated_of_message σ limits _ _ _ _ _ protections _ _ _ hsealed hkeys hmessage
  obtain ⟨rfl, -⟩ := Loading.keygen_returned hkeys KeyMemory.fresh
  have hbody : ∀ m : KeyMemory, m.key = keys.privkey →
      signAndVerify (Loading.loaded lib).signer args keys.pubkey.bytes ⟨[], m⟩ =
        (if decide (lib.verifyCompressed sig keys.pubkey msg = 0) = true then .returned sig
          else .raised selfVerificationFailed, ⟨[], m⟩) := fun m hkey =>
    signAndVerify_signed hmessage ((sign_of_keys hkeys hkey msg).trans hsign)
      (header_of_signatureOf hsign) loaded_verify
  by_cases hzero : lib.verifyCompressed sig keys.pubkey msg = 0
  · rw [decide_eq_true hzero] at hbody
    have hin := @inProcess_returned σ limits _ _ _ _ _ _ _ _ hsealed hkeys hbody
    rcases hisolated with ⟨sig', ⟨msg', hmsg', hsig', -⟩, hiso⟩ | ⟨hnot, -⟩
    · rw [hmessage] at hmsg'
      cases hmsg'
      rw [hsign] at hsig'
      cases hsig'
      exact sameContract_of_returned hin hiso
    · exact absurd ⟨sig, msg, hmessage, hsign, hzero⟩ hnot
  · rw [decide_eq_false hzero] at hbody
    have hin := @inProcess_raised σ limits _ _ _ _ _ _ _ _ hsealed hkeys hbody
    rcases hisolated with ⟨sig', hgood, -⟩ | ⟨-, text, hiso⟩
    · exact absurd ⟨sig', hgood⟩ (not_good_of_rejected hmessage hsign hzero)
    · rw [sameContract_of_raised hin hiso]
      rfl

/-- On well-formed arguments the classes agree when the library reports a
signature. -/
theorem sameContract_iff_of_wellFormed :
    SameContract limits store loading protections args s ↔
      (lib.signCompressed keys.privkey msg).rc = 0 ∧
        (lib.signCompressed keys.privkey msg).out ≠ [] := by
  rcases signatureOf_cases (lib.signCompressed keys.privkey msg) with
    ⟨sig, hsign, hheader, hrc, hout⟩ | ⟨b, hsign, hrc, hhead, -⟩ | ⟨text, hsign, -, hout⟩ |
    ⟨text, hsign, hrc⟩
  · refine iff_of_true (sameContract_of_signed hsealed hkeys hmessage hsign) ⟨hrc, ?_⟩
    rw [hout]
    rintro rfl
    cases hheader
  · refine iff_of_true ?_ ⟨hrc, ?_⟩
    · exact (sameContract_iff_of_unsigned hsealed hkeys hmessage hsign).mpr rfl
    · intro hnil
      rw [hnil] at hhead
      cases hhead
  · refine iff_of_false ?_ fun h => h.2 hout
    rw [sameContract_iff_of_unsigned hsealed hkeys hmessage hsign]
    show ¬ "IndexError" = _
    decide
  · refine iff_of_false ?_ fun h => hrc h.1
    rw [sameContract_iff_of_unsigned hsealed hkeys hmessage hsign]
    show ¬ "RuntimeError" = _
    decide

end WellFormed

end Keys

/-- The condition, for a cell that is not sealed. -/
theorem sameContract_iff_of_unsealed
    (hsealed : store.isSealed args.cellId ⟨[], s⟩ = (.returned false, ⟨[], s'⟩)) :
    SameContract limits store loading protections args s ↔ Agreeable limits loading args := by
  cases hkeys : loading.keyPair with
  | none =>
    refine iff_of_false (not_same_of_keyless hsealed hkeys) ?_
    rintro ⟨lib, keys, hsome, -⟩
    rw [hkeys] at hsome
    cases hsome
  | some pair =>
    obtain ⟨lib, keys⟩ := pair
    unfold Agreeable
    rw [hkeys]
    cases hmessage : args.message with
    | error e =>
      rw [sameContract_iff_of_malformed hsealed hkeys hmessage]
      constructor
      · intro h
        exact ⟨lib, keys, rfl, Or.inr ⟨e, rfl, h⟩⟩
      · rintro ⟨lib', keys', hsome, ⟨msg, hmsg, -⟩ | ⟨e', he', h⟩⟩
        · cases hmsg
        · cases hsome
          cases he'
          exact h
    | ok msg =>
      rw [sameContract_iff_of_wellFormed hsealed hkeys hmessage]
      constructor
      · intro h
        exact ⟨lib, keys, rfl, Or.inl ⟨msg, rfl, h⟩⟩
      · rintro ⟨lib', keys', hsome, ⟨msg', hmsg', h⟩ | ⟨e, he, -⟩⟩
        · cases hsome
          cases hmsg'
          exact h
        · cases he

/-- When the cell is sealed, or the store fails, both calls end there. -/
theorem sameContract_of_stopped {r : Ending Error Bool}
    (hsealed : store.isSealed args.cellId ⟨[], s⟩ = (r, ⟨[], s'⟩)) (hr : r ≠ .returned false) :
    SameContract limits store loading protections args s := by
  have hin : ∀ {ending},
      keygenSignVerify limits store loading.signer args ⟨[], (s, KeyMemory.fresh)⟩ =
        (ending, ⟨[], (s', KeyMemory.fresh)⟩) →
      (SealCall.inProcess loading.signer args).verified limits store ⟨[], s⟩ =
        (ending, ⟨[], s'⟩) := fun h => Proc.withLocal_run h
  cases r with
  | returned b =>
    cases b with
    | false => exact absurd rfl hr
    | true =>
      have hcall : keygenSignVerify limits store loading.signer args ⟨[], (s, KeyMemory.fresh)⟩ =
          (.raised (alreadySealed limits args.cellId), ⟨[], (s', KeyMemory.fresh)⟩) := by
        unfold keygenSignVerify
        rw [Proc.bind_returned (Proc.onFst_run hsealed), if_pos rfl]
        rfl
      have hiso : (isolatedCall limits loading protections args).verified limits store ⟨[], s⟩ =
          (.raised (alreadySealed limits args.cellId), ⟨[], s'⟩) := by
        show keygenSignVerifyIsolated limits store loading.signer _ args false ⟨[], s⟩ = _
        unfold keygenSignVerifyIsolated
        rw [Proc.bind_returned hsealed, if_pos rfl]
        rfl
      exact (sameContract_of_raised (hin hcall) hiso).mpr rfl
  | raised e =>
    refine (sameContract_of_raised (hin (Proc.bind_raised (Proc.onFst_run hsealed) _)) ?_).mpr rfl
    exact Proc.bind_raised hsealed _
  | killed =>
    have hiso : (isolatedCall limits loading protections args).verified limits store ⟨[], s⟩ =
        (.killed, ⟨[], s'⟩) := Proc.bind_killed hsealed _
    unfold SameContract
    rw [SealCall.run_eq, SealCall.run_eq,
      Proc.bind_killed (hin (Proc.bind_killed (Proc.onFst_run hsealed) _)), Proc.bind_killed hiso]
    exact ⟨trivial, rfl⟩

end Agreement

end Trelyan.Seal
