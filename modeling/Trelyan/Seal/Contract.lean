import Trelyan.Seal.Isolation

/-!
# The contract of the isolated call

Without faults both stores answer or raise (`Answering`).  Over such a store the
two calls have the same contract exactly when the cell is not free, or the
library and the arguments are `Agreeable`.  And once the worker was asked,
whatever it wrote and whatever code it returned, the isolated call returns a
verified result or raises `SealVerificationError` exactly when the answer is
`Understood` (`isolation_iff`).
-/

namespace Trelyan.Seal

open Contract (FixedBytes)
open Py Faults Falcon

/-- `isinstance(e, SealVerificationError)`. -/
def IsVerificationError (e : Error) : Prop := e.className = "SealVerificationError"

/-- What a worker or a store may raise that is not a refusal of a signature. -/
abbrev Escapes (e : Error) : Prop := ¬ IsVerificationError e

section Escapes

variable {e : Error}

theorem escapes_of_isBuiltin (h : e.IsBuiltin) : Escapes e :=
  @ne_of_isBuiltin e (sealVerificationError "") h List.mem_cons_self

theorem escapes_of_isLoadError (h : IsLoadError e) : Escapes e := by
  rcases h with h | h
  · exact escapes_of_isBuiltin h
  · unfold Escapes IsVerificationError
    simp only [List.mem_cons, List.not_mem_nil, or_false] at h
    rcases h with h | h | h <;> rw [h] <;> decide

end Escapes

/-! ## Stores without faults -/

/-- Without faults `is_sealed` leaves the store as it was, and `record` returns
where `Records` says so, and raises elsewhere. -/
structure Answering {σ : Type} (store : SealStore σ) (Records : Value → σ → Prop) : Prop where
  isSealed : ∀ cellId s, ∃ r, store.isSealed cellId ⟨[], s⟩ = (r, ⟨[], s⟩)
  returns : ∀ cellId s, Records cellId s →
    ∃ s', store.record cellId ⟨[], s⟩ = (.returned (), ⟨[], s'⟩)
  raises : ∀ cellId s, ¬ Records cellId s →
    ∃ e, store.record cellId ⟨[], s⟩ = (.raised e, ⟨[], s⟩) ∧ Escapes e

/-- The set takes every number. -/
def InMemoryRecords (limits : Limits) (cellId : Value) (_ : Finset Int) : Prop :=
  ∃ n, intOf limits cellId = .ok n

theorem inMemory_answering (limits : Limits) :
    Answering (inMemorySealStore limits) (InMemoryRecords limits) where
  isSealed cellId s := by
    cases hn : intOf limits cellId with
    | error e => exact ⟨.raised e, Proc.bind_raised (Proc.call_error hn s) _⟩
    | ok n => exact ⟨.returned (decide (n ∈ s)), Proc.bind_returned (Proc.call_ok hn s) _⟩
  returns cellId s h := by
    obtain ⟨n, hn⟩ := h
    exact ⟨insert n s, Proc.bind_returned (Proc.call_ok hn s) _⟩
  raises cellId s h := by
    cases hn : intOf limits cellId with
    | error e =>
      refine ⟨e, Proc.bind_raised (Proc.call_error hn s) _, ?_⟩
      exact escapes_of_isBuiltin (intOf_errors limits cellId e hn)
    | ok n => exact absurd ⟨n, hn⟩ h

theorem jsonFile_answering (limits : Limits) (path : String) :
    Answering (jsonFileSealStore limits path) (Recordable limits path) where
  isSealed cellId d := by
    obtain ⟨fs, candidates⟩ := d
    show ∃ r, isSealed limits path cellId ⟨[], ⟨fs, candidates⟩⟩ = _
    cases hn : intOf limits cellId with
    | error e => exact ⟨.raised e, Proc.bind_raised (Proc.call_error hn _) _⟩
    | ok n =>
      cases hids : loadIds limits (fs.read path) with
      | error e =>
        refine ⟨.raised e, ?_⟩
        unfold isSealed
        rw [Proc.bind_returned (Proc.call_ok hn _),
          Proc.bind_raised (load_run_error hids candidates).1]
      | ok ids => exact ⟨_, isSealed_run hn hids⟩
  returns cellId d h := by
    obtain ⟨ids, n, data, hids, hn, hdata, hfresh⟩ := h
    exact record_run hids hn hdata hfresh
  raises cellId d h := by
    obtain ⟨e, hrun, he⟩ := record_run_error h
    refine ⟨e, hrun, ?_⟩
    rcases he with he | he
    · exact escapes_of_isLoadError he
    · unfold Escapes IsVerificationError
      rw [he]
      decide

/-! ## What the parent understands -/

/-- The parent takes the output for this object.  What is not JSON is an empty
object. -/
def AnswerObject (limits : Limits) (stdout : Bytes) (entries : List (Text × Json)) : Prop :=
  ∃ text, Json.decodeUtf8 stdout = .ok text ∧ (Json.loads limits text = .ok (.dict entries) ∨
    ∃ e, Json.loads limits text = .error e ∧ e.className = "JSONDecodeError" ∧ entries = [])

/-- The worker says that it failed. -/
def Refuses (returncode : Int) (entries : List (Text × Json)) : Prop :=
  returncode ≠ 0 ∨ ((Json.getItem? entries (Text.ofString "ok")).getD .null).truthy = false

/-- The entry is a string of hexadecimal digits. -/
def HexEntry (entries : List (Text × Json)) (key : String) (b : Bytes) : Prop :=
  ∃ text, Json.getItem? entries (Text.ofString key) = some (.str text) ∧ Hex.toBytes text = .ok b

/-- The output is UTF-8, and a JSON object or not JSON at all.  The worker refuses, or
it gives a public key and a signature in hexadecimal.  Then the header of the
signature is wrong, or the library can be asked about a message and a key
of the right size, and if it accepts the signature, the cell can be recorded. -/
def Understood (limits : Limits) (loading : Loading) (args : Arguments) (records : Prop)
    (answer : Completed) : Prop :=
  ∃ entries, AnswerObject limits answer.stdout entries ∧
    (Refuses answer.returncode entries ∨
      ∃ pubkey sig, HexEntry entries "pubkey" pubkey ∧ HexEntry entries "signature" sig ∧
        (sig.head? ≠ some sigCompressedHeader ∨
          ∃ msg lib, args.message = .ok msg ∧ loading = .loaded lib ∧
            ∃ h : pubkey.length = pubkeySize,
              lib.verifyCompressed sig ⟨pubkey, h⟩ msg = 0 → records))

section Answers

variable {limits : Limits} {answer : Completed} {entries : List (Text × Json)}

theorem decodeUtf8_errors (b : Bytes) : Errors (·.className = "UnicodeDecodeError")
    (Json.decodeUtf8 b) := by
  unfold Json.decodeUtf8
  split
  · exact errors_ok _
  · exact errors_error rfl

/-- No output is taken for `{}`, as what is not JSON is. -/
theorem decodeOutput_of_text {text : List Char} (h : Json.decodeUtf8 answer.stdout = .ok text) :
    decodeOutput limits answer.stdout =
      match Json.loads limits text with
      | .ok out => .ok out
      | .error e => if e.className = "JSONDecodeError" then .ok (.dict []) else .error e := by
  by_cases hnil : text = []
  · subst hnil
    obtain ⟨msg, hloads⟩ := Json.loads_nil limits
    rw [hloads]
    have hparse : parseOutput limits answer.stdout = parseOutput limits [] := by
      unfold parseOutput
      rw [h, show Json.decodeUtf8 [] = .ok [] from Json.decodeUtf8_encodeUtf8 []]
    show decodeOutput limits answer.stdout = .ok (.dict [])
    rw [← @decodeOutput_nil limits]
    unfold decodeOutput
    rw [hparse]
  · have hparse : parseOutput limits answer.stdout = Json.loads limits text := by
      unfold parseOutput
      rw [h]
      show Json.loads limits (if text = [] then _ else text) = _
      rw [if_neg hnil]
    cases hloads : Json.loads limits text with
    | ok out =>
      unfold decodeOutput
      rw [hparse.trans hloads]
    | error e =>
      unfold decodeOutput
      rw [hparse.trans hloads]

theorem answerObject_of_text {text : List Char} (h : Json.decodeUtf8 answer.stdout = .ok text) :
    AnswerObject limits answer.stdout entries ↔ Json.loads limits text = .ok (.dict entries) ∨
      ∃ e, Json.loads limits text = .error e ∧ e.className = "JSONDecodeError" ∧ entries = [] := by
  constructor
  · rintro ⟨text', htext, hloads⟩
    rw [h] at htext
    cases htext
    exact hloads
  · intro hloads
    exact ⟨text, h, hloads⟩

theorem decodeOutput_eq_dict :
    decodeOutput limits answer.stdout = .ok (.dict entries) ↔
      AnswerObject limits answer.stdout entries := by
  cases htext : Json.decodeUtf8 answer.stdout with
  | error e =>
    have hclass := decodeUtf8_errors answer.stdout e htext
    have hparse : parseOutput limits answer.stdout = .error e := bind_eq_error.mpr (Or.inl htext)
    unfold decodeOutput AnswerObject
    rw [hparse, htext]
    dsimp only
    rw [if_neg (by rw [hclass]; decide)]
    exact iff_of_false nofun nofun
  | ok text =>
    rw [decodeOutput_of_text htext, answerObject_of_text htext]
    cases hloads : Json.loads limits text with
    | ok out =>
      refine (or_iff_left ?_).symm
      rintro ⟨e, heq, -⟩
      cases heq
    | error e =>
      dsimp only
      by_cases hclass : e.className = "JSONDecodeError"
      · rw [if_pos hclass]
        constructor
        · intro heq
          cases heq
          exact Or.inr ⟨e, rfl, hclass, rfl⟩
        · rintro (heq | ⟨e', -, -, rfl⟩)
          · cases heq
          · rfl
      · rw [if_neg hclass]
        refine iff_of_false nofun ?_
        rintro (heq | ⟨e', heq, hclass', -⟩)
        · cases heq
        · cases heq
          exact hclass hclass'

/-- Decoding never raises `SealVerificationError`. -/
theorem decodeOutput_escapes (stdout : Bytes) : Errors Escapes (decodeOutput limits stdout) := by
  have hparse : Errors IsLoadError (parseOutput limits stdout) := by
    unfold parseOutput
    refine Errors.bind ?_ fun text => ?_
    · refine (decodeUtf8_errors stdout).mono fun e h => Or.inr ?_
      rw [h]
      decide
    · exact (Json.loads_decodes limits _).mono fun e => loadError_of_raises
  unfold decodeOutput
  split
  · exact errors_ok _
  · rename_i e he
    split
    · exact errors_ok _
    · exact errors_error (escapes_of_isLoadError (hparse e he))

/-- An entry that is read as bytes. -/
theorem hexEntry_iff {key : String} {b : Bytes} :
    (outItem key (.dict entries) >>= fromHex) = .ok b ↔ HexEntry entries key b := by
  unfold HexEntry
  cases hitem : Json.getItem? entries (Text.ofString key) with
  | none =>
    have hraises : outItem key (.dict entries) =
        .error (.exception "KeyError" ("'" ++ key ++ "'")) := by
      unfold outItem
      dsimp only
      rw [hitem]
    rw [hraises]
    exact iff_of_false nofun nofun
  | some v =>
    have hreads : outItem key (.dict entries) = .ok v := by
      unfold outItem
      dsimp only
      rw [hitem]
    rw [hreads]
    show fromHex v = .ok b ↔ _
    constructor
    · intro hhex
      cases v with
      | str text => exact ⟨text, rfl, hhex⟩
      | null | bool b | int n | float bits | list items | dict entries => cases hhex
    · rintro ⟨text, heq, hhex⟩
      cases heq
      exact hhex

theorem hexEntry_escapes (key : String) :
    Errors Escapes (outItem key (.dict entries) >>= fromHex) := by
  refine Errors.bind ?_ fun v => ?_
  · unfold outItem
    dsimp only
    split
    · exact errors_ok _
    · refine errors_error ?_
      show ¬ "KeyError" = _
      decide
  · refine Errors.mono ?_ fun e => escapes_of_isBuiltin
    cases v with
    | str text => exact Hex.toBytes_errors text
    | null | bool b | int n | float bits | list items | dict entries =>
      exact errors_error (Error.isBuiltin_typeError _)

/-- The public key and the signature that the entries give. -/
def answeredPair (entries : List (Text × Json)) : Except Error (Bytes × Bytes) := do
  let pubkey ← outItem "pubkey" (.dict entries) >>= fromHex
  let sig ← outItem "signature" (.dict entries) >>= fromHex
  .ok (pubkey, sig)

theorem answeredPair_eq_ok {pubkey sig : Bytes} : answeredPair entries = .ok (pubkey, sig) ↔
    HexEntry entries "pubkey" pubkey ∧ HexEntry entries "signature" sig := by
  unfold answeredPair
  rw [bind_eq_ok]
  constructor
  · rintro ⟨pubkey', hpubkey, h⟩
    obtain ⟨sig', hsig, h⟩ := bind_eq_ok.mp h
    cases h
    exact ⟨hexEntry_iff.mp hpubkey, hexEntry_iff.mp hsig⟩
  · rintro ⟨hpubkey, hsig⟩
    exact ⟨pubkey, hexEntry_iff.mpr hpubkey,
      bind_eq_ok.mpr ⟨sig, hexEntry_iff.mpr hsig, rfl⟩⟩

theorem answeredPair_escapes : Errors Escapes (answeredPair entries) :=
  (hexEntry_escapes "pubkey").bind fun _ => (hexEntry_escapes "signature").bind fun _ => errors_ok _

/-- An object is a refusal, or it has the two entries to read. -/
theorem readAnswer_of_dict (h : decodeOutput limits answer.stdout = .ok (.dict entries)) :
    (Refuses answer.returncode entries → Fails IsVerificationError (readAnswer limits answer)) ∧
      (¬ Refuses answer.returncode entries → readAnswer limits answer = answeredPair entries) := by
  have hfailed : ∀ failed, (failed = true ↔ Refuses answer.returncode entries) →
      workerFailed answer.returncode (.dict entries) = .ok failed := by
    intro failed hiff
    unfold workerFailed
    by_cases hrc : answer.returncode = 0
    · rw [if_neg (not_not.mpr hrc)]
      show Except.ok (!Json.truthy _) = _
      unfold Refuses at hiff
      cases hok : ((Json.getItem? entries (Text.ofString "ok")).getD .null).truthy with
      | true => simp_all
      | false => simp_all
    · rw [if_pos hrc, hiff.mpr (Or.inl hrc)]
  unfold readAnswer
  rw [h]
  show (_ → Fails IsVerificationError (workerFailed answer.returncode (.dict entries) >>= _)) ∧
    (_ → (workerFailed answer.returncode (.dict entries) >>= _) = _)
  constructor
  · intro hrefuses
    rw [hfailed true (iff_of_true rfl hrefuses)]
    exact ⟨_, rfl, rfl⟩
  · intro hnot
    rw [hfailed false (iff_of_false (by decide) hnot)]
    unfold answeredPair
    cases outItem "pubkey" (.dict entries) with
    | error e => rfl
    | ok v =>
      show (fromHex v >>= _) = (fromHex v >>= _)
      cases fromHex v with
      | error e => rfl
      | ok pubkey =>
        show (outItem "signature" (.dict entries) >>= _) =
          (outItem "signature" (.dict entries) >>= fromHex) >>= _
        cases outItem "signature" (.dict entries) with
        | error e => rfl
        | ok v => rfl

/-- Another value has no entries to look up. -/
theorem readAnswer_of_other {v : Json} (h : decodeOutput limits answer.stdout = .ok v)
    (hv : ∀ entries, v ≠ .dict entries) :
    ∃ msg, readAnswer limits answer = .error (.exception "AttributeError" msg) := by
  have hget : ∀ key, ∃ msg, outGet key v = .error (.exception "AttributeError" msg) := by
    intro key
    cases v with
    | dict entries => exact absurd rfl (hv entries)
    | null | bool b | int n | float bits | str s | list items => exact ⟨_, rfl⟩
  unfold readAnswer
  rw [h]
  show ∃ msg, (workerFailed answer.returncode v >>= _) = _
  by_cases hrc : answer.returncode = 0
  · obtain ⟨msg, hok⟩ := hget "ok"
    refine ⟨msg, ?_⟩
    unfold workerFailed
    rw [if_neg (not_not.mpr hrc), hok]
    rfl
  · obtain ⟨msg, herror⟩ := hget "error"
    refine ⟨msg, ?_⟩
    unfold workerFailed
    rw [if_pos hrc]
    show (outGet "error" v >>= _) = _
    rw [herror]
    rfl

/-- Without an object the parent raises something else. -/
theorem readAnswer_escapes (h : ¬ ∃ entries, AnswerObject limits answer.stdout entries) :
    ∃ e, readAnswer limits answer = .error e ∧ Escapes e := by
  cases hdecode : decodeOutput limits answer.stdout with
  | error e =>
    exact ⟨e, bind_eq_error.mpr (Or.inl hdecode), decodeOutput_escapes answer.stdout e hdecode⟩
  | ok v =>
    have hv : ∀ entries, v ≠ .dict entries := by
      rintro entries rfl
      exact h ⟨entries, decodeOutput_eq_dict.mp hdecode⟩
    obtain ⟨msg, herror⟩ := readAnswer_of_other hdecode hv
    refine ⟨_, herror, ?_⟩
    show ¬ "AttributeError" = _
    decide

/-- The parent reports a refusal where it sees one. -/
theorem readAnswer_fails : Fails IsVerificationError (readAnswer limits answer) ↔
    ∃ entries, AnswerObject limits answer.stdout entries ∧ Refuses answer.returncode entries := by
  constructor
  · intro hfails
    by_cases hobject : ∃ entries, AnswerObject limits answer.stdout entries
    · obtain ⟨entries, hentries⟩ := hobject
      refine ⟨entries, hentries, ?_⟩
      by_contra hnot
      rw [(readAnswer_of_dict (decodeOutput_eq_dict.mpr hentries)).2 hnot] at hfails
      exact answeredPair_escapes.not_fails hfails
    · obtain ⟨e, herror, he⟩ := readAnswer_escapes hobject
      rw [herror] at hfails
      exact absurd (fails_error.mp hfails) he
  · rintro ⟨entries, hentries, hrefuses⟩
    exact (readAnswer_of_dict (decodeOutput_eq_dict.mpr hentries)).1 hrefuses

theorem readAnswer_eq_ok {pubkey sig : Bytes} : readAnswer limits answer = .ok (pubkey, sig) ↔
    ∃ entries, AnswerObject limits answer.stdout entries ∧ ¬ Refuses answer.returncode entries ∧
      HexEntry entries "pubkey" pubkey ∧ HexEntry entries "signature" sig := by
  constructor
  · intro hok
    by_cases hobject : ∃ entries, AnswerObject limits answer.stdout entries
    · obtain ⟨entries, hentries⟩ := hobject
      obtain ⟨hfails, hpair⟩ := readAnswer_of_dict (decodeOutput_eq_dict.mpr hentries)
      have hnot : ¬ Refuses answer.returncode entries := by
        intro hrefuses
        obtain ⟨e, herror, -⟩ := hfails hrefuses
        rw [hok] at herror
        cases herror
      exact ⟨entries, hentries, hnot, answeredPair_eq_ok.mp ((hpair hnot).symm.trans hok)⟩
    · obtain ⟨e, herror, -⟩ := readAnswer_escapes hobject
      rw [hok] at herror
      cases herror
  · rintro ⟨entries, hentries, hnot, hpair⟩
    rw [(readAnswer_of_dict (decodeOutput_eq_dict.mpr hentries)).2 hnot]
    exact answeredPair_eq_ok.mpr hpair

end Answers

/-! ## What the parent verifies -/

section Verifies

variable {limits : Limits} {loading : Loading} {args : Arguments} {answer : Completed}
  {pubkey sig : Bytes}

/-- The library is asked about a message, with a key of the right size. -/
theorem verifyInscription_eq_ok {b : Bool} :
    args.verifyInscription loading.signer sig pubkey = .ok b ↔
      ∃ msg lib, args.message = .ok msg ∧ loading = .loaded lib ∧
        ∃ h : pubkey.length = pubkeySize,
          b = decide (lib.verifyCompressed sig ⟨pubkey, h⟩ msg = 0) := by
  show (args.message >>= fun m => loading.verify sig pubkey m) = .ok b ↔ _
  rw [bind_eq_ok]
  constructor
  · rintro ⟨msg, hmsg, hverify⟩
    unfold Loading.verify at hverify
    split at hverify
    · rename_i hlength
      obtain ⟨lib, hlib, hok⟩ := bind_eq_ok.mp hverify
      cases loading with
      | loaded lib' =>
        cases hlib
        cases hok
        exact ⟨msg, lib, hmsg, rfl, hlength, rfl⟩
      | failed text => cases hlib
      | missing text => cases hlib
    · cases hverify
  · rintro ⟨msg, lib, hmsg, rfl, hlength, rfl⟩
    refine ⟨msg, hmsg, ?_⟩
    unfold Loading.verify
    rw [dif_pos hlength]
    rfl

/-- Otherwise it raises something else. -/
theorem verifyInscription_escapes :
    Errors Escapes (args.verifyInscription loading.signer sig pubkey) := by
  refine Errors.bind ?_ fun msg => ?_
  · exact (Sdk.buildMessage_errors _ _ _ _).mono fun e => escapes_of_isBuiltin
  · show Errors Escapes (loading.verify sig pubkey msg)
    unfold Loading.verify
    split
    · refine Errors.bind ?_ fun lib => errors_ok _
      cases loading with
      | loaded lib => exact errors_ok lib
      | failed text =>
        refine errors_error ?_
        show ¬ "RuntimeError" = _
        decide
      | missing text =>
        refine errors_error ?_
        show ¬ "AttributeError" = _
        decide
    · exact errors_error (escapes_of_isBuiltin (Error.isBuiltin_valueError _))

/-- The parent's own verification of what it has read. -/
theorem verifyAnswer_of_read (h : readAnswer limits answer = .ok (pubkey, sig)) :
    (sig.head? ≠ some sigCompressedHeader →
      Fails IsVerificationError (verifyAnswer limits loading.signer args answer)) ∧
    (sig.head? = some sigCompressedHeader →
      verifyAnswer limits loading.signer args answer =
        args.verifyInscription loading.signer sig pubkey >>= fun verified =>
          if verified then .ok (pubkey, sig) else .error
            (sealVerificationError "isolated signer's signature failed parent re-verification")) := by
  unfold verifyAnswer
  rw [h]
  show (_ → Fails IsVerificationError (checkHeader _ sig >>= _)) ∧
    (_ → (checkHeader _ sig >>= _) = _)
  unfold checkHeader require
  constructor
  · intro hheader
    rw [if_neg hheader]
    exact ⟨_, rfl, rfl⟩
  · intro hheader
    rw [if_pos hheader]
    rfl

theorem verifyAnswer_fails :
    Fails IsVerificationError (verifyAnswer limits loading.signer args answer) ↔
      Fails IsVerificationError (readAnswer limits answer) ∨
        ∃ pubkey sig, readAnswer limits answer = .ok (pubkey, sig) ∧
          (sig.head? ≠ some sigCompressedHeader ∨
            args.verifyInscription loading.signer sig pubkey = .ok false) := by
  cases hread : readAnswer limits answer with
  | error e =>
    have herror : verifyAnswer limits loading.signer args answer = .error e :=
      bind_eq_error.mpr (Or.inl hread)
    rw [herror]
    refine (or_iff_left ?_).symm
    rintro ⟨pubkey, sig, heq, -⟩
    cases heq
  | ok out =>
    obtain ⟨pubkey, sig⟩ := out
    obtain ⟨hbad, hgood⟩ := @verifyAnswer_of_read limits loading args answer pubkey sig hread
    by_cases hheader : sig.head? = some sigCompressedHeader
    · rw [hgood hheader, fails_bind]
      constructor
      · rintro (hfails | ⟨b, hverify, hfails⟩)
        · exact absurd hfails verifyInscription_escapes.not_fails
        · cases b with
          | true =>
            obtain ⟨e, he, -⟩ := hfails
            cases he
          | false => exact Or.inr ⟨pubkey, sig, rfl, Or.inr hverify⟩
      · rintro (⟨e, he, -⟩ | ⟨pubkey', sig', heq, hne | hverify⟩)
        · cases he
        · cases heq
          exact absurd hheader hne
        · cases heq
          exact Or.inr ⟨false, hverify, _, rfl, rfl⟩
    · exact iff_of_true (hbad hheader) (Or.inr ⟨pubkey, sig, rfl, Or.inl hheader⟩)

theorem verifyAnswer_eq_ok : verifyAnswer limits loading.signer args answer = .ok (pubkey, sig) ↔
    readAnswer limits answer = .ok (pubkey, sig) ∧ sig.head? = some sigCompressedHeader ∧
      args.verifyInscription loading.signer sig pubkey = .ok true := by
  cases hread : readAnswer limits answer with
  | error e =>
    have herror : verifyAnswer limits loading.signer args answer = .error e :=
      bind_eq_error.mpr (Or.inl hread)
    rw [herror]
    exact iff_of_false nofun nofun
  | ok out =>
    obtain ⟨pubkey', sig'⟩ := out
    obtain ⟨hbad, hgood⟩ := @verifyAnswer_of_read limits loading args answer pubkey' sig' hread
    by_cases hheader : sig'.head? = some sigCompressedHeader
    · rw [hgood hheader, bind_eq_ok]
      constructor
      · rintro ⟨b, hverify, heq⟩
        cases b with
        | true =>
          cases heq
          exact ⟨rfl, hheader, hverify⟩
        | false => cases heq
      · rintro ⟨heq, -, hverify⟩
        cases heq
        exact ⟨true, hverify, rfl⟩
    · obtain ⟨e, herror, -⟩ := hbad hheader
      rw [herror]
      refine iff_of_false nofun ?_
      rintro ⟨heq, hhead, -⟩
      cases heq
      exact hheader hhead

/-- The parent refuses, or it accepts what can be recorded. -/
theorem understood_iff {records : Prop} : Understood limits loading args records answer ↔
    Fails IsVerificationError (verifyAnswer limits loading.signer args answer) ∨
      (∃ out, verifyAnswer limits loading.signer args answer = .ok out) ∧ records := by
  rw [verifyAnswer_fails, readAnswer_fails]
  constructor
  · rintro ⟨entries, hentries, hrefuses | ⟨pubkey, sig, hpubkey, hsig, h⟩⟩
    · exact Or.inl (Or.inl ⟨entries, hentries, hrefuses⟩)
    · by_cases hrefuses : Refuses answer.returncode entries
      · exact Or.inl (Or.inl ⟨entries, hentries, hrefuses⟩)
      · have hread := readAnswer_eq_ok.mpr ⟨entries, hentries, hrefuses, hpubkey, hsig⟩
        rcases h with hheader | ⟨msg, lib, hmsg, hlib, hlength, hrecords⟩
        · exact Or.inl (Or.inr ⟨pubkey, sig, hread, Or.inl hheader⟩)
        · by_cases hzero : lib.verifyCompressed sig ⟨pubkey, hlength⟩ msg = 0
          · by_cases hheader : sig.head? = some sigCompressedHeader
            · refine Or.inr ⟨⟨(pubkey, sig), ?_⟩, hrecords hzero⟩
              refine verifyAnswer_eq_ok.mpr ⟨hread, hheader, ?_⟩
              exact verifyInscription_eq_ok.mpr
                ⟨msg, lib, hmsg, hlib, hlength, (decide_eq_true hzero).symm⟩
            · exact Or.inl (Or.inr ⟨pubkey, sig, hread, Or.inl hheader⟩)
          · refine Or.inl (Or.inr ⟨pubkey, sig, hread, Or.inr ?_⟩)
            exact verifyInscription_eq_ok.mpr
              ⟨msg, lib, hmsg, hlib, hlength, (decide_eq_false hzero).symm⟩
  · rintro ((⟨entries, hentries, hrefuses⟩ | ⟨pubkey, sig, hread, h⟩) |
      ⟨⟨⟨pubkey, sig⟩, hok⟩, hrecords⟩)
    · exact ⟨entries, hentries, Or.inl hrefuses⟩
    · obtain ⟨entries, hentries, -, hpubkey, hsig⟩ := readAnswer_eq_ok.mp hread
      refine ⟨entries, hentries, Or.inr ⟨pubkey, sig, hpubkey, hsig, ?_⟩⟩
      rcases h with hheader | hverify
      · exact Or.inl hheader
      · obtain ⟨msg, lib, hmsg, hlib, hlength, hfalse⟩ := verifyInscription_eq_ok.mp hverify
        refine Or.inr ⟨msg, lib, hmsg, hlib, hlength, ?_⟩
        intro hzero
        exact absurd hzero (of_decide_eq_false hfalse.symm)
    · obtain ⟨hread, hheader, hverify⟩ := verifyAnswer_eq_ok.mp hok
      obtain ⟨entries, hentries, -, hpubkey, hsig⟩ := readAnswer_eq_ok.mp hread
      obtain ⟨msg, lib, hmsg, hlib, hlength, -⟩ := verifyInscription_eq_ok.mp hverify
      exact ⟨entries, hentries, Or.inr ⟨pubkey, sig, hpubkey, hsig,
        Or.inr ⟨msg, lib, hmsg, hlib, hlength, fun _ => hrecords⟩⟩⟩

end Verifies

/-! ## The contract -/

section Contract

variable {σ : Type}

/-- A verified result, or `SealVerificationError`. -/
def ResultOrRefusal (signer : Signer) (args : Arguments) : Ending Error SealResult → Prop
  | .returned result => Verified signer args result.pubkey result.signature
  | .raised e => IsVerificationError e
  | .killed => False

/-- The cell is free, and the request can be written, so the worker is asked. -/
def Asked (limits : Limits) (store : SealStore σ) (args : Arguments) (s : σ) : Prop :=
  (store.isSealed args.cellId ⟨[], s⟩).1 = .returned false ∧ ¬ ∃ e, Rejects limits args e

/-- When the two calls have the same contract, and when the isolated call keeps its
own whatever the worker answers. -/
structure IsolationIff (limits : Limits) (store : SealStore σ) (Records : Value → σ → Prop) :
    Prop where
  same : ∀ loading protections args s, SameContract limits store loading protections args s ↔
    ((store.isSealed args.cellId ⟨[], s⟩).1 ≠ .returned false ∨ Agreeable limits loading args)
  answers : ∀ loading args requireLocked answer s, Asked limits store args s →
    (ResultOrRefusal loading.signer args
      ((SealCall.isolated loading.signer (fun _ => .ok answer) args requireLocked).run limits store
        ⟨[], s⟩).1 ↔
      Understood limits loading args (Records args.cellId s) answer)

variable {limits : Limits} {store : SealStore σ} {Records : Value → σ → Prop}

theorem isolationIff_of_answering (hstore : Answering store Records) :
    IsolationIff limits store Records where
  same loading protections args s := by
    obtain ⟨r, hsealed⟩ := hstore.isSealed args.cellId s
    rw [hsealed]
    by_cases hr : r = .returned false
    · subst hr
      rw [sameContract_iff_of_unsealed hsealed]
      exact (or_iff_right (not_not.mpr rfl)).symm
    · exact iff_of_true (sameContract_of_stopped hsealed hr) (Or.inl hr)
  answers loading args requireLocked answer s hasked := by
    obtain ⟨hfree, hwritten⟩ := hasked
    obtain ⟨r, hsealed⟩ := hstore.isSealed args.cellId s
    rw [hsealed] at hfree
    subst hfree
    cases hrequest : isolatedRequest limits args requireLocked with
    | error e => exact absurd ⟨e, isolatedRequest_eq_error.mp hrequest⟩ hwritten
    | ok stdin =>
      obtain ⟨request, -, ⟨-, hcell, -⟩, -⟩ := parseRequest_of_request hrequest
      have hverified : (SealCall.isolated loading.signer (fun _ => .ok answer) args
          requireLocked).verified limits store ⟨[], s⟩ =
            Proc.call (verifyAnswer limits loading.signer args answer) ⟨[], s⟩ :=
        isolated_answered hsealed hrequest rfl
      rw [SealCall.run_eq, understood_iff]
      cases hverify : verifyAnswer limits loading.signer args answer with
      | error e =>
        rw [Proc.bind_raised (hverified.trans (Proc.call_error hverify s)), fails_error]
        refine (or_iff_left ?_).symm
        rintro ⟨⟨out, heq⟩, -⟩
        cases heq
      | ok out =>
        rw [Proc.bind_returned (hverified.trans (Proc.call_ok hverify s))]
        show ResultOrRefusal _ _ (recordAndReturn limits store args.cellId out ⟨[], s⟩).1 ↔ _
        unfold recordAndReturn
        by_cases hrecords : Records args.cellId s
        · obtain ⟨s', hrecord⟩ := hstore.returns args.cellId s hrecords
          rw [Proc.bind_returned hrecord, Proc.bind_returned (Proc.call_ok hcell s')]
          exact iff_of_true (verifyAnswer_verified hverify) (Or.inr ⟨⟨out, rfl⟩, hrecords⟩)
        · obtain ⟨e, hrecord, he⟩ := hstore.raises args.cellId s hrecords
          rw [Proc.bind_raised hrecord]
          refine iff_of_false he ?_
          rintro (⟨e', heq, -⟩ | ⟨-, h⟩)
          · cases heq
          · exact hrecords h

/-- For which inputs the isolated call has the contract of the other, over either
store. -/
theorem isolation_iff (limits : Limits) (path : String) :
    IsolationIff limits (inMemorySealStore limits) (InMemoryRecords limits) ∧
      IsolationIff limits (jsonFileSealStore limits path) (Recordable limits path) :=
  ⟨isolationIff_of_answering (inMemory_answering limits),
    isolationIff_of_answering (jsonFile_answering limits path)⟩

end Contract

/-! ## Where the contracts differ -/

section Differ

/-- A library that signs everything with the header alone and accepts it. -/
def headerLibrary : Library where
  initPrng := (0, zeroed rngSize)
  keygen rng := ⟨0, rng, zeroed privkeySize, zeroed pubkeySize⟩
  signCompressed _ _ := ⟨0, 1, ⟨sigCompressedHeader :: List.replicate (sigCompressedMaxsize - 1) 0,
    by rw [List.length_cons, List.length_replicate]; rfl⟩⟩
  verifyCompressed _ _ _ := 0

/-- An app id, and otherwise the cell 5 and hashes of zeros. -/
def cellFive (appId : Int) : Arguments :=
  ⟨.int appId, .int 5, .bytes (List.replicate 32 0), .bytes (List.replicate 32 0)⟩

theorem cellFive_written {limits : Limits} {appId : Int} (happ : Writable limits appId) :
    ¬ ∃ e, Rejects limits (cellFive appId) e := by
  have hfits : Doc.fits limits (.int 5) = true := fits_of_inUint64 (by unfold InUint64; omega)
  have hfive : Writable limits 5 := of_decide_eq_true hfits
  rintro ⟨e, h | ⟨app, happ', h | ⟨cell, hcell', h | ⟨a, -, h | ⟨g, -, h, -⟩⟩⟩⟩⟩
  · cases h
  · cases h
  · cases h
  · cases h
  · cases happ'
    cases hcell'
    exact h ⟨happ, hfive⟩

/-- For a negative app id the call in the process raises `ValueError`, and the
isolated call `SealVerificationError`.  And an output that is a list makes the
isolated call raise `AttributeError`. -/
theorem contracts_differ :
    ¬ SameContract Limits.default (inMemorySealStore Limits.default) (.loaded headerLibrary)
        ⟨true, true, true, "linux"⟩ (cellFive (-1)) ∅ ∧
      ¬ ResultOrRefusal (Loading.loaded headerLibrary).signer (cellFive 7)
        ((SealCall.isolated (Loading.loaded headerLibrary).signer
          (fun _ => .ok ⟨0, Json.encodeUtf8 ['[', ']']⟩) (cellFive 7) false).run Limits.default
            (inMemorySealStore Limits.default) ⟨[], ∅⟩).1 := by
  have hfree : ∀ appId, (inMemorySealStore Limits.default).isSealed (cellFive appId).cellId
      ⟨[], ∅⟩ = (.returned false, ⟨[], ∅⟩) := fun _ => rfl
  constructor
  · have hmessage : (cellFive (-1)).message =
        .error (.valueError "app_id must be a uint64 (0 .. 2**64-1)") := rfl
    have hkeys : (Loading.loaded headerLibrary).keyPair =
        some (headerLibrary, headerLibrary.keygen (zeroed rngSize)) := by
      unfold Loading.keyPair
      exact if_pos ⟨rfl, rfl⟩
    rw [sameContract_iff_of_malformed (hfree (-1)) hkeys hmessage]
    rintro (⟨e, hrejects, -⟩ | ⟨request, ⟨happ, -⟩, sig, msg, hmsg, -⟩)
    · exact cellFive_written (by decide) ⟨e, hrejects⟩
    · obtain ⟨app, cell, h, g, heq, hin, -⟩ := Sdk.buildMessage_eq_ok.mp hmsg
      cases heq
      rw [← Except.ok.inj happ] at hin
      exact absurd hin.1 (by decide)
  · have hiff : IsolationIff Limits.default (inMemorySealStore Limits.default)
        (InMemoryRecords Limits.default) :=
      isolationIff_of_answering (inMemory_answering Limits.default)
    rw [hiff.answers _ _ _ _ _ ⟨by rw [hfree], cellFive_written (by decide)⟩]
    rintro ⟨entries, ⟨text, htext, h⟩, -⟩
    rw [Json.decodeUtf8_encodeUtf8] at htext
    cases htext
    have hloads : Json.loads Limits.default ['[', ']'] = .ok (.list []) :=
      Doc.loads_dumps (d := .list []) rfl (by decide)
    rcases h with h | ⟨e, h, -⟩
    · rw [hloads] at h
      cases h
    · rw [hloads] at h
      cases h

end Differ

end Trelyan.Seal
