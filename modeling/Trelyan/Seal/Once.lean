import Trelyan.Seal.Record
import Trelyan.Seal.Seal

/-!
# One seal for a cell

What both stores keep (`Lawful`): asking changes nothing, and `record` takes no
cell away and adds the cell when it returns.  Over a lawful store a call
returns only for a cell that was not recorded before and is recorded after, so
in a sequence of calls of both kinds no two return the same cell (`sealsOnce`).

Nothing is assumed of the signers, of the workers, or of the faults.
-/

namespace Trelyan.Seal

open Py Faults Falcon

/-! ## Lawful stores -/

/-- The laws of a store, over what it means that a cell is recorded. -/
structure Lawful {σ : Type} (limits : Limits) (store : SealStore σ) (Recorded : Int → σ → Prop) :
    Prop where
  isSealed : ∀ cellId s, Triple (· = s) (store.isSealed cellId) fun r s' => s' = s ∧
    ∀ b, r = .returned b → ∃ n, intOf limits cellId = .ok n ∧ (b = true ↔ Recorded n s)
  record : ∀ cellId s, Triple (· = s) (store.record cellId) fun r s' =>
    (∀ n, Recorded n s → Recorded n s') ∧
      (r = .returned () → ∃ n, intOf limits cellId = .ok n ∧ Recorded n s')

theorem inMemory_lawful (limits : Limits) :
    Lawful limits (inMemorySealStore limits) fun n s => n ∈ s where
  isSealed cellId s := by
    show Triple (· = s) _ (Post.keeps (· = s) fun b =>
      ∃ n, intOf limits cellId = .ok n ∧ (b = true ↔ n ∈ s))
    refine keeps_bind (keeps_call _) ?_
    intro n hn
    refine triple_atomic (fun _ _ => rfl) (fun s' hs => ⟨fun e => ⟨hs, nofun⟩, hs, nofun⟩) ?_
    intro s' b s'' hs hrun
    subst hs
    cases hrun
    refine ⟨⟨rfl, fun b heq => ⟨n, hn, ?_⟩⟩, fun e => ⟨rfl, nofun⟩, rfl, nofun⟩
    cases heq
    exact decide_eq_true_iff
  record cellId s := by
    refine triple_bind (fun n s' => s' = s ∧ intOf limits cellId = .ok n) ?_ ?_
    · refine triple_call (fun s' n hs hn => ⟨hs, hn⟩) ?_ ?_
      · intro s' e hs
        exact ⟨fun n hn => hs ▸ hn, nofun⟩
      · intro s' hs
        exact ⟨fun n hn => hs ▸ hn, nofun⟩
    · intro n
      refine triple_atomic (fun _ _ => rfl) ?_ ?_
      · intro s' hs
        have hsame : ∀ m ∈ s, m ∈ s' := fun m hm => hs.1 ▸ hm
        exact ⟨fun e => ⟨hsame, nofun⟩, hsame, nofun⟩
      · intro s' u s'' hs hrun
        rcases hs with ⟨rfl, hn⟩
        cases hrun
        have hgrows : ∀ m ∈ s', m ∈ insert n s' := fun m hm => Finset.mem_insert_of_mem hm
        exact ⟨⟨hgrows, fun _ => ⟨n, hn, Finset.mem_insert_self n s'⟩⟩, fun e => ⟨hgrows, nofun⟩,
          hgrows, nofun⟩

theorem jsonFile_lawful (limits : Limits) (path : String) :
    Lawful limits (jsonFileSealStore limits path) fun n d => LoadsId limits path n d.fs where
  isSealed cellId d := by
    refine (isSealed_spec cellId d).conseq (fun _ h => h) ?_
    intro r d' h
    refine ⟨h.1, fun b heq => ?_⟩
    obtain ⟨n, ids, hn, hids, rfl⟩ := h.2 b heq
    refine ⟨n, hn, ?_⟩
    rw [decide_eq_true_iff]
    constructor
    · intro hmem
      exact ⟨ids, hids, hmem⟩
    · rintro ⟨ids', hids', hmem⟩
      rw [hids] at hids'
      cases hids'
      exact hmem
  record cellId d := by
    refine (record_spec cellId d).conseq (fun _ h => h) ?_
    intro r d' h
    refine ⟨fun n hn => h.1.loadsId hn, ?_⟩
    rintro rfl
    exact h.loadsId

/-! ## Calls -/

/-- A call of one of the two functions. -/
inductive SealCall where
  | inProcess (signer : Signer) (args : Arguments)
  | isolated (parent : Signer) (worker : Bytes → Except Error Completed) (args : Arguments)
      (requireLocked : Bool)

namespace SealCall

def args : SealCall → Arguments
  | inProcess _ args => args
  | isolated _ _ args _ => args

/-- The signer that verifies for the caller. -/
def verifier : SealCall → Signer
  | inProcess signer _ => signer
  | isolated parent _ _ _ => parent

variable {σ : Type} (limits : Limits) (store : SealStore σ)

/-- The call up to its verification. -/
def verified : SealCall → Proc Error σ (Bytes × Bytes)
  | inProcess signer args =>
    Proc.withLocal KeyMemory.fresh (keygenSignVerify limits store signer args)
  | isolated parent worker args requireLocked =>
    keygenSignVerifyIsolated limits store parent worker args requireLocked

def run : SealCall → Proc Error σ SealResult
  | inProcess signer args =>
    Proc.withLocal KeyMemory.fresh (keygenSignSeal limits store signer args)
  | isolated parent worker args requireLocked =>
    keygenSignSealIsolated limits store parent worker args requireLocked

theorem run_eq (call : SealCall) :
    call.run limits store =
      call.verified limits store >>= recordAndReturn limits store call.args.cellId := by
  cases call with
  | inProcess signer args => exact Proc.withLocal_bind_onFst ..
  | isolated parent worker args requireLocked => rfl

end SealCall

/-- The signature has the header, and it verifies over the message of the
arguments. -/
def Verified (signer : Signer) (args : Arguments) (pubkey sig : Bytes) : Prop :=
  sig.head? = some sigCompressedHeader ∧
    ∃ m, args.message = .ok m ∧ signer.verify sig pubkey m = .ok true

section Specs

variable {signer : Signer} {args : Arguments} {pubkey sig : Bytes} {limits : Limits}

theorem verified_of_checks {describe : String → String}
    (hheader : checkHeader describe sig = .ok ())
    (hverify : args.verifyInscription signer sig pubkey = .ok true) :
    Verified signer args pubkey sig := by
  obtain ⟨m, hm, hok⟩ := bind_eq_ok.mp hverify
  exact ⟨require_eq_ok.mp hheader, m, hm, hok⟩

/-- What the body of the `try` returns is verified. -/
theorem signAndVerify_spec :
    Triple (fun _ => True) (signAndVerify signer args pubkey)
      (Post.keeps (fun _ => True) (Verified signer args pubkey)) := by
  refine keeps_bind (keeps_call _) ?_
  intro m hm
  refine keeps_bind (keeps_true _) ?_
  intro memory _
  refine keeps_bind (keeps_true _) ?_
  intro sig _
  refine keeps_bind (keeps_call _) ?_
  intro u hheader
  refine keeps_bind (keeps_call _) ?_
  intro b hverify
  split
  · rename_i hb
    subst hb
    exact keeps_pure (verified_of_checks hheader hverify)
  · exact keeps_raise

/-- What the parent accepts is verified. -/
theorem verifyAnswer_verified {proc : Completed} {out : Bytes × Bytes}
    (h : verifyAnswer limits signer args proc = .ok out) : Verified signer args out.1 out.2 := by
  unfold verifyAnswer at h
  obtain ⟨answer, -, h⟩ := bind_eq_ok.mp h
  obtain ⟨u, hheader, h⟩ := bind_eq_ok.mp h
  obtain ⟨b, hverify, h⟩ := bind_eq_ok.mp h
  split at h
  · rename_i hb
    subst hb
    cases h
    exact verified_of_checks hheader hverify
  · cases h

variable {σ : Type} {store : SealStore σ} {Recorded : Int → σ → Prop}

/-- What the store says before a call goes on.  The state of the store is a part
of the state of the call. -/
theorem unsealed_spec {τ α : Type} {I : τ → Prop} {s : σ} {cellId : Value}
    {ask : Proc Error τ Bool} {e : Error} {rest : Proc Error τ α} {R : α → Prop}
    (hask : Triple I ask (Post.keeps I fun b =>
      ∃ n, intOf limits cellId = .ok n ∧ (b = true ↔ Recorded n s)))
    (hrest : Triple I rest (Post.keeps I R)) :
    Triple I (ask >>= fun b => if b = true then Proc.raise e else rest)
      (Post.keeps I fun a => R a ∧ ∃ n, intOf limits cellId = .ok n ∧ ¬ Recorded n s) := by
  refine keeps_bind hask ?_
  intro b hb
  obtain ⟨n, hn, hiff⟩ := hb
  split
  · exact keeps_raise
  · rename_i hb
    exact keeps_weaken hrest fun a ha => ⟨ha, n, hn, fun hrecorded => hb (hiff.mpr hrecorded)⟩

/-- Up to the verification the store stays as it was, and what is returned is
verified, for a cell that is not recorded. -/
theorem SealCall.verified_spec (hlawful : Lawful limits store Recorded) (call : SealCall) (s : σ) :
    Triple (· = s) (call.verified limits store) (Post.keeps (· = s) fun out =>
      Verified call.verifier call.args out.1 out.2 ∧
        ∃ n, intOf limits call.args.cellId = .ok n ∧ ¬ Recorded n s) := by
  cases call with
  | inProcess signer args =>
    refine triple_withLocal (unsealed_spec (I := fun t : σ × KeyMemory => t.1 = s) ?_ ?_)
    · exact triple_onFst fun m => hlawful.isSealed args.cellId s
    · refine keeps_bind (keeps_onSnd (I := (· = s)) (keeps_true _)) ?_
      intro pubkey _
      refine keeps_bind (keeps_onSnd (I := (· = s))
        (keeps_tryFinally signAndVerify_spec (keeps_true _))) ?_
      intro sig hsig
      exact keeps_pure hsig
  | isolated parent worker args requireLocked =>
    refine unsealed_spec (hlawful.isSealed args.cellId s) ?_
    refine keeps_bind (keeps_call _) ?_
    intro request _
    refine keeps_bind (keeps_call _) ?_
    intro proc _
    exact keeps_weaken (keeps_call _) fun out hout => verifyAnswer_verified hout

/-- A call takes no cell away.  It returns what is verified, for a cell that was
not recorded and is now. -/
theorem SealCall.run_spec (hlawful : Lawful limits store Recorded) (call : SealCall) (s : σ) :
    Triple (· = s) (call.run limits store) fun r s' => (∀ n, Recorded n s → Recorded n s') ∧
      ∀ result, r = .returned result →
        Verified call.verifier call.args result.pubkey result.signature ∧
        intOf limits call.args.cellId = .ok result.cellId ∧
        ¬ Recorded result.cellId s ∧ Recorded result.cellId s' := by
  rw [call.run_eq]
  refine triple_bind (fun out s' => s' = s ∧ Verified call.verifier call.args out.1 out.2 ∧
    ∃ n, intOf limits call.args.cellId = .ok n ∧ ¬ Recorded n s) ?_ ?_
  · refine (call.verified_spec hlawful s).conseq (fun _ h => h) ?_
    intro r s' h
    have hsame : ∀ n, Recorded n s → Recorded n s' := fun n hn => h.1 ▸ hn
    cases r with
    | returned out => exact ⟨h.1, h.2 out rfl⟩
    | raised e => exact ⟨hsame, nofun⟩
    | killed => exact ⟨hsame, nofun⟩
  intro out
  refine Triple.of_states fun s' hs' => ?_
  obtain ⟨rfl, hverified, n, hn, hnot⟩ := hs'
  refine triple_bind (fun _ s'' => (∀ m, Recorded m s' → Recorded m s'') ∧ Recorded n s'') ?_ ?_
  · refine (hlawful.record call.args.cellId s').conseq (fun _ h => h) ?_
    intro r s'' h
    cases r with
    | returned u =>
      obtain ⟨n', hn', hrecorded⟩ := h.2 rfl
      rw [hn] at hn'
      cases hn'
      exact ⟨h.1, hrecorded⟩
    | raised e => exact ⟨h.1, nofun⟩
    | killed => exact ⟨h.1, nofun⟩
  · intro u
    refine triple_bind (fun m s'' => intOf limits call.args.cellId = .ok m ∧
      (∀ m, Recorded m s' → Recorded m s'') ∧ Recorded n s'') ?_ ?_
    · exact triple_call (fun s'' m hs hm => ⟨hm, hs⟩) (fun s'' e hs => ⟨hs.1, nofun⟩)
        (fun s'' hs => ⟨hs.1, nofun⟩)
    · intro m
      refine triple_pure ?_
      intro s'' hs
      refine ⟨hs.2.1, ?_⟩
      intro result heq
      cases heq
      have hm := hs.1
      rw [hn] at hm
      cases hm
      exact ⟨hverified, hn, hnot, hs.2.2⟩

end Specs

/-! ## Sequences of calls -/

/-- A call with its faults, and the state in which it starts. -/
structure Entry (σ : Type) where
  call : SealCall
  faults : List (Fault Error)
  before : σ

namespace Entry

variable {σ : Type} (limits : Limits) (store : SealStore σ)

def ending (entry : Entry σ) : Ending Error SealResult :=
  (entry.call.run limits store ⟨entry.faults, entry.before⟩).1

def after (entry : Entry σ) : σ :=
  (entry.call.run limits store ⟨entry.faults, entry.before⟩).2.state

/-- The call ends at its verification or earlier. -/
def EndsEarly (entry : Entry σ) : Prop :=
  ∀ out, (entry.call.verified limits store ⟨entry.faults, entry.before⟩).1 ≠ .returned out

/-- What the call returns, if it returns. -/
def result? (entry : Entry σ) : Option SealResult :=
  match entry.ending limits store with
  | .returned result => some result
  | _ => none

end Entry

section Sequences

variable {σ : Type} (limits : Limits) (store : SealStore σ)

/-- The calls of a sequence, each in the state that the one before it left. -/
def entriesOf : List (SealCall × List (Fault Error)) → σ → List (Entry σ)
  | [], _ => []
  | (call, faults) :: calls, s =>
    ⟨call, faults, s⟩ :: entriesOf calls ((⟨call, faults, s⟩ : Entry σ).after limits store)

/-- What the calls of a sequence return. -/
def resultsOf (entries : List (Entry σ)) : List SealResult :=
  entries.filterMap fun entry => entry.result? limits store

/-- In every sequence of calls no two return the same cell.  Each call that returns
is verified and recorded, and each one that ends early leaves the store as it
was. -/
def SealsOnce (Recorded : Int → σ → Prop) : Prop :=
  ∀ (calls : List (SealCall × List (Fault Error))) (s : σ),
    ((resultsOf limits store (entriesOf limits store calls s)).map (·.cellId)).Nodup ∧
    ∀ entry ∈ entriesOf limits store calls s,
      (∀ result, entry.ending limits store = .returned result →
        Verified entry.call.verifier entry.call.args result.pubkey result.signature ∧
        intOf limits entry.call.args.cellId = .ok result.cellId ∧
        ¬ Recorded result.cellId entry.before ∧
        Recorded result.cellId (entry.after limits store)) ∧
      (entry.EndsEarly limits store → entry.after limits store = entry.before ∧
        entry.result? limits store = none)

end Sequences

section SealsOnce

variable {σ : Type} {limits : Limits} {store : SealStore σ} {Recorded : Int → σ → Prop}

theorem Entry.spec (hlawful : Lawful limits store Recorded) (entry : Entry σ) :
    (∀ n, Recorded n entry.before → Recorded n (entry.after limits store)) ∧
      ∀ result, entry.ending limits store = .returned result →
        Verified entry.call.verifier entry.call.args result.pubkey result.signature ∧
        intOf limits entry.call.args.cellId = .ok result.cellId ∧
        ¬ Recorded result.cellId entry.before ∧
        Recorded result.cellId (entry.after limits store) :=
  entry.call.run_spec hlawful entry.before ⟨entry.faults, entry.before⟩ rfl

theorem Entry.endsEarly (hlawful : Lawful limits store Recorded) (entry : Entry σ)
    (h : entry.EndsEarly limits store) :
    entry.after limits store = entry.before ∧ entry.result? limits store = none := by
  have hspec := (entry.call.verified_spec hlawful entry.before
    ⟨entry.faults, entry.before⟩ rfl).1
  unfold Entry.EndsEarly at h
  unfold Entry.after Entry.result? Entry.ending
  rw [entry.call.run_eq]
  cases hrun : entry.call.verified limits store ⟨entry.faults, entry.before⟩ with
  | mk r w' =>
    rw [hrun] at h hspec
    cases r with
    | returned out => exact absurd rfl (h out)
    | raised e =>
      rw [Proc.bind_raised hrun]
      exact ⟨hspec, rfl⟩
    | killed =>
      rw [Proc.bind_killed hrun]
      exact ⟨hspec, rfl⟩

theorem Entry.result?_eq_some {entry : Entry σ} {result : SealResult}
    (h : entry.result? limits store = some result) :
    entry.ending limits store = .returned result := by
  unfold Entry.result? at h
  split at h
  · rename_i result' heq
    cases h
    exact heq
  · cases h

/-- No result is for a cell that was recorded at the start. -/
theorem not_recorded_of_result (hlawful : Lawful limits store Recorded)
    (calls : List (SealCall × List (Fault Error))) (s : σ) :
    ∀ result ∈ resultsOf limits store (entriesOf limits store calls s),
      ¬ Recorded result.cellId s := by
  induction calls generalizing s with
  | nil => exact nofun
  | cons call calls ih =>
    intro result hmem hrecorded
    obtain ⟨entry, hentry, hresult⟩ := List.mem_filterMap.mp hmem
    let first : Entry σ := ⟨call.1, call.2, s⟩
    rcases List.mem_cons.mp hentry with rfl | hentry
    · exact ((first.spec hlawful).2 result (Entry.result?_eq_some hresult)).2.2.1 hrecorded
    · exact ih _ result (List.mem_filterMap.mpr ⟨entry, hentry, hresult⟩)
        ((first.spec hlawful).1 _ hrecorded)

theorem results_nodup (hlawful : Lawful limits store Recorded)
    (calls : List (SealCall × List (Fault Error))) (s : σ) :
    ((resultsOf limits store (entriesOf limits store calls s)).map (·.cellId)).Nodup := by
  induction calls generalizing s with
  | nil => exact List.nodup_nil
  | cons call calls ih =>
    let first : Entry σ := ⟨call.1, call.2, s⟩
    show ((resultsOf limits store (first :: entriesOf limits store calls
      (first.after limits store))).map (·.cellId)).Nodup
    unfold resultsOf
    cases hresult : first.result? limits store with
    | none =>
      rw [List.filterMap_cons_none hresult]
      exact ih _
    | some result =>
      rw [List.filterMap_cons_some hresult, List.map_cons, List.nodup_cons]
      refine ⟨?_, ih _⟩
      intro hmem
      obtain ⟨later, hlater, heq⟩ := List.mem_map.mp hmem
      have hrecorded := ((first.spec hlawful).2 result (Entry.result?_eq_some hresult)).2.2.2
      rw [← heq] at hrecorded
      exact not_recorded_of_result hlawful calls _ later hlater hrecorded

theorem sealsOnce_of_lawful (hlawful : Lawful limits store Recorded) :
    SealsOnce limits store Recorded := by
  intro calls s
  refine ⟨results_nodup hlawful calls s, ?_⟩
  intro entry _
  exact ⟨(entry.spec hlawful).2, entry.endsEarly hlawful⟩

end SealsOnce

/-- Both stores seal a cell once. -/
theorem sealsOnce :
    (∀ limits, SealsOnce limits (inMemorySealStore limits) fun n s => n ∈ s) ∧
      ∀ limits path, SealsOnce limits (jsonFileSealStore limits path)
        fun n d => LoadsId limits path n d.fs :=
  ⟨fun limits => sealsOnce_of_lawful (inMemory_lawful limits),
    fun limits path => sealsOnce_of_lawful (jsonFile_lawful limits path)⟩

end Trelyan.Seal
